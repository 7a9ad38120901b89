import TestLauncher.Resolution

/-! # The failure boundary

    Whatever an engine does runs behind a boundary that looks at how it ends.  A fault that
    is an exception and does not say that memory has run out stays there, and is written to
    the journal; every other goes through. -/

namespace TestLauncher

/-- The fault something ended with. -/
def Except.fault? {α : Type} : Except Fault α → Option Fault
  | .ok _ => none
  | .error f => some f

/-- Whether the failure boundary lets a fault through. -/
def Fault.escapes (f : Fault) : Bool := !f.isException || f.isUnrecoverable

namespace Resolution

variable {κ ω ρ α : Type}

/-- The boundary looks at how the steps end, and at nothing else they did. -/
theorem on_guarded (engine : Engine κ) (deed : String) (steps : Run κ ω ρ α) (w : World κ ω ρ) :
    (guarded engine deed steps).on w
      = (guarded engine deed (Steps.ofExcept (steps.on w).1)).on (steps.on w).2 := by
  rw [guarded, guarded, Steps.on_bind_ok (Steps.on_outcome ..),
    Steps.on_bind_ok (Steps.on_outcome ..), Steps.on_ofExcept]

/-- What the failure boundary makes of how something ends: nothing of a fault it holds. -/
def held : Except Fault α → Except Fault (Option α)
  | .ok a => .ok (some a)
  | .error f => if f.escapes then .error f else .ok none

theorem guarded_error (engine : Engine κ) (deed : String) (f : Fault) (w : World κ ω ρ) :
    (guarded engine deed (Steps.ofExcept (.error f) : Run κ ω ρ α)).on w
      = (if f.isException = true then (contain engine deed f >>= fun _ => pure none)
          else throw f : Run κ ω ρ (Option α)).on w := by
  rw [guarded, Steps.on_bind_ok (Steps.on_outcome ..), Steps.on_ofExcept]

theorem guarded_fst (engine : Engine κ) (deed : String) (result : Except Fault α)
    (w : World κ ω ρ) :
    ((guarded engine deed (Steps.ofExcept result)).on w).1 = held result := by
  cases result with
  | ok a => rfl
  | error f =>
      rw [guarded_error, held]
      by_cases hx : f.isException = true
      · rw [if_pos hx, Fault.escapes, hx, Bool.not_true, Bool.false_or, contain,
          rethrowUnrecoverable]
        cases f.isUnrecoverable <;> rfl
      · rw [if_neg hx, Fault.escapes, eq_false_of_ne_true hx]
        rfl

/-- The boundary writes to the journal and does nothing else. -/
theorem guarded_snd (engine : Engine κ) (deed : String) (result : Except Fault α)
    (w : World κ ω ρ) :
    ∃ j, ((guarded engine deed (Steps.ofExcept result)).on w).2 = { w with journal := j } := by
  cases result with
  | ok a => exact ⟨w.journal, rfl⟩
  | error f =>
      rw [guarded_error]
      by_cases hx : f.isException = true
      · rw [if_pos hx, contain, rethrowUnrecoverable]
        cases f.isUnrecoverable <;> exact ⟨_, rfl⟩
      · rw [if_neg hx]
        exact ⟨w.journal, rfl⟩

section

variable {engine : Engine κ} {deed : String} {steps : Run κ ω ρ α} {w w' : World κ ω ρ} {f : Fault}

theorem on_guarded_ok {a : α} (h : steps.on w = (.ok a, w')) :
    (guarded engine deed steps).on w = (.ok (some a), w') := by
  rw [on_guarded, h]
  rfl

/-- A fault that is held is written down. -/
theorem on_guarded_held (h : steps.on w = (.error f, w')) (hf : f.escapes = false) :
    (guarded engine deed steps).on w = (.ok none, { w' with
      journal := w'.journal.write (LogLevel.warning.record Forest.logger
        ("Engine with ID '" ++ engine.id ++ "' failed to " ++ deed ++ " tests: " ++ f.message)
        (some f)) }) := by
  rw [Fault.escapes, Bool.or_eq_false_iff, Bool.not_eq_false'] at hf
  rw [on_guarded, h, guarded_error, if_pos hf.1, contain, rethrowUnrecoverable, hf.2]
  rfl

theorem on_guarded_escapes (h : steps.on w = (.error f, w')) (hf : f.escapes = true) :
    ((guarded engine deed steps).on w).1 = .error f := by
  rw [on_guarded, h, guarded_fst, held, if_pos hf]

end

end Resolution

end TestLauncher
