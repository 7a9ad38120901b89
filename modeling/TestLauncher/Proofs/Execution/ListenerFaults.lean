import TestLauncher.Engine.Catalogue
import TestLauncher.Listener.Standard
import TestLauncher.Proofs.Execution.Chronicle

/-! # Listeners that fail

    A listener that fails ends the execution with its fault, and nothing is told to anyone
    and no engine is called any more, when it fails outside of an engine.  When an engine
    is running the fault goes to the engine, which stands behind the failure boundary: the
    execution ends with it exactly when the engine gives it back at once and the boundary
    does not hold it (`listener_fault_ends_iff`). -/

namespace TestLauncher

/-- Whether an engine was called that has not come back. -/
def running (ms : List Moment) : Bool :=
  ms.foldl (fun b m => match m with
    | .told _ _ _ => b
    | .called _ _ => true
    | .returned _ => false) false

theorem foldl_running {inner : List Moment} (hi : ∀ m ∈ inner, m.isTold = true) (b : Bool) :
    inner.foldl (fun b m => match m with
      | .told _ _ _ => b
      | .called _ _ => true
      | .returned _ => false) b = b := by
  induction inner generalizing b with
  | nil => rfl
  | cons m ms ih =>
      have hm := hi m (by simp)
      cases m with
      | told i e f => exact ih (fun x hx => hi x (by simp [hx])) b
      | called id root => cases hm
      | returned f => cases hm

/-- An engine is running as long as only listeners are told of things. -/
theorem running_called {id : String} {root : NodeRef} {inner : List Moment}
    (hi : ∀ m ∈ inner, m.isTold = true) : running (.called id root :: inner) = true :=
  foldl_running hi true

theorem running_returned {id : String} {root : NodeRef} {inner rest : List Moment}
    {fault? : Option Fault} (hi : ∀ m ∈ inner, m.isTold = true) :
    running (.called id root :: (inner ++ .returned fault? :: rest)) = running rest := by
  show (inner ++ Moment.returned fault? :: rest).foldl _ true = _
  rw [List.foldl_append, foldl_running hi]
  rfl

/-- What follows a moment in which nobody is told of anything and no engine is called. -/
def Quiet (post : List Moment) : Prop := ∀ m ∈ post, m.isReturn = true

/-- Outside of an engine something is told or called next, if anything happens. -/
theorem Unfolds.of_quiet {tr : List Moment} {o : Except Fault Unit} (h : Unfolds tr o)
    (hq : Quiet tr) : o = .ok () := by
  cases h with
  | done => rfl
  | told h => cases hq _ (List.mem_cons_self ..)
  | refused => cases hq _ (List.mem_cons_self ..)
  | contained hi hr h => cases hq _ (List.mem_cons_self ..)
  | escaped hi hf => cases hq _ (List.mem_cons_self ..)

/-- A part of what an engine reports is quiet only when it is over. -/
theorem eq_nil_of_quiet {inner rest : List Moment} (hi : ∀ m ∈ inner, m.isTold = true)
    (hq : Quiet (inner ++ rest)) : inner = [] := by
  cases inner with
  | nil => rfl
  | cons m ms =>
      have htold := hi m (by simp)
      have hret := hq m (by simp)
      cases m with
      | told i e f => cases hret
      | called id root => cases htold
      | returned f => cases htold

theorem quiet_last (fault? : Option Fault) : Quiet [.returned fault?] := by
  intro m hm
  rw [List.mem_singleton.mp hm]
  rfl

/-- What an engine reports before it comes back is nothing when coming back is all there is. -/
theorem eq_last {inner rest : List Moment} {fault? fault'? : Option Fault}
    (hi : ∀ m ∈ inner, m.isTold = true)
    (h : inner ++ .returned fault? :: rest = [.returned fault'?]) :
    inner = [] ∧ fault? = fault'? ∧ rest = [] := by
  have hnil : inner = [] := eq_nil_of_quiet hi (h ▸ quiet_last fault'?)
  subst hnil
  injection h with hfault hrest
  injection hfault with hfault
  exact ⟨rfl, hfault, hrest⟩

/-- Where a moment in which a listener is told of something stands in what an engine reports
    followed by something else. -/
theorem told_mem_split {i : Nat} {e : Event} {f? : Option Fault}
    {inner rest pre post : List Moment} {r? : Option Fault}
    (h : inner ++ .returned r? :: rest = pre ++ .told i e f? :: post) :
    (∃ inner', inner = pre ++ .told i e f? :: inner' ∧ post = inner' ++ .returned r? :: rest) ∨
      ∃ pre', pre = inner ++ .returned r? :: pre' ∧ rest = pre' ++ .told i e f? :: post := by
  rcases List.append_eq_append_iff.mp h with ⟨m, hpre, hrest⟩ | ⟨m, hinner, hpost⟩
  · cases m with
    | nil => cases hrest
    | cons x xs =>
        injection hrest with hx hxs
        subst hx
        exact Or.inr ⟨xs, hpre, hxs⟩
  · cases m with
    | nil => cases hpost
    | cons x xs =>
        injection hpost with hx hxs
        subst hx
        exact Or.inl ⟨xs, hinner, hxs⟩

/-- When the running engine ends with nothing to pass on, the run goes on after it. -/
theorem fault_iff_of_contained {pre inner rest : List Moment} {r? : Option Fault}
    {o : Except Fault Unit} {f : Fault} (hrun : running pre = true)
    (hi : ∀ m ∈ inner, m.isTold = true) (hr : ∀ g ∈ r?, g.escapes = false) (h : Unfolds rest o) :
    (o = .error f ∧ Quiet (inner ++ .returned r? :: rest)) ↔ (running pre = false ∨
      (inner ++ .returned r? :: rest = [.returned (some f)] ∧ f.escapes = true)) := by
  constructor
  · rintro ⟨ho, hq⟩
    have hrest : Quiet rest := fun m hm => hq m (by simp [hm])
    rw [h.of_quiet hrest] at ho
    cases ho
  · rintro (hfalse | ⟨hlast, hesc⟩)
    · rw [hrun] at hfalse
      cases hfalse
    · obtain ⟨-, hfault, -⟩ := eq_last hi hlast
      rw [hr f hfault] at hesc
      cases hesc

/-- When the running engine ends with a fault that is passed on, the run ends with it. -/
theorem fault_iff_of_escaped {pre inner : List Moment} {f g : Fault} (hrun : running pre = true)
    (hi : ∀ m ∈ inner, m.isTold = true) (hg : g.escapes = true) :
    ((.error g : Except Fault Unit) = .error f ∧ Quiet (inner ++ [.returned (some g)])) ↔
      (running pre = false ∨
        (inner ++ [.returned (some g)] = [.returned (some f)] ∧ f.escapes = true)) := by
  constructor
  · rintro ⟨ho, hq⟩
    cases ho
    have hnil : inner = [] := eq_nil_of_quiet hi hq
    subst hnil
    exact Or.inr ⟨rfl, hg⟩
  · rintro (hfalse | ⟨hlast, -⟩)
    · rw [hrun] at hfalse
      cases hfalse
    · obtain ⟨-, hfault, -⟩ := eq_last hi hlast
      exact ⟨congrArg _ (Option.some.inj hfault), hlast ▸ quiet_last _⟩

/-- What becomes of the fault of a listener in a chronicle that unfolds. -/
theorem Unfolds.fault_iff {tr pre post : List Moment} {o : Except Fault Unit} {i : Nat} {e : Event}
    {f : Fault} (h : Unfolds tr o) (htr : tr = pre ++ .told i e (some f) :: post) :
    (o = .error f ∧ Quiet post) ↔
      (running pre = false ∨ (post = [.returned (some f)] ∧ f.escapes = true)) := by
  induction h generalizing pre with
  | done => cases pre <;> cases htr
  | told h ih =>
      cases pre with
      | nil => cases htr
      | cons m ms =>
          injection htr with hm htr
          subst hm
          show _ ↔ (running ms = false ∨ _)
          exact ih htr
  | refused =>
      cases pre with
      | nil =>
          cases htr
          exact ⟨fun _ => Or.inl rfl, fun _ => ⟨rfl, fun _ hm => absurd hm List.not_mem_nil⟩⟩
      | cons m ms => cases ms <;> cases htr
  | contained hi hr h ih =>
      cases pre with
      | nil => cases htr
      | cons m ms =>
          injection htr with hm htr
          subst hm
          rcases told_mem_split htr with ⟨inner', hinner, rfl⟩ | ⟨ms', rfl, hrest⟩
          · subst hinner
            exact fault_iff_of_contained (running_called fun m hm => hi m (by simp [hm]))
              (fun m hm => hi m (by simp [hm])) hr h
          · rw [running_returned hi]
            exact ih hrest
  | escaped hi hg =>
      cases pre with
      | nil => cases htr
      | cons m ms =>
          injection htr with hm htr
          subst hm
          rcases told_mem_split htr with ⟨inner', hinner, rfl⟩ | ⟨ms', -, hrest⟩
          · subst hinner
            exact fault_iff_of_escaped (running_called fun m hm => hi m (by simp [hm]))
              (fun m hm => hi m (by simp [hm])) hg
          · cases ms' <;> cases hrest

namespace Launcher

variable {κ ω ρ : Type}

/-- **What becomes of a listener's fault.**  Whichever listener fails on whichever event of an
    execution, the execution ends with that very fault, without telling anyone of anything and
    without calling an engine any more, exactly when no engine was running, or the running one
    ends with the fault at once and it is one the failure boundary lets through. -/
theorem listener_fault_ends_iff (l : Launcher κ ω ρ) (request : Option DiscoveryRequest)
    (more : List (Option (Listener ω))) (w : World κ ω ρ) (pre post : List Moment) (i : Nat)
    (e : Event) (f : Fault)
    (h : l.chronicle request more w = pre ++ .told i e (some f) :: post) :
    (((l.execute request more).on w).1 = .error f ∧ Quiet post) ↔
      (running pre = false ∨ (post = [.returned (some f)] ∧ f.escapes = true)) := by
  have hne : l.chronicle request more w ≠ [] := by
    rw [h]
    simp
  exact (l.unfolds_chronicle request more w hne).fault_iff h

/-- One engine with no tests, and a listener that fails when a node starts. -/
def refusing : Launcher Diaries Observations Unit where
  engines := [Catalogue.engine { id := "E" } 0]
  listeners := [.recording "L" (some ("started", .raised .runtime (some "no")))]

/-- The fault of a listener that is told of the start of a root by the engine does not end the
    execution. -/
theorem listener_fault_held :
    let w : World Diaries Observations Unit := { engines := ∅, listeners := ∅, resolver := () }
    let root : Identifier :=
      { id := "[engine:E]", parentId := none, name := "E", kind := .container }
    let tr := refusing.chronicle (some {}) [] w
    let f : Fault := .raised .runtime (some "no")
    tr = tr.take 2 ++ .told 0 (.about (.started root)) (some f) :: tr.drop 3 ∧
      ¬ (((refusing.execute (some {}) []).on w).1 = .error f ∧ Quiet (tr.drop 3)) := by
  intro w root tr f
  have h : tr = tr.take 2 ++ .told 0 (.about (.started root)) (some f) :: tr.drop 3 := by
    decide +kernel
  refine ⟨h, ?_⟩
  intro hends
  have hcond := (refusing.listener_fault_ends_iff (some {}) [] w _ _ 0 _ f h).mp hends
  exact absurd hcond (by decide +kernel)

end Launcher

end TestLauncher
