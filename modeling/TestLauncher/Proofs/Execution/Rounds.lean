import TestLauncher.Proofs.Execution.Chronicle

/-! # Events go round

    An event that is told goes round the listeners of the call in order: the listener at
    each place is told, up to the first that refuses, and all of them when none does
    (`Round`).  A chronicle consists of such rounds, and of the calls and returns of engines
    between them (`rounds_chronicle`): nobody is told out of turn, whatever the engines do
    and wherever the execution ends. -/

namespace TestLauncher

/-- An event goes round, up to the first of so many listeners that refuses it. -/
inductive Round (n : Nat) (e : Event) : List Moment → Prop where
  | all : Round n e ((List.range n).map fun i => .told i e none)
  | refused {k : Nat} {f : Fault} (h : k < n) :
      Round n e ((List.range k).map (fun i => .told i e none) ++ [.told k e (some f)])

/-- How an event goes through so many listeners of which the first is at the given place, and how
    that ends: each is told of it, up to the first that fails. -/
inductive Goes (e : Event) : Nat → Nat → Except Fault Unit → List Moment → Prop where
  | past {place : Nat} : Goes e place 0 (.ok ()) []
  | on {place n : Nat} {result : Except Fault Unit} {told : List Moment}
      (h : Goes e (place + 1) n result told) :
      Goes e place (n + 1) result (.told place e none :: told)
  | refused {place n : Nat} {f : Fault} :
      Goes e place (n + 1) (.error f) [.told place e (some f)]

theorem Goes.shape {e : Event} {place n : Nat} {result : Except Fault Unit} {told : List Moment}
    (h : Goes e place n result told) :
    (result = .ok () ∧ told = (List.range' place n).map fun i => .told i e none) ∨
      ∃ k f, k < n ∧ result = .error f ∧
        told = (List.range' place k).map (fun i => .told i e none)
          ++ [.told (place + k) e (some f)] := by
  induction h with
  | past => exact Or.inl ⟨rfl, rfl⟩
  | refused => exact Or.inr ⟨0, _, Nat.succ_pos _, rfl, rfl⟩
  | on _ ih =>
      rcases ih with ⟨rfl, rfl⟩ | ⟨k, f, hk, rfl, rfl⟩
      · exact Or.inl ⟨rfl, by rw [List.range'_succ, List.map_cons]⟩
      · refine Or.inr ⟨k + 1, f, Nat.succ_lt_succ hk, rfl, ?_⟩
        rw [List.range'_succ, List.map_cons, List.cons_append, Nat.add_right_comm, Nat.add_assoc]

/-- Where the first is at the first place, that is a round. -/
theorem Goes.round {e : Event} {n : Nat} {result : Except Fault Unit} {told : List Moment}
    (h : Goes e 0 n result told) : Round n e told := by
  rcases h.shape with ⟨-, rfl⟩ | ⟨k, f, hk, -, rfl⟩
  · rw [← List.range_eq_range']
    exact .all
  · rw [← List.range_eq_range', Nat.zero_add]
    exact .refused hk

/-- Events go round, one after the other, between calls and returns of engines. -/
inductive Rounds (n : Nat) : List Moment → Prop where
  | nil : Rounds n []
  | round {e : Event} {ms rest : List Moment} (h : Round n e ms) (hrest : Rounds n rest) :
      Rounds n (ms ++ rest)
  | other {m : Moment} {rest : List Moment} (h : m.isTold = false) (hrest : Rounds n rest) :
      Rounds n (m :: rest)

theorem Rounds.append {n : Nat} {a b : List Moment} (ha : Rounds n a) (hb : Rounds n b) :
    Rounds n (a ++ b) := by
  induction ha with
  | nil => exact hb
  | round h _ ih =>
      rw [List.append_assoc]
      exact .round h ih
  | other h _ ih => exact .other h ih

namespace Recording

variable {κ ω ρ α β : Type} {n : Nat}

/-- Whatever a recording adds to the chronicle is rounds, however it ends. -/
def GoesRound (n : Nat) (c : Recording κ ω ρ α) : Prop :=
  ∀ w ms, ∃ new, (c.on (w, ms)).2.2 = ms ++ new ∧ Rounds n new

/-- Steps that write nothing down. -/
theorem goesRound_of_quiet {c : Recording κ ω ρ α} (h : ∀ w ms, (c.on (w, ms)).2.2 = ms) :
    GoesRound n c :=
  fun w ms => ⟨[], by rw [h, List.append_nil], .nil⟩

theorem goesRound_first (r : Run κ ω ρ α) : GoesRound n (r.first : Recording κ ω ρ α) :=
  goesRound_of_quiet fun _ _ => rfl

theorem goesRound_note {m : Moment} (h : m.isTold = false) :
    GoesRound n (note m : Recording κ ω ρ Unit) :=
  fun _ _ => ⟨[m], rfl, .other h .nil⟩

theorem GoesRound.bind {c : Recording κ ω ρ α} {next : α → Recording κ ω ρ β}
    (hc : GoesRound n c) (hn : ∀ a, GoesRound n (next a)) : GoesRound n (c >>= next) := by
  intro w ms
  obtain ⟨new, hnew, hrounds⟩ := hc w ms
  rcases hon : c.on (w, ms) with ⟨result, w', ms'⟩
  rw [hon] at hnew
  subst hnew
  cases result with
  | error f =>
      rw [Steps.on_bind_error hon]
      exact ⟨new, rfl, hrounds⟩
  | ok a =>
      obtain ⟨new', hnew', hrounds'⟩ := hn a w' (ms ++ new)
      rw [Steps.on_bind_ok hon, hnew', List.append_assoc]
      exact ⟨new ++ new', rfl, hrounds.append hrounds'⟩

theorem GoesRound.outcome {c : Recording κ ω ρ α} (h : GoesRound n c) :
    GoesRound n (Steps.outcome c) := h

theorem goesRound_forM {c : α → Recording κ ω ρ Unit} (h : ∀ a, GoesRound n (c a))
    (as : List α) : GoesRound n (as.forM c) := by
  induction as with
  | nil => exact goesRound_of_quiet fun _ _ => rfl
  | cons a as ih => exact (h a).bind fun _ => ih

/-- From a place on, the listeners are told one after the other. -/
theorem tellFrom_goes (e : Event) (ls : List (Listener ω)) (place : Nat) (w : World κ ω ρ)
    (ms : List Moment) :
    ∃ result w' told, (tellFrom e place ls : Recording κ ω ρ Unit).on (w, ms)
      = (result, w', ms ++ told) ∧ Goes e place ls.length result told := by
  induction ls generalizing place w ms with
  | nil => exact ⟨_, w, [], by rw [List.append_nil]; rfl, .past⟩
  | cons l ls ih =>
      rw [tellFrom_cons]
      rcases (Run.byListeners (l.receive e) : Run κ ω ρ Unit).on w with ⟨result, w'⟩
      cases result with
      | error f => exact ⟨_, w', _, rfl, .refused⟩
      | ok u =>
          obtain ⟨result, w'', told, hon, hgoes⟩ := ih (place + 1) w' (ms ++ [.told place e none])
          refine ⟨result, w'', .told place e none :: told, ?_, .on hgoes⟩
          rw [List.append_assoc] at hon
          exact hon

/-- **One event goes round.** -/
theorem goesRound_notify (ls : List (Listener ω)) (e : Event) :
    GoesRound ls.length (notify ls e : Recording κ ω ρ Unit) := by
  intro w ms
  obtain ⟨result, w', told, hon, hgoes⟩ := tellFrom_goes e ls 0 w ms
  refine ⟨told, congrArg (·.2.2) hon, ?_⟩
  rw [← List.append_nil told]
  exact .round hgoes.round .nil

theorem goesRound_relay (ls : List (Listener ω)) (plan : TestPlan) (e : NodeEvent NodeRef) :
    GoesRound ls.length (relay ls plan e : Recording κ ω ρ Unit) := by
  intro w ms
  have hget : (get : Recording κ ω ρ _).on (w, ms) = (.ok (w, ms), (w, ms)) := rfl
  rw [relay, Steps.on_bind_ok hget]
  dsimp only
  cases plan.identify? w.forest e with
  | none => exact ⟨[], (List.append_nil ms).symm, .nil⟩
  | some e => exact goesRound_notify ls (.about e) w ms

/-- Whatever an engine does, what it reports goes round. -/
theorem goesRound_perform (ls : List (Listener ω)) (plan : TestPlan) (activity : Activity κ α) :
    GoesRound ls.length (perform ls plan activity : Recording κ ω ρ α) := by
  induction activity with
  | done a => exact goesRound_of_quiet fun _ _ => rfl
  | fail f => exact goesRound_of_quiet fun _ _ => rfl
  | report e next ih =>
      rw [perform, Activity.perform]
      refine (goesRound_relay ls plan e).outcome.bind ?_
      intro answer
      cases answer with
      | ok u => exact ih none
      | error f => exact ih (some f)
  | look next ih => exact fun w ms => ih (Run.engineView w) w ms
  | keep s next ih => exact fun w ms => ih (Run.afterEngine s w) ms

theorem goesRound_executeEngine (ls : List (Listener ω)) (plan : TestPlan)
    (parameters : Parameters) (engine : Engine κ) (root : NodeRef) :
    GoesRound ls.length (executeEngine ls plan parameters engine root : Recording κ ω ρ Unit) := by
  refine (goesRound_first _).bind fun _ => ?_
  refine (goesRound_note rfl).bind fun _ => ?_
  refine (goesRound_perform ls plan _).outcome.bind fun result => ?_
  refine (goesRound_note rfl).bind fun _ => ?_
  exact (goesRound_first _).bind fun _ => goesRound_of_quiet fun _ _ => rfl

theorem goesRound_executeResolution (ls : List (Listener ω)) (plan : TestPlan)
    (parameters : Parameters) (r : Resolution κ) :
    GoesRound ls.length (executeResolution ls plan parameters r : Recording κ ω ρ Unit) := by
  have hengines := goesRound_forM (fun e : Engine κ × NodeRef =>
    goesRound_executeEngine (ρ := ρ) ls plan parameters e.1 e.2) r.roots
  rw [executeResolution]
  cases r.suiteIdentifier? with
  | none => exact hengines.bind fun _ => goesRound_of_quiet fun _ _ => rfl
  | some suite =>
      exact (goesRound_notify ls _).bind fun _ => hengines.bind fun _ => goesRound_notify ls _

theorem goesRound_dispatch (ls : List (Listener ω)) (parameters : Parameters)
    (rs : List (Resolution κ)) :
    GoesRound ls.length (dispatch ls parameters rs : Recording κ ω ρ Unit) := by
  refine (goesRound_first _).bind fun plan => ?_
  refine (goesRound_notify ls _).bind fun _ => ?_
  refine (goesRound_forM (goesRound_executeResolution ls plan parameters) rs).bind fun _ => ?_
  exact goesRound_notify ls _

end Recording

/-- Listeners that are registered come after those there were, and none of them is absent. -/
theorem Listener.eq_of_register {ω : Type} {listeners ls : List (Listener ω)}
    {more : List (Option (Listener ω))} (h : register listeners more = .ok ls) :
    ls = listeners ++ more.filterMap id := by
  obtain ⟨vs, hvs, h⟩ := bind_eq_ok h
  cases h
  rw [Require.allPresent_eq_ok_iff.mp hvs, List.filterMap_map, Function.id_comp,
    List.filterMap_some]

/-- **Every event goes round the registered listeners and then those of the call**, in order. -/
theorem Launcher.rounds_chronicle {κ ω ρ : Type} (l : Launcher κ ω ρ)
    (request : Option DiscoveryRequest) (more : List (Option (Listener ω))) (w : World κ ω ρ) :
    Rounds (l.listeners ++ more.filterMap id).length (l.chronicle request more w) := by
  have hrecorded : Recording.GoesRound (l.listeners ++ more.filterMap id).length
      (l.recorded request more) := by
    refine (Recording.goesRound_first (Steps.ofExcept (required request))).bind ?_
    intro request
    cases hls : Listener.register l.listeners more with
    | error f =>
        rw [Steps.ofExcept_error_bind]
        exact Recording.goesRound_of_quiet fun _ _ => rfl
    | ok ls =>
        rw [Steps.ofExcept_ok_bind, ← Listener.eq_of_register hls]
        exact (Recording.goesRound_first _).bind fun rs =>
          Recording.goesRound_dispatch ls request.parameters rs
  obtain ⟨new, hnew, hrounds⟩ := hrecorded w []
  rw [chronicle, hnew]
  exact hrounds

end TestLauncher
