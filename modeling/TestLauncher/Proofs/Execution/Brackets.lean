import TestLauncher.Proofs.Discovery.Requests
import TestLauncher.Proofs.Engine.Catalogue
import TestLauncher.Proofs.Execution.Overhearing

/-! # What an execution comes to when no listener fails

    A score is what listeners hear and which engines are called.  It is read off the engines
    alone: an engine plays what it reports from the forest and the state it finds, and its
    fault, if it ends with one, ends its own part; parts follow each other, between the
    start and the end of the suites and of the plan, up to the first that ends with a fault
    the failure boundary lets through.  With listeners that do not fail an execution comes
    to its score (`calm_execution`). -/

namespace TestLauncher

/-- A listener that never fails. -/
def Listener.Calm {ω : Type} (l : Listener ω) : Prop :=
  ∀ e s, ∃ s', (l.receive e).on s = (.ok (), s')

/-- What an activity reports, how it ends, and what it leaves, when no listener fails. -/
def Activity.play {κ α : Type} (plan : TestPlan) :
    Activity κ α → Forest × κ → List (NodeEvent Identifier) × Except Fault α × (Forest × κ)
  | .done a, s => ([], .ok a, s)
  | .fail f, s => ([], .error f, s)
  | .report e next, s =>
    let (events, result, t) := (next none).play plan s
    ((plan.identify? s.1 e).toList ++ events, result, t)
  | .look next, s => (next s).play plan s
  | .keep t next, _ => next.play plan t

/-- A report is one event if the plan has the node, and none otherwise. -/
theorem Activity.play_tell {κ : Type} (plan : TestPlan) (e : NodeEvent NodeRef)
    (s : Forest × κ) : (tell e).play plan s = ((plan.identify? s.1 e).toList, .ok (), s) := by
  show ((plan.identify? s.1 e).toList ++ [], _, _) = _
  rw [List.append_nil]

/-- One activity after another that succeeds. -/
theorem Activity.play_andThen {κ α β : Type} {plan : TestPlan} {a : Activity κ α}
    {k : α → Activity κ β} {s t : Forest × κ} {x : α} {es es' : List (NodeEvent Identifier)}
    {o : Except Fault β × (Forest × κ)} (h : a.play plan s = (es, .ok x, t))
    (hk : (k x).play plan t = (es', o)) : (a >>= k).play plan s = (es ++ es', o) := by
  induction a generalizing s es with
  | done a =>
      cases h
      exact hk
  | fail f => cases h
  | report e next ih =>
      rcases hnext : (next none).play plan s with ⟨fs, result, u⟩
      rw [play, hnext] at h
      cases h
      show ((plan.identify? s.1 e).toList ++ ((next none >>= k).play plan s).1,
        ((next none >>= k).play plan s).2) = _
      rw [ih none hnext, List.append_assoc]
  | look next ih => exact ih s h
  | keep u next ih => exact ih h

/-- What is called, what listeners are told, and the fault it ends with. -/
structure Score where
  calls : List (String × NodeRef) := []
  events : List Event := []
  escape? : Option Fault := none

/-- The end of a part with the given score. -/
def Score.outcome (score : Score) : Except Fault Unit :=
  match score.escape? with
  | none => .ok ()
  | some f => .error f

/-- A part of an execution: its score, and the forest and the state it leaves. -/
abbrev Part (κ : Type) := Forest × κ → Score × (Forest × κ)

namespace Part

variable {κ : Type}

/-- Nothing happens. -/
def nothing : Part κ := fun s => ({}, s)

/-- Listeners are told of an event. -/
def event (e : Event) : Part κ := fun s => ({ events := [e] }, s)

/-- One part after the other, unless the first ends with a fault. -/
def andThen (a b : Part κ) : Part κ := fun s =>
  let (x, t) := a s
  match x.escape? with
  | some _ => (x, t)
  | none =>
    let (y, u) := b t
    ({ calls := x.calls ++ y.calls, events := x.events ++ y.events, escape? := y.escape? }, u)

/-- Parts one after the other. -/
def row : List (Part κ) → Part κ
  | [] => nothing
  | a :: as => a.andThen (row as)

/-- An engine executes the tree below a root. -/
def ofEngine (plan : TestPlan) (parameters : Parameters) (e : Engine κ × NodeRef) : Part κ :=
  fun s =>
    let (events, result, t) := (e.1.execute e.2 parameters).play plan s
    ({ calls := [(e.1.id, e.2)]
       events := events.map .about
       escape? := (Except.fault? result).filter Fault.escapes }, t)

/-- The engines of a resolution execute their trees, between the start and the end of the suite
    if there is one. -/
def ofResolution (plan : TestPlan) (parameters : Parameters) (r : Resolution κ) : Part κ :=
  let engines := row (r.roots.map (ofEngine plan parameters))
  match r.suiteIdentifier? with
  | none => engines
  | some suite =>
    (event (.about (.started suite))).andThen
      (engines.andThen (event (.about (.finished suite .successful))))

/-- A plan is executed. -/
def ofPlan (plan : TestPlan) (parameters : Parameters) (rs : List (Resolution κ)) : Part κ :=
  (event (.planStarted plan)).andThen
    ((row (rs.map (ofResolution plan parameters))).andThen (event (.planFinished plan)))

end Part

/-- The events the listener at a place is told of. -/
def received (place : Nat) (ms : List Moment) : List Event :=
  ms.filterMap fun
    | .told i e _ => if i = place then some e else none
    | _ => none

/-- The calls of engines. -/
def calls (ms : List Moment) : List (String × NodeRef) :=
  ms.filterMap fun
    | .called engineId root => some (engineId, root)
    | _ => none

theorem received_told (place i : Nat) (e : Event) (fault? : Option Fault) (ms : List Moment) :
    received place (.told i e fault? :: ms)
      = if i = place then e :: received place ms else received place ms := by
  rw [received, List.filterMap_cons]
  by_cases h : i = place
  · simp only [if_pos h]
    rfl
  · simp only [if_neg h]
    rfl

/-- A listener hears what it hears of the first moments, and then of the others. -/
theorem received_append (place : Nat) (a b : List Moment) :
    received place (a ++ b) = received place a ++ received place b :=
  List.filterMap_append ..

/-- The calls of moments one after the other are the calls of both. -/
theorem calls_append (a b : List Moment) : calls (a ++ b) = calls a ++ calls b :=
  List.filterMap_append ..

/-- Each of so many listeners hears the given events, and the given engines are called. -/
structure Hears (n : Nat) (ms : List Moment) (events : List Event)
    (called : List (String × NodeRef)) : Prop where
  received : ∀ i, i < n → received i ms = events
  calls : calls ms = called

theorem hears_nil (n : Nat) : Hears n [] [] [] := ⟨fun _ _ => rfl, rfl⟩

/-- What is heard of two stretches is heard of the whole. -/
theorem Hears.append {n : Nat} {a b : List Moment} {es es' : List Event}
    {cs cs' : List (String × NodeRef)} (ha : Hears n a es cs) (hb : Hears n b es' cs') :
    Hears n (a ++ b) (es ++ es') (cs ++ cs') := by
  refine ⟨?_, ?_⟩
  · intro i hi
    rw [received_append, ha.received i hi, hb.received i hi]
  · rw [calls_append, ha.calls, hb.calls]

/-! ## The calls of a part -/

namespace Part

variable {κ : Type}

/-- A part calls the given engines in order, up to one with whose fault it ends. -/
def Calls (a : Part κ) (all : List (String × NodeRef)) : Prop :=
  ∀ s, (a s).1.calls <+: all ∧ ((a s).1.escape? = none → (a s).1.calls = all)

theorem calls_nothing : Calls (nothing : Part κ) [] := fun _ => ⟨List.nil_prefix, fun _ => rfl⟩

/-- Telling listeners calls no engine. -/
theorem calls_event (e : Event) : Calls (event e : Part κ) [] :=
  fun _ => ⟨List.nil_prefix, fun _ => rfl⟩

/-- Executing a tree calls its engine once. -/
theorem calls_ofEngine (plan : TestPlan) (parameters : Parameters) (e : Engine κ × NodeRef) :
    Calls (ofEngine plan parameters e) [(e.1.id, e.2)] :=
  fun _ => ⟨List.prefix_rfl, fun _ => rfl⟩

/-- The second part's calls follow the first part's. -/
theorem Calls.andThen {a b : Part κ} {as bs : List (String × NodeRef)} (ha : Calls a as)
    (hb : Calls b bs) : Calls (a.andThen b) (as ++ bs) := by
  intro s
  obtain ⟨hpre, heq⟩ := ha s
  rw [Part.andThen]
  rcases hs : a s with ⟨x, t⟩
  rw [hs] at hpre heq
  cases hx : x.escape? with
  | some f =>
      simp only [hx]
      exact ⟨hpre.trans (List.prefix_append as bs), fun h => by cases h⟩
  | none =>
      have hxs : x.calls = as := heq hx
      obtain ⟨hpre', heq'⟩ := hb t
      simp only [hx, hxs]
      exact ⟨(List.prefix_append_right_inj as).mpr hpre', fun h => by rw [heq' h]⟩

/-- A row of parts makes the calls of its parts in order. -/
theorem calls_row {α : Type} {part : α → Part κ} {called : α → List (String × NodeRef)}
    (h : ∀ a, Calls (part a) (called a)) (as : List α) :
    Calls (row (as.map part)) (as.flatMap called) := by
  induction as with
  | nil => exact calls_nothing
  | cons a as ih => exact (h a).andThen ih

/-- The pairs of engine and root a resolution has recorded. -/
def recordedCalls (r : Resolution κ) : List (String × NodeRef) :=
  r.roots.map fun e => (e.1.id, e.2)

/-- A resolution's engines are called in the order they were recorded in. -/
theorem calls_ofResolution (plan : TestPlan) (parameters : Parameters) (r : Resolution κ) :
    Calls (ofResolution plan parameters r) (recordedCalls r) := by
  have hengines := calls_row (calls_ofEngine plan parameters) r.roots
  have hcalls : (r.roots.flatMap fun e => [(e.1.id, e.2)]) = recordedCalls r :=
    List.map_eq_flatMap.symm
  rw [hcalls] at hengines
  rw [ofResolution]
  cases r.suiteIdentifier? with
  | none => exact hengines
  | some suite =>
      have hall := (calls_event (.about (.started suite))).andThen
        (hengines.andThen (calls_event (.about (.finished suite .successful))))
      rw [List.nil_append, List.append_nil] at hall
      exact hall

/-- The engines of a plan are called in the order of its resolutions. -/
theorem calls_ofPlan (plan : TestPlan) (parameters : Parameters) (rs : List (Resolution κ)) :
    Calls (ofPlan plan parameters rs) (rs.flatMap recordedCalls) := by
  have hall := (calls_event (.planStarted plan)).andThen
    ((calls_row (calls_ofResolution plan parameters) rs).andThen
      (calls_event (.planFinished plan)))
  rw [List.nil_append, List.append_nil] at hall
  exact hall

end Part

/-! ## Calm listeners -/

section

variable {κ ω ρ α : Type} {ls : List (Listener ω)}

open Recording

/-- A calm listener takes an event without a trace in what engines see. -/
theorem byListeners_calm {l : Listener ω} (hl : l.Calm) (e : Event) (w : World κ ω ρ) :
    ∃ w', (Run.byListeners (l.receive e)).on w = (.ok (), w') ∧
      Run.engineView w' = Run.engineView w := by
  obtain ⟨s, hs⟩ := hl e (w.journal, w.listeners)
  refine ⟨{ w with journal := s.1, listeners := s.2 }, ?_, rfl⟩
  rw [Run.byListeners, Steps.on_within, hs]

/-- Listeners that do not fail are told of an event one after the other; the engines do not see
    any of it. -/
theorem tellFrom_calm (hcalm : ∀ l ∈ ls, l.Calm) (e : Event) (place : Nat) (w : World κ ω ρ)
    (ms : List Moment) :
    ∃ w' new, (tellFrom e place ls).on (w, ms) = (.ok (), w', ms ++ new) ∧
      Run.engineView w' = Run.engineView w ∧ calls new = [] ∧
      ∀ i, received i new = if place ≤ i ∧ i < place + ls.length then [e] else [] := by
  induction ls generalizing place w ms with
  | nil =>
      refine ⟨w, [], by rw [List.append_nil]; rfl, rfl, rfl, ?_⟩
      intro i
      rw [if_neg (by simp)]
      rfl
  | cons l ls ih =>
      obtain ⟨w₁, hw₁, hsame⟩ := byListeners_calm (hcalm l (by simp)) e w
      obtain ⟨w₂, new, hnew, hsame', hcalls, hrec⟩ :=
        ih (fun x hx => hcalm x (by simp [hx])) (place + 1) w₁ (ms ++ [.told place e none])
      refine ⟨w₂, .told place e none :: new, ?_, hsame'.trans hsame, hcalls, ?_⟩
      · rw [tellFrom_cons, hw₁]
        show (tellFrom e (place + 1) ls).on (w₁, ms ++ [.told place e none]) = _
        rw [hnew, List.append_assoc, List.singleton_append]
      · intro i
        have hi := hrec i
        rw [List.length_cons]
        by_cases hp : place = i
        · subst hp
          rw [if_neg (by omega)] at hi
          rw [if_pos (by omega)]
          rw [received_told, if_pos rfl, hi]
        · rw [received_told, if_neg hp, hi]
          by_cases hin : place + 1 ≤ i ∧ i < place + 1 + ls.length
          · rw [if_pos hin, if_pos (by omega)]
          · rw [if_neg hin, if_neg (by omega)]

/-- Every calm listener is told of an event once. -/
theorem notify_calm (hcalm : ∀ l ∈ ls, l.Calm) (e : Event) (w : World κ ω ρ) (ms : List Moment) :
    ∃ w' new, (notify ls e).on (w, ms) = (.ok (), w', ms ++ new) ∧
      Run.engineView w' = Run.engineView w ∧ Hears ls.length new [e] [] := by
  obtain ⟨w', new, hnew, hsame, hcalls, hrec⟩ := tellFrom_calm hcalm e 0 w ms
  refine ⟨w', new, hnew, hsame, ?_, hcalls⟩
  intro i hi
  rw [hrec i, if_pos (by omega)]

/-- Every calm listener is told of a node's event if the plan has the node. -/
theorem relay_calm (hcalm : ∀ l ∈ ls, l.Calm) (plan : TestPlan) (e : NodeEvent NodeRef)
    (w : World κ ω ρ) (ms : List Moment) :
    ∃ w' new, (relay ls plan e).on (w, ms) = (.ok (), w', ms ++ new) ∧
      Run.engineView w' = Run.engineView w ∧
      Hears ls.length new ((plan.identify? w.forest e).toList.map .about) [] := by
  rw [relay, Steps.on_bind_ok (Steps.on_get (w, ms))]
  dsimp only
  cases plan.identify? w.forest e with
  | none => exact ⟨w, [], by rw [List.append_nil]; rfl, rfl, hears_nil _⟩
  | some e => exact notify_calm hcalm (.about e) w ms

/-- What an engine does comes to what it plays. -/
theorem perform_calm (hcalm : ∀ l ∈ ls, l.Calm) (plan : TestPlan) (activity : Activity κ α)
    (w : World κ ω ρ) (ms : List Moment) :
    let played := activity.play plan (Run.engineView w)
    ∃ w' new, (perform ls plan activity).on (w, ms) = (played.2.1, w', ms ++ new) ∧
      Run.engineView w' = played.2.2 ∧ Hears ls.length new (played.1.map .about) [] := by
  induction activity generalizing w ms with
  | done a => exact ⟨w, [], by rw [List.append_nil]; rfl, rfl, hears_nil _⟩
  | fail f => exact ⟨w, [], by rw [List.append_nil]; rfl, rfl, hears_nil _⟩
  | report e next ih =>
      obtain ⟨w₁, new, hnew, hsame, hhears⟩ := relay_calm hcalm plan e w ms
      obtain ⟨w₂, new', hnew', hstate, hhears'⟩ := ih none w₁ (ms ++ new)
      rw [hsame] at hnew' hstate hhears'
      refine ⟨w₂, new ++ new', ?_, hstate, ?_⟩
      · rw [perform, Activity.perform, Steps.on_bind_ok (Steps.on_outcome ..), hnew]
        show (perform ls plan (next none)).on (w₁, ms ++ new) = _
        rw [hnew', List.append_assoc]
        rfl
      · have happ := hhears.append hhears'
        rw [← List.map_append] at happ
        exact happ
  | look next ih => exact ih (Run.engineView w) w ms
  | keep s next ih => exact ih (Run.afterEngine s w) ms

/-! ## Executions -/

/-- A plan is put together from all recorded roots, and nothing else happens. -/
theorem on_assemble (rs : List (Resolution κ)) (w : World κ ω ρ) :
    (Resolution.assemble rs : Run κ ω ρ TestPlan).on w
      = (TestPlan.ofRoots w.forest (Resolution.allRoots rs), w) := by
  rw [Resolution.assemble, Steps.on_bind_ok (Steps.on_get w), Steps.on_ofExcept]

/-- With listeners that do not fail a recording comes to a part of an execution: it ends with the
    part's score, and unless it breaks off there it leaves what the part leaves. -/
def Comes (ls : List (Listener ω)) (c : Recording κ ω ρ Unit) (part : Part κ) : Prop :=
  ∀ w ms, ∃ w' new, c.on (w, ms) = ((part (Run.engineView w)).1.outcome, w', ms ++ new) ∧
    Run.engineView w' = (part (Run.engineView w)).2 ∧
    Hears ls.length new (part (Run.engineView w)).1.events (part (Run.engineView w)).1.calls

/-- Doing nothing comes to nothing. -/
theorem comes_nothing : Comes ls (pure () : Recording κ ω ρ Unit) Part.nothing :=
  fun w ms => ⟨w, [], by rw [List.append_nil]; rfl, rfl, hears_nil _⟩

/-- Telling calm listeners comes to one event. -/
theorem comes_event (hcalm : ∀ l ∈ ls, l.Calm) (e : Event) :
    Comes ls (notify ls e : Recording κ ω ρ Unit) (Part.event e) :=
  fun w ms => notify_calm hcalm e w ms

/-- Recordings in a row come to parts in a row. -/
theorem Comes.andThen {c d : Recording κ ω ρ Unit} {a b : Part κ} (hc : Comes ls c a)
    (hd : Comes ls d b) : Comes ls (c >>= fun _ => d) (a.andThen b) := by
  intro w ms
  obtain ⟨w₁, new, hnew, hstate, hhears⟩ := hc w ms
  rw [Part.andThen]
  rcases ha : a (Run.engineView w) with ⟨x, t⟩
  rw [ha] at hnew hstate hhears
  cases hx : x.escape? with
  | some f =>
      rw [Score.outcome, hx] at hnew
      refine ⟨w₁, new, ?_, ?_, ?_⟩
      · simp only [hx, Score.outcome]
        exact Steps.on_bind_error hnew _
      · simp only [hx]
        exact hstate
      · simp only [hx]
        exact hhears
  | none =>
      rw [Score.outcome, hx] at hnew
      obtain ⟨w₂, new', hnew', hstate', hhears'⟩ := hd w₁ (ms ++ new)
      rw [hstate] at hnew' hstate' hhears'
      refine ⟨w₂, new ++ new', ?_, ?_, ?_⟩
      · rw [Steps.on_bind_ok hnew, hnew', List.append_assoc]
        simp only [hx]
        rfl
      · simp only [hx]
        exact hstate'
      · simp only [hx]
        exact hhears.append hhears'

/-- Recordings one after the other come to the row of their parts. -/
theorem comes_row {c : α → Recording κ ω ρ Unit} {part : α → Part κ}
    (h : ∀ a, Comes ls (c a) (part a)) (as : List α) :
    Comes ls (as.forM c) (Part.row (as.map part)) := by
  induction as with
  | nil => exact comes_nothing
  | cons a as ih => exact (h a).andThen ih

/-- An engine's part ends with the fault the boundary lets through, if it ends with one. -/
theorem outcome_of_result (cs : List (String × NodeRef)) (es : List Event)
    (result : Except Fault Unit) :
    Score.outcome ⟨cs, es, (Except.fault? result).filter Fault.escapes⟩
      = (Resolution.held result).map fun _ => () := by
  cases result with
  | ok u => rfl
  | error f =>
      show Score.outcome ⟨cs, es, if f.escapes = true then some f else none⟩ = _
      rw [Resolution.held]
      by_cases hf : f.escapes = true
      · rw [if_pos hf, if_pos hf]
        rfl
      · rw [if_neg hf, if_neg hf]
        rfl

/-- Executing a tree comes to the part that the engine plays. -/
theorem comes_executeEngine (hcalm : ∀ l ∈ ls, l.Calm) (plan : TestPlan)
    (parameters : Parameters) (e : Engine κ × NodeRef) :
    Comes ls (executeEngine (ρ := ρ) ls plan parameters e.1 e.2)
      (Part.ofEngine plan parameters e) := by
  intro w ms
  obtain ⟨w₁, new, hnew, hstate, hhears⟩ := perform_calm (ρ := ρ) hcalm plan
    (e.1.execute e.2 parameters) (announced e.1 w) (ms ++ [.called e.1.id e.2])
  have hsame : Run.engineView (announced e.1 w) = Run.engineView w := rfl
  rw [hsame] at hnew hstate hhears
  rw [Part.ofEngine]
  rcases hplay : (e.1.execute e.2 parameters).play plan (Run.engineView w) with ⟨events, result, t⟩
  rw [hplay] at hnew hstate hhears
  obtain ⟨j, hj⟩ := Resolution.guarded_snd e.1 "execute" result w₁
  refine ⟨{ w₁ with journal := j },
    .called e.1.id e.2 :: (new ++ [.returned (Except.fault? result)]), ?_, hstate, ?_⟩
  · rw [on_executeEngine hnew, outcome_of_result, hj, List.append_assoc, List.append_assoc]
    rfl
  · have hcalled : Hears ls.length [.called e.1.id e.2] [] [(e.1.id, e.2)] :=
      ⟨fun _ _ => rfl, rfl⟩
    have hreturned : Hears ls.length [.returned (Except.fault? result)] [] [] :=
      ⟨fun _ _ => rfl, rfl⟩
    have happ := hcalled.append (hhears.append hreturned)
    rw [List.append_nil] at happ
    exact happ

/-- Executing a resolution comes to the parts of its engines, between the suite's brackets. -/
theorem comes_executeResolution (hcalm : ∀ l ∈ ls, l.Calm) (plan : TestPlan)
    (parameters : Parameters) (r : Resolution κ) :
    Comes ls (executeResolution (ρ := ρ) ls plan parameters r)
      (Part.ofResolution plan parameters r) := by
  have hengines := comes_row (comes_executeEngine (ρ := ρ) hcalm plan parameters) r.roots
  rw [executeResolution, Part.ofResolution]
  cases r.suiteIdentifier? with
  | none =>
      show Comes ls ((r.roots.forM fun e => executeEngine ls plan parameters e.1 e.2) >>=
        fun _ => pure ()) _
      rw [bind_pure_unit]
      exact hengines
  | some suite =>
      exact (comes_event hcalm _).andThen (hengines.andThen (comes_event hcalm _))

/-- Executing what a plan was built from comes to the part of the plan. -/
theorem comes_dispatch (hcalm : ∀ l ∈ ls, l.Calm) (parameters : Parameters)
    (rs : List (Resolution κ)) {w : World κ ω ρ} {plan : TestPlan}
    (hplan : TestPlan.ofRoots w.forest (Resolution.allRoots rs) = .ok plan) (ms : List Moment) :
    ∃ w' new, (dispatch ls parameters rs).on (w, ms)
        = ((Part.ofPlan plan parameters rs (Run.engineView w)).1.outcome, w', ms ++ new) ∧
      Hears ls.length new (Part.ofPlan plan parameters rs (Run.engineView w)).1.events
        (Part.ofPlan plan parameters rs (Run.engineView w)).1.calls := by
  -- the start, the resolutions in a row, the end
  have hall : Comes (ρ := ρ) ls
      (notify ls (.planStarted plan) >>= fun _ =>
        rs.forM (executeResolution ls plan parameters) >>= fun _ =>
          notify ls (.planFinished plan)) (Part.ofPlan plan parameters rs) :=
    (comes_event hcalm _).andThen
      ((comes_row (comes_executeResolution hcalm plan parameters) rs).andThen
        (comes_event hcalm _))
  obtain ⟨w', new, hnew, -, hhears⟩ := hall w ms
  refine ⟨w', new, ?_, hhears⟩
  rw [dispatch, Steps.on_bind, Steps.on_first, on_assemble, hplan]
  exact hnew

end

/-- Listeners that are given are all registered, in their order. -/
theorem Listener.register_some {ω : Type} (ls more : List (Listener ω)) :
    Listener.register ls (more.map some) = .ok (ls ++ more) := by
  rw [Listener.register, Require.allPresent_map_some]
  rfl

namespace Launcher

variable {κ ω ρ : Type}

/-- Once the request and the listeners are there, they are resolved and dispatched. -/
theorem on_recorded_some (l : Launcher κ ω ρ) (request : DiscoveryRequest)
    (more : List (Listener ω)) (s : World κ ω ρ × List Moment) :
    (l.recorded (some request) (more.map some)).on s
      = ((l.resolve .execution request).first >>= fun rs =>
          Recording.dispatch (l.listeners ++ more) request.parameters rs).on s := by
  have hrequired : (Steps.ofExcept (required (some request)) : Recording κ ω ρ _).on s
      = (.ok request, s) := rfl
  have hregister : (Steps.ofExcept (Listener.register l.listeners (more.map some)) :
      Recording κ ω ρ _).on s = (.ok (l.listeners ++ more), s) := by
    rw [Steps.on_ofExcept, Listener.register_some]
  rw [recorded, Steps.on_bind_ok hrequired, Steps.on_bind_ok hregister]

/-- With listeners that do not fail an execution comes to its score. -/
theorem comes_execution {l : Launcher κ ω ρ} {request : DiscoveryRequest}
    {more : List (Listener ω)} {w w' : World κ ω ρ} {rs : List (Resolution κ)} {plan : TestPlan}
    (hcalm : ∀ x ∈ l.listeners ++ more, x.Calm)
    (hrs : (l.resolve .execution request).on w = (.ok rs, w'))
    (hplan : TestPlan.ofRoots w'.forest (Resolution.allRoots rs) = .ok plan) :
    let score := (Part.ofPlan plan request.parameters rs (w'.forest, w'.engines)).1
    ((l.execute (some request) (more.map some)).on w).1 = score.outcome ∧
      Hears (l.listeners ++ more).length (l.chronicle (some request) (more.map some) w)
        score.events score.calls := by
  intro score
  obtain ⟨w'', new, hnew, hhears⟩ := comes_dispatch hcalm request.parameters rs hplan []
  have hrec : (l.recorded (some request) (more.map some)).on (w, [])
      = (score.outcome, w'', [] ++ new) := by
    have hfirst : ((l.resolve .execution request).first : Recording κ ω ρ _).on (w, [])
        = (.ok rs, w', []) := by
      rw [Steps.on_first, hrs]
    rw [on_recorded_some, Steps.on_bind_ok hfirst]
    exact hnew
  have htr : l.chronicle (some request) (more.map some) w = new := by
    rw [chronicle, hrec]
    rfl
  constructor
  · have h := l.on_recorded (some request) (more.map some) w
    rw [hrec] at h
    exact (congrArg Prod.fst h).symm
  · rw [htr]
    exact hhears

/-- **Executions with calm listeners.**  Engines are called in the order of the resolutions and of
    their registration, and every listener hears what they play between the start and the end of
    the plan and of each suite, up to the first fault that the failure boundary lets through.
    That is what the execution itself tells its listeners when they are watched. -/
theorem calm_execution (l : Launcher κ ω ρ) (request : DiscoveryRequest)
    (more : List (Listener ω)) (w w' : World κ ω ρ) (rs : List (Resolution κ)) (plan : TestPlan)
    (hcalm : ∀ x ∈ l.listeners ++ more, x.Calm)
    (hrs : (l.resolve .execution request).on w = (.ok rs, w'))
    (hplan : TestPlan.ofRoots w'.forest (Resolution.allRoots rs) = .ok plan) :
    let score := (Part.ofPlan plan request.parameters rs (w'.forest, w'.engines)).1
    let tr := l.chronicle (some request) (more.map some) w
    l.Witnessed (some request) (more.map some) w tr ∧
      ((l.execute (some request) (more.map some)).on w).1 = score.outcome ∧
      (∀ i, i < (l.listeners ++ more).length → received i tr = score.events) ∧
      calls tr = score.calls ∧ score.calls <+: rs.flatMap Part.recordedCalls ∧
      (score.escape? = none → score.calls = rs.flatMap Part.recordedCalls) ∧
      ∀ r ∈ rs, r.engines.Sublist l.engines := by
  intro score tr
  obtain ⟨hend, hhears⟩ := comes_execution hcalm hrs hplan
  obtain ⟨hpre, heq⟩ :=
    Part.calls_ofPlan plan request.parameters rs (w'.forest, w'.engines)
  exact ⟨l.witnessed_chronicle _ _ w, hend, hhears.received, hhears.calls, hpre, heq,
    fun r hr => engines_resolve_sublist hrs hr⟩

/-- An engine that fails with an exception, one that does not fail, and one that runs out of
    memory. -/
def breaking : Launcher Diaries Unit Unit where
  engines := [
    Catalogue.engine
      { Catalogue.sample with id := "F", failExecute? := some (.raised .runtime none) } 0,
    Catalogue.sample.engine 1,
    Catalogue.engine
      { Catalogue.sample with id := "G", failExecute? := some (.raised .memory none) } 2]
  resolver? := some SuiteTables.sample.resolver
  listeners := [.silent "L"]

/-- The first engine ends its own part only; with the last one the execution ends, before the suite
    and without the end of the plan. -/
theorem calm_execution_breaking :
    ∃ rs w' plan, (breaking.resolve .execution .sample).on .sample = (.ok rs, w') ∧
      TestPlan.ofRoots w'.forest (Resolution.allRoots rs) = .ok plan ∧
      let score := (Part.ofPlan plan ∅ rs (w'.forest, w'.engines)).1
      let tr := breaking.chronicle (some .sample) [] .sample
      breaking.Witnessed (some .sample) [] .sample tr ∧
        ((breaking.execute (some .sample) []).on .sample).1 = score.outcome ∧
        received 0 tr = score.events ∧ calls tr = score.calls ∧
        score.escape? = some (.raised .memory none) ∧
        score.calls.map Prod.fst = ["F", "E", "G"] ∧
        score.events.map Event.word = ["plan_started", "started", "started", "started",
          "finished", "finished", "finished"] := by
  have hscore : (match (breaking.resolve .execution .sample).on .sample with
      | (.ok rs, w') =>
        match TestPlan.ofRoots w'.forest (Resolution.allRoots rs) with
        | .ok plan =>
          let score := (Part.ofPlan plan ∅ rs (w'.forest, w'.engines)).1
          decide (score.escape? = some (.raised .memory none) ∧
            score.calls.map Prod.fst = ["F", "E", "G"] ∧
            score.events.map Event.word = ["plan_started", "started", "started", "started",
              "finished", "finished", "finished"])
        | .error _ => false
      | (.error _, _) => false) = true := by
    decide +kernel
  rcases hrs : (breaking.resolve .execution .sample).on .sample with ⟨result, w'⟩
  rw [hrs] at hscore
  cases result with
  | error e => cases hscore
  | ok rs =>
      cases hplan : TestPlan.ofRoots w'.forest (Resolution.allRoots rs) with
      | error e =>
          simp only [hplan] at hscore
          cases hscore
      | ok plan =>
          simp only [hplan] at hscore
          obtain ⟨hwitnessed, hend, hreceived, hcalls, -⟩ :=
            breaking.calm_execution .sample [] .sample w' rs plan
              (fun x hx e s => by
                rw [List.mem_singleton.mp hx]
                exact ⟨s, rfl⟩) hrs hplan
          exact ⟨rs, w', plan, rfl, hplan, hwitnessed, hend, hreceived 0 (by decide), hcalls,
            of_decide_eq_true hscore⟩

end Launcher

end TestLauncher
