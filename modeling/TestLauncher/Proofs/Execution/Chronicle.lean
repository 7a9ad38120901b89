import TestLauncher.Launcher
import TestLauncher.Proofs.Boundary

/-! # Chronicles of executions

    A chronicle lists what happens while a plan is executed: every time a listener is told
    of an event, with the fault it fails with if it does, and when an engine is called and
    how it ends.  A recording writes a chronicle beside the steps it takes; apart from that
    it takes the steps of the execution (`on_recorded`), so what is proved of chronicles is
    proved of executions.

    `Unfolds` is the grammar of chronicles.  A listener that fails outside of an engine ends
    the run there; inside an engine it is up to the engine what becomes of the fault, and up
    to the failure boundary what becomes of the engine. -/

namespace TestLauncher

/-- Something that happens during an execution. -/
inductive Moment where
  /-- The listener at a place is told of an event, and fails or does not. -/
  | told (place : Nat) (e : Event) (fault? : Option Fault)
  /-- An engine is called for a root. -/
  | called (engineId : String) (root : NodeRef)
  /-- The engine called last ends, with a fault or without. -/
  | returned (fault? : Option Fault)
deriving DecidableEq

/-- Whether a listener is told of something. -/
def Moment.isTold : Moment → Bool
  | told _ _ _ => true
  | _ => false

/-- Whether an engine comes back. -/
def Moment.isReturn : Moment → Bool
  | returned _ => true
  | _ => false

/-- Steps on the world that write a chronicle. -/
abbrev Recording (κ ω ρ : Type) := Steps (World κ ω ρ × List Moment)

namespace Recording

variable {κ ω ρ α : Type}

/-- Writes a moment down. -/
def note (m : Moment) : Recording κ ω ρ Unit := modify fun s => (s.1, s.2 ++ [m])

@[simp] theorem on_note (m : Moment) (w : World κ ω ρ) (ms : List Moment) :
    (note m).on (w, ms) = (.ok (), w, ms ++ [m]) := rfl

/-- Tells listeners of an event, the first of them at the given place. -/
def tellFrom (e : Event) : Nat → List (Listener ω) → Recording κ ω ρ Unit
  | _, [] => pure ()
  | place, l :: ls => do
    let result ← (Run.byListeners (l.receive e)).first.outcome
    note (.told place e (Except.fault? result))
    Steps.ofExcept result
    tellFrom e (place + 1) ls

/-- Tells listeners of an event. -/
def notify (listeners : List (Listener ω)) (e : Event) : Recording κ ω ρ Unit :=
  tellFrom e 0 listeners

/-- Tells listeners what an engine reports. -/
def relay (listeners : List (Listener ω)) (plan : TestPlan) (e : NodeEvent NodeRef) :
    Recording κ ω ρ Unit := do
  let f := (← get).1.forest
  match plan.identify? f e with
  | none => pure ()
  | some e => notify listeners (.about e)

/-- What an engine does, with its events delivered to listeners. -/
def perform (listeners : List (Listener ω)) (plan : TestPlan) (activity : Activity κ α) :
    Recording κ ω ρ α :=
  activity.perform (fun s => Run.engineView s.1) (fun t s => (Run.afterEngine t s.1, s.2))
    (relay listeners plan)

/-- Has an engine execute its tree. -/
def executeEngine (listeners : List (Listener ω)) (plan : TestPlan) (parameters : Parameters)
    (engine : Engine κ) (root : NodeRef) : Recording κ ω ρ Unit := do
  Steps.first <| Run.log <| LogLevel.debug.record "quiver.core.execution" <|
    "Executing tests in engine '" ++ engine.id ++ "'."
  note (.called engine.id root)
  let result ← (perform listeners plan (engine.execute root parameters)).outcome
  note (.returned (Except.fault? result))
  let _ ← Steps.first <| Resolution.guarded engine "execute" (Steps.ofExcept result)

/-- Has the engines of a resolution execute their trees, between the start and the end of the
    suite if there is one. -/
def executeResolution (listeners : List (Listener ω)) (plan : TestPlan) (parameters : Parameters)
    (r : Resolution κ) : Recording κ ω ρ Unit := do
  if let some suite := r.suiteIdentifier? then notify listeners (.about (.started suite))
  r.roots.forM fun e => executeEngine listeners plan parameters e.1 e.2
  if let some suite := r.suiteIdentifier? then
    notify listeners (.about (.finished suite .successful))

/-- Executes resolutions one after the other. -/
def dispatch (listeners : List (Listener ω)) (parameters : Parameters)
    (rs : List (Resolution κ)) : Recording κ ω ρ Unit := do
  let plan ← (Resolution.assemble rs).first
  notify listeners (.planStarted plan)
  rs.forM (executeResolution listeners plan parameters)
  notify listeners (.planFinished plan)

end Recording

namespace Launcher

variable {κ ω ρ : Type}

/-- Discovers and executes what a request is about, and writes the chronicle. -/
def recorded (l : Launcher κ ω ρ) (request : Option DiscoveryRequest)
    (more : List (Option (Listener ω))) : Recording κ ω ρ Unit := do
  let request ← Steps.ofExcept (required request)
  let listeners ← Steps.ofExcept (Listener.register l.listeners more)
  let rs ← (l.resolve .execution request).first
  Recording.dispatch listeners request.parameters rs

/-- The chronicle of an execution that starts in a world. -/
def chronicle (l : Launcher κ ω ρ) (request : Option DiscoveryRequest)
    (more : List (Option (Listener ω))) (w : World κ ω ρ) : List Moment :=
  ((l.recorded request more).on (w, [])).2.2

end Launcher

/-! ## The grammar of chronicles -/

/-- How the chronicle of an execution unfolds, and how the execution ends. -/
inductive Unfolds : List Moment → Except Fault Unit → Prop where
  | done : Unfolds [] (.ok ())
  /-- A listener takes an event in. -/
  | told {i : Nat} {e : Event} {rest : List Moment} {o : Except Fault Unit}
      (h : Unfolds rest o) : Unfolds (.told i e none :: rest) o
  /-- A listener fails while no engine is running. -/
  | refused {i : Nat} {e : Event} {f : Fault} : Unfolds [.told i e (some f)] (.error f)
  /-- An engine ends, perhaps with a fault that is contained. -/
  | contained {id : String} {root : NodeRef} {inner rest : List Moment}
      {fault? : Option Fault} {o : Except Fault Unit} (hi : ∀ m ∈ inner, m.isTold = true)
      (hr : ∀ f ∈ fault?, f.escapes = false) (h : Unfolds rest o) :
      Unfolds (.called id root :: (inner ++ .returned fault? :: rest)) o
  /-- An engine ends with a fault that is not contained. -/
  | escaped {id : String} {root : NodeRef} {inner : List Moment} {f : Fault}
      (hi : ∀ m ∈ inner, m.isTold = true) (hf : f.escapes = true) :
      Unfolds (.called id root :: (inner ++ [.returned (some f)])) (.error f)

/-- What goes on after a stretch without a fault unfolds as a whole. -/
theorem Unfolds.append {a b : List Moment} {o o' : Except Fault Unit} (ha : Unfolds a o)
    (ho : o = .ok ()) (hb : Unfolds b o') : Unfolds (a ++ b) o' := by
  induction ha with
  | done => exact hb
  | told _ ih => exact .told (ih ho)
  | refused => cases ho
  | contained hi hr _ ih =>
      rw [List.cons_append, List.append_assoc, List.cons_append]
      exact .contained hi hr (ih ho)
  | escaped => cases ho

namespace Recording

variable {κ ω ρ α β : Type}

/-- A recording takes the given steps, and what it adds to the chronicle has the given shape. -/
def Records (c : Recording κ ω ρ α) (r : Run κ ω ρ α)
    (shape : List Moment → Except Fault α → Prop) : Prop :=
  ∀ w ms, ∃ new, c.on (w, ms) = ((r.on w).1, (r.on w).2, ms ++ new) ∧ shape new (r.on w).1

/-- Steps that are only taken add nothing to the chronicle. -/
theorem records_first (r : Run κ ω ρ α) : Records r.first r fun new _ => new = [] := by
  intro w ms
  refine ⟨[], ?_, rfl⟩
  rw [Steps.on_first, List.append_nil]

/-- A recording of one shape has every wider shape. -/
theorem Records.mono {c : Recording κ ω ρ α} {r : Run κ ω ρ α}
    {shape shape' : List Moment → Except Fault α → Prop} (h : Records c r shape)
    (hs : ∀ new o, shape new o → shape' new o) : Records c r shape' := by
  intro w ms
  obtain ⟨new, hc, hn⟩ := h w ms
  exact ⟨new, hc, hs _ _ hn⟩

/-- Recordings in a row record steps in a row. -/
theorem Records.bind {c : Recording κ ω ρ α} {r : Run κ ω ρ α} {next : α → Recording κ ω ρ β}
    {next' : α → Run κ ω ρ β} {shape : List Moment → Except Fault α → Prop}
    {shape' : α → List Moment → Except Fault β → Prop}
    {whole : List Moment → Except Fault β → Prop} (hc : Records c r shape)
    (hn : ∀ a, Records (next a) (next' a) (shape' a))
    (herror : ∀ new f, shape new (.error f) → whole new (.error f))
    (hok : ∀ a new new' o, shape new (.ok a) → shape' a new' o → whole (new ++ new') o) :
    Records (c >>= next) (r >>= next') whole := by
  intro w ms
  obtain ⟨new, hcw, hshape⟩ := hc w ms
  rcases hr : r.on w with ⟨result, w'⟩
  rw [hr] at hcw hshape
  cases result with
  | error f =>
      refine ⟨new, ?_, ?_⟩
      · rw [Steps.on_bind_error hcw, Steps.on_bind_error hr]
      · rw [Steps.on_bind_error hr]
        exact herror new f hshape
  | ok a =>
      obtain ⟨new', hnw, hshape'⟩ := hn a w' (ms ++ new)
      refine ⟨new ++ new', ?_, ?_⟩
      · rw [Steps.on_bind_ok hcw, Steps.on_bind_ok hr, hnw, List.append_assoc]
      · rw [Steps.on_bind_ok hr]
        exact hok a new new' _ hshape hshape'

/-- Steps that write nothing may come before a recording. -/
theorem records_first_bind {r : Run κ ω ρ α} {next : α → Recording κ ω ρ β}
    {next' : α → Run κ ω ρ β} {whole : List Moment → Except Fault β → Prop}
    (herror : ∀ f, whole [] (.error f)) (h : ∀ a, Records (next a) (next' a) whole) :
    Records (r.first >>= next) (r >>= next') whole := by
  refine (records_first r).bind h (fun new f hn => hn ▸ herror f) ?_
  rintro a new new' o rfl hn
  exact hn

/-! ## What recordings write -/

/-- What is told outside of an engine, if anything is told. -/
def Telling (new : List Moment) (o : Except Fault Unit) : Prop :=
  Unfolds new o ∧ ∀ m ∈ new, m.isTold = true

theorem telling_nil : Telling [] (.ok ()) :=
  ⟨.done, fun _ hm => absurd hm List.not_mem_nil⟩

/-- The listener at the place is told first, and the others if it does not fail. -/
theorem tellFrom_cons (e : Event) (place : Nat) (l : Listener ω) (ls : List (Listener ω))
    (w : World κ ω ρ) (ms : List Moment) :
    (tellFrom e place (l :: ls)).on (w, ms) =
      match (Run.byListeners (l.receive e)).on w with
      | (.ok (), w') => (tellFrom e (place + 1) ls).on (w', ms ++ [.told place e none])
      | (.error f, w') => (.error f, w', ms ++ [.told place e (some f)]) := by
  rw [tellFrom, Steps.on_bind_ok (Steps.on_outcome ..), Steps.on_first]
  rcases (Run.byListeners (l.receive e) : Run κ ω ρ Unit).on w with ⟨result, w'⟩
  rw [Steps.on_bind_ok (on_note ..)]
  cases result with
  | error f => rfl
  | ok u => rfl

/-- The first listener is told, and the others if it does not fail. -/
theorem on_notify_cons (e : Event) (l : Listener ω) (ls : List (Listener ω)) (w : World κ ω ρ) :
    (Launcher.notify (l :: ls) e).on w =
      match (Run.byListeners (l.receive e)).on w with
      | (.ok (), w') => (Launcher.notify ls e).on w'
      | (.error f, w') => (.error f, w') := by
  show (Run.byListeners (l.receive e >>= fun _ => Listener.fanOut ls e)).on w = _
  rw [Run.byListeners, Steps.on_within, Steps.on_bind, Run.byListeners, Steps.on_within]
  rcases (l.receive e).on (w.journal, w.listeners) with ⟨result, s⟩
  cases result <;> rfl

/-- Telling listeners from a place on records the telling. -/
theorem records_tellFrom (e : Event) (place : Nat) (ls : List (Listener ω)) :
    Records (κ := κ) (ρ := ρ) (tellFrom e place ls) (Launcher.notify ls e) Telling := by
  induction ls generalizing place with
  | nil =>
      intro w ms
      exact ⟨[], by rw [List.append_nil]; rfl, telling_nil⟩
  | cons l ls ih =>
      intro w ms
      rw [tellFrom_cons, on_notify_cons]
      rcases hl : (Run.byListeners (l.receive e) : Run κ ω ρ Unit).on w with ⟨result, w'⟩
      cases result with
      | error f =>
          refine ⟨[.told place e (some f)], rfl, ?_⟩
          exact ⟨.refused, by simp [Moment.isTold]⟩
      | ok u =>
          obtain ⟨new, hnew, hu, ht⟩ := ih (place + 1) w' (ms ++ [.told place e none])
          refine ⟨.told place e none :: new, ?_, .told hu, ?_⟩
          · show (tellFrom e (place + 1) ls).on (w', ms ++ [.told place e none]) = _
            rw [hnew, List.append_assoc, List.singleton_append]
          · intro m hm
            rcases List.mem_cons.mp hm with rfl | hm
            · rfl
            · exact ht m hm

/-- Telling listeners records the telling. -/
theorem records_notify (ls : List (Listener ω)) (e : Event) :
    Records (κ := κ) (ρ := ρ) (notify ls e) (Launcher.notify ls e) Telling :=
  records_tellFrom e 0 ls

/-- Only listeners are told of things. -/
def Inside (new : List Moment) (_ : Except Fault α) : Prop := ∀ m ∈ new, m.isTold = true

/-- Telling them what an engine reports records nothing else. -/
theorem records_relay (ls : List (Listener ω)) (plan : TestPlan) (e : NodeEvent NodeRef) :
    Records (κ := κ) (ρ := ρ) (relay ls plan e) (Launcher.relay ls plan e) Inside := by
  intro w ms
  have hrelay : (relay ls plan e : Recording κ ω ρ Unit).on (w, ms)
      = (match plan.identify? w.forest e with
          | none => (pure () : Recording κ ω ρ Unit)
          | some e => notify ls (.about e)).on (w, ms) := rfl
  have hplain : (Launcher.relay ls plan e : Run κ ω ρ Unit).on w
      = (Run.byListeners (Listener.relay ls plan w.forest e)).on w := rfl
  rw [hrelay, hplain, Listener.relay]
  cases plan.identify? w.forest e with
  | none => exact ⟨[], by rw [List.append_nil]; rfl, fun _ hm => absurd hm List.not_mem_nil⟩
  | some e =>
      obtain ⟨new, hnew, -, ht⟩ := records_notify (κ := κ) (ρ := ρ) ls (.about e) w ms
      exact ⟨new, hnew, ht⟩

/-- Looking at how a recording ends records looking at how the steps end. -/
theorem Records.outcome {c : Recording κ ω ρ α} {r : Run κ ω ρ α}
    (h : Records c r Inside) : Records (Steps.outcome c) (Steps.outcome r) Inside := by
  intro w ms
  obtain ⟨new, hc, hn⟩ := h w ms
  refine ⟨new, ?_, hn⟩
  rw [Steps.on_outcome, Steps.on_outcome, hc]

/-- Recordings of tellings, one after the other, record tellings. -/
theorem Records.bind_inside {c : Recording κ ω ρ α} {r : Run κ ω ρ α}
    {next : α → Recording κ ω ρ β} {next' : α → Run κ ω ρ β} (hc : Records c r Inside)
    (hn : ∀ a, Records (next a) (next' a) Inside) : Records (c >>= next) (r >>= next') Inside := by
  refine hc.bind hn (fun new f h => h) ?_
  intro a new new' o h h' m hm
  rcases List.mem_append.mp hm with hm | hm
  · exact h m hm
  · exact h' m hm

/-- Whatever an engine does, all that is written down is what listeners are told. -/
theorem records_perform (ls : List (Listener ω)) (plan : TestPlan) (activity : Activity κ α) :
    Records (ρ := ρ) (perform ls plan activity)
      (Run.perform (Launcher.relay ls plan) activity) Inside := by
  have quiet : ∀ o : Except Fault α, Inside [] o := fun _ _ hm => absurd hm List.not_mem_nil
  induction activity with
  | done a => exact fun w ms => ⟨[], by rw [List.append_nil]; rfl, quiet _⟩
  | fail f => exact fun w ms => ⟨[], by rw [List.append_nil]; rfl, quiet _⟩
  | report e next ih =>
      rw [perform, Run.perform, Activity.perform, Activity.perform]
      refine (records_relay ls plan e).outcome.bind_inside ?_
      intro answer
      cases answer with
      | ok u => exact ih none
      | error f => exact ih (some f)
  | look next ih => exact fun w ms => ih (Run.engineView w) w ms
  | keep s next ih => exact fun w ms => ih (Run.afterEngine s w) ms

/-! ## Calls of engines -/

/-- The world in which an engine is called to execute: the launcher has noted that it is. -/
def announced (engine : Engine κ) (w : World κ ω ρ) : World κ ω ρ :=
  let line := "Executing tests in engine '" ++ engine.id ++ "'."
  { w with journal := w.journal.write (LogLevel.debug.record "quiver.core.execution" line) }

section

variable {ls : List (Listener ω)} {plan : TestPlan} {parameters : Parameters} {engine : Engine κ}
  {root : NodeRef} {w w' : World κ ω ρ} {result : Except Fault Unit}

/-- An engine that executes ends as what it does ends, under its guard. -/
theorem on_launcher_executeEngine
    (h : (Run.perform (Launcher.relay ls plan) (engine.execute root parameters)).on
      (announced engine w) = (result, w')) :
    (Launcher.executeEngine ls plan parameters engine root).on w
      = ((Resolution.held result).map fun _ => (),
          ((Resolution.guarded engine "execute" (Steps.ofExcept result)).on w').2) := by
  show (Resolution.guarded engine "execute"
    (Run.perform (Launcher.relay ls plan) (engine.execute root parameters)) >>=
      fun _ => pure ()).on (announced engine w) = _
  rw [Steps.on_bind, Resolution.on_guarded, h, ← Resolution.guarded_fst engine "execute" result w']
  rcases (Resolution.guarded engine "execute" (Steps.ofExcept result)).on w' with ⟨b, w''⟩
  cases b <;> rfl

/-- Calling an engine writes down the call, what the engine reports, and how it ends. -/
theorem on_executeEngine {ms ms' : List Moment}
    (h : (perform ls plan (engine.execute root parameters)).on
      (announced engine w, ms ++ [.called engine.id root]) = (result, w', ms')) :
    (executeEngine ls plan parameters engine root).on (w, ms)
      = ((Resolution.held result).map fun _ => (),
          ((Resolution.guarded engine "execute" (Steps.ofExcept result)).on w').2,
          ms' ++ [.returned (Except.fault? result)]) := by
  show ((perform ls plan (engine.execute root parameters)).outcome >>= fun result => do
    note (.returned (Except.fault? result))
    let _ ← (Resolution.guarded engine "execute" (Steps.ofExcept result)).first).on
      (announced engine w, ms ++ [.called engine.id root]) = _
  rw [Steps.on_bind_ok (Steps.on_outcome ..), h, Steps.on_bind_ok (on_note ..), Steps.on_bind,
    Steps.on_first, ← Resolution.guarded_fst engine "execute" result w']
  rcases (Resolution.guarded engine "execute" (Steps.ofExcept result)).on w' with ⟨b, w''⟩
  cases b <;> rfl

end

/-- The call of an engine, what is told during it and its return are written down. -/
theorem records_executeEngine (ls : List (Listener ω)) (plan : TestPlan) (parameters : Parameters)
    (engine : Engine κ) (root : NodeRef) :
    Records (ρ := ρ) (executeEngine ls plan parameters engine root)
      (Launcher.executeEngine ls plan parameters engine root) Unfolds := by
  intro w ms
  obtain ⟨new, hnew, hinside⟩ := records_perform (ρ := ρ) ls plan
    (engine.execute root parameters) (announced engine w) (ms ++ [.called engine.id root])
  rcases hp : (Run.perform (Launcher.relay ls plan) (engine.execute root parameters)).on
    (announced engine w) with ⟨result, w'⟩
  rw [hp] at hnew
  rw [on_launcher_executeEngine hp, on_executeEngine hnew]
  refine ⟨.called engine.id root :: (new ++ [.returned (Except.fault? result)]), ?_, ?_⟩
  · rw [List.append_assoc, List.append_assoc]
    rfl
  · cases result with
    | ok u => exact .contained hinside (fun f hf => by cases hf) .done
    | error f =>
        rw [Resolution.held]
        by_cases hf : f.escapes = true
        · rw [if_pos hf]
          exact .escaped hinside hf
        · rw [if_neg hf]
          refine .contained hinside ?_ .done
          intro g hg
          cases hg
          exact eq_false_of_ne_true hf

/-! ## Whole executions -/

/-- Recordings that unfold, one after the other, unfold. -/
theorem Records.bind_unfolds {c : Recording κ ω ρ Unit} {r : Run κ ω ρ Unit}
    {next : Recording κ ω ρ Unit} {next' : Run κ ω ρ Unit} (hc : Records c r Unfolds)
    (hn : Records next next' Unfolds) :
    Records (c >>= fun _ => next) (r >>= fun _ => next') Unfolds :=
  hc.bind (fun _ => hn) (fun _ _ h => h) fun _ _ _ _ h h' => h.append rfl h'

theorem records_pure : Records (pure () : Recording κ ω ρ Unit) (pure ()) Unfolds :=
  fun w ms => ⟨[], by rw [List.append_nil]; rfl, .done⟩

/-- So do recordings for each of some values. -/
theorem records_forM {c : α → Recording κ ω ρ Unit} {r : α → Run κ ω ρ Unit}
    (h : ∀ a, Records (c a) (r a) Unfolds) (as : List α) :
    Records (as.forM c) (as.forM r) Unfolds := by
  induction as with
  | nil => exact records_pure
  | cons a as ih => exact (h a).bind_unfolds ih

/-- The chronicle of a resolution unfolds. -/
theorem records_executeResolution (ls : List (Listener ω)) (plan : TestPlan)
    (parameters : Parameters) (r : Resolution κ) :
    Records (ρ := ρ) (executeResolution ls plan parameters r)
      (Launcher.executeResolution ls plan parameters r) Unfolds := by
  have hengines := records_forM (fun e : Engine κ × NodeRef =>
    records_executeEngine (ρ := ρ) ls plan parameters e.1 e.2) r.roots
  rw [executeResolution, Launcher.executeResolution]
  cases r.suiteIdentifier? with
  | none => exact hengines.bind_unfolds records_pure
  | some suite =>
      have hnotify := fun e => (records_notify (κ := κ) (ρ := ρ) ls e).mono fun _ _ h => h.1
      exact (hnotify _).bind_unfolds (hengines.bind_unfolds (hnotify _))

/-- What an execution writes down: nothing when it does not get to executing. -/
def Whole (new : List Moment) (o : Except Fault Unit) : Prop := new = [] ∨ Unfolds new o

/-- The chronicle of what was discovered unfolds. -/
theorem records_dispatch (ls : List (Listener ω)) (parameters : Parameters)
    (rs : List (Resolution κ)) :
    Records (ρ := ρ) (dispatch ls parameters rs) (Launcher.dispatch ls parameters rs) Whole := by
  rw [dispatch, Launcher.dispatch]
  refine records_first_bind (fun f => Or.inl rfl) ?_
  intro plan
  have hnotify := fun e => (records_notify (κ := κ) (ρ := ρ) ls e).mono fun _ _ h => h.1
  have hall := (hnotify (.planStarted plan)).bind_unfolds
    ((records_forM (records_executeResolution ls plan parameters) rs).bind_unfolds
      (hnotify (.planFinished plan)))
  exact hall.mono fun _ _ h => Or.inr h

end Recording

namespace Launcher

variable {κ ω ρ : Type}

open Recording

/-- A recorded execution takes the steps of the execution. -/
theorem records_recorded (l : Launcher κ ω ρ) (request : Option DiscoveryRequest)
    (more : List (Option (Listener ω))) :
    Records (l.recorded request more) (l.execute request more) Whole := by
  have empty : ∀ f, Whole [] (.error f) := fun f => Or.inl rfl
  refine records_first_bind (r := Steps.ofExcept (required request)) empty ?_
  intro request
  refine records_first_bind (r := Steps.ofExcept (Listener.register l.listeners more)) empty ?_
  intro ls
  exact records_first_bind empty fun rs => records_dispatch ls request.parameters rs

/-- **A recording is the execution.**  It ends as the execution does, in the same world, and has
    added a chronicle that unfolds to that end. -/
theorem on_recorded (l : Launcher κ ω ρ) (request : Option DiscoveryRequest)
    (more : List (Option (Listener ω))) (w : World κ ω ρ) :
    (l.recorded request more).on (w, [])
      = (((l.execute request more).on w).1, ((l.execute request more).on w).2,
          l.chronicle request more w) := by
  obtain ⟨new, hnew, -⟩ := records_recorded l request more w []
  rw [chronicle, hnew]

/-- A chronicle that is not empty unfolds to how the execution ends. -/
theorem unfolds_chronicle (l : Launcher κ ω ρ) (request : Option DiscoveryRequest)
    (more : List (Option (Listener ω))) (w : World κ ω ρ)
    (h : l.chronicle request more w ≠ []) :
    Unfolds (l.chronicle request more w) ((l.execute request more).on w).1 := by
  obtain ⟨new, hnew, hshape⟩ := records_recorded l request more w []
  have hc : l.chronicle request more w = new := by
    rw [chronicle, hnew]
    rfl
  rw [hc] at h ⊢
  exact hshape.resolve_left h

end Launcher

end TestLauncher
