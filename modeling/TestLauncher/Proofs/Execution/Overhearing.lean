import TestLauncher.Proofs.Execution.Rounds

/-! # Listening in on an execution

    To see what listeners receive they are watched: each does what it did before, and it is
    written down what it was told and how it ended.  Nobody else takes notice.  An execution
    with watched listeners ends as the execution does and leaves the same world, and what is
    written down is what its chronicle has of listeners (`Launcher.follows_execute`).

    So there are two witnesses of a chronicle: the recording of the execution, and the
    execution itself with watched listeners (`Launcher.Witnessed`). -/

namespace TestLauncher

variable {κ ω ρ σ τ α β : Type}

/-! ## Watching -/

namespace Listener

/-- The listener, and it is written down what it is told and how it ends. -/
def watched (place : Nat) (l : Listener ω) : Listener (ω × List Moment) where
  name := l.name
  receive e := do
    let receive : Steps (Journal × ω × List Moment) Unit := (l.receive e).within
      (fun s => (s.1, s.2.1)) fun t s => (t.1, t.2, s.2.2)
    let result ← receive.outcome
    modify fun s => (s.1, s.2.1, s.2.2 ++ [.told place e (Except.fault? result)])
    Steps.ofExcept result

/-- The listeners, watched, the first of them at the given place. -/
def watchedFrom : Nat → List (Listener ω) → List (Listener (ω × List Moment))
  | _, [] => []
  | place, l :: ls => l.watched place :: watchedFrom (place + 1) ls

/-- What is handed over as listeners, watched, the first of it at the given place. -/
def watchedMoreFrom : Nat → List (Option (Listener ω)) →
    List (Option (Listener (ω × List Moment)))
  | _, [] => []
  | place, l? :: more => l?.map (watched place) :: watchedMoreFrom (place + 1) more

variable {ls : List (Listener ω)} {e : Event} {s t : Journal × ω} {log : List Moment}
  {result : Except Fault Unit}

/-- A watched listener ends as the listener does, and the end is written down. -/
theorem on_watched {l : Listener ω} (h : (l.receive e).on s = (result, t)) (place : Nat)
    (log : List Moment) :
    ((l.watched place).receive e).on (s.1, s.2, log)
      = (result, t.1, t.2, log ++ [.told place e (Except.fault? result)]) := by
  rw [watched, Steps.on_bind_ok (Steps.on_outcome ..), Steps.on_within, h]
  rfl

/-- Watched listeners end as they do when they are not watched, and leave the same state. -/
theorem on_fanOut_watchedFrom (h : (fanOut ls e).on s = (result, t)) (place : Nat)
    (log : List Moment) :
    ∃ told, (fanOut (watchedFrom place ls) e).on (s.1, s.2, log)
        = (result, t.1, t.2, log ++ told) ∧ Goes e place ls.length result told := by
  induction ls generalizing place s log with
  | nil =>
      cases h
      exact ⟨[], by rw [List.append_nil]; rfl, .past⟩
  | cons l ls ih =>
      rw [watchedFrom, fanOut_cons]
      rw [fanOut_cons] at h
      rcases hl : (l.receive e).on s with ⟨fault | u, s'⟩
      · rw [Steps.on_bind_error hl] at h
        cases h
        rw [Steps.on_bind_error (on_watched hl place log)]
        exact ⟨_, rfl, .refused⟩
      · rw [Steps.on_bind_ok hl] at h
        rw [Steps.on_bind_ok (on_watched hl place log)]
        obtain ⟨told, hon, hgoes⟩ := ih h (place + 1) (log ++ [.told place e none])
        refine ⟨.told place e none :: told, ?_, .on hgoes⟩
        rw [List.append_assoc] at hon
        exact hon

/-- Watched listeners go on counting after those before them. -/
theorem watchedFrom_append (place : Nat) (ls ls' : List (Listener ω)) :
    watchedFrom place (ls ++ ls') = watchedFrom place ls ++ watchedFrom (place + ls.length) ls' := by
  induction ls generalizing place with
  | nil => rfl
  | cons l ls ih =>
      rw [List.cons_append, watchedFrom, ih, watchedFrom, List.cons_append, List.length_cons,
        Nat.add_assoc, Nat.add_comm 1]

/-- Listeners are there when they are watched exactly when they are there. -/
theorem mapM_watchedMoreFrom (place : Nat) (more : List (Option (Listener ω))) :
    (watchedMoreFrom place more).mapM id = (more.mapM id).map (watchedFrom place) := by
  induction more generalizing place with
  | nil => rfl
  | cons l? more ih =>
      rw [watchedMoreFrom, List.mapM_cons, List.mapM_cons, ih]
      cases l? with
      | none => rfl
      | some l => cases more.mapM id <;> rfl

/-- Watched listeners are registered behind watched listeners. -/
theorem register_watched (ls : List (Listener ω)) (more : List (Option (Listener ω))) :
    register (watchedFrom 0 ls) (watchedMoreFrom ls.length more)
      = (register ls more).map (watchedFrom 0) := by
  rw [register, register, Require.allPresent, Require.allPresent, mapM_watchedMoreFrom]
  cases more.mapM id with
  | none => rfl
  | some vs =>
      show Except.ok (watchedFrom 0 ls ++ watchedFrom ls.length vs)
        = Except.ok (watchedFrom 0 (ls ++ vs))
      rw [watchedFrom_append, Nat.zero_add]

end Listener

/-! ## Steps that follow others -/

namespace Steps

/-- Steps on a picture of the state that end as the others do on the state, and leave the picture
    of what those leave. -/
def Follows (φ : σ → τ) (c : Steps τ α) (d : Steps σ α) : Prop :=
  ∀ s, c.on (φ s) = ((d.on s).1, φ (d.on s).2)

variable {φ : σ → τ} {c : Steps τ α} {d : Steps σ α}

/-- A value is the same on every picture of the state. -/
theorem follows_pure (φ : σ → τ) (a : α) : Follows φ (pure a) (pure a) := fun _ => rfl

/-- So is a fault. -/
theorem follows_throw (φ : σ → τ) (f : Fault) :
    Follows φ (throw f : Steps τ α) (throw f) := fun _ => rfl

/-- So is a result that is already there. -/
theorem follows_ofExcept (φ : σ → τ) (result : Except Fault α) :
    Follows φ (ofExcept result) (ofExcept result) := fun _ => rfl

/-- Steps in a row. -/
theorem Follows.bind {k : α → Steps τ β} {k' : α → Steps σ β} (h : Follows φ c d)
    (hk : ∀ a, Follows φ (k a) (k' a)) : Follows φ (c >>= k) (d >>= k') := by
  intro s
  have hc := h s
  rcases hd : d.on s with ⟨result, t⟩
  rw [hd] at hc
  cases result with
  | error f => rw [on_bind_error hc, on_bind_error hd]
  | ok a =>
      rw [on_bind_ok hc, on_bind_ok hd]
      exact hk a t

/-- Whatever is read of the state. -/
theorem follows_get {k : τ → Steps τ α} {k' : σ → Steps σ α}
    (h : ∀ s, Follows φ (k (φ s)) (k' s)) : Follows φ (get >>= k) (get >>= k') := by
  intro s
  rw [on_bind_ok (on_get s), on_bind_ok (on_get (φ s))]
  exact h s s

/-- If steps follow others, so does looking at how they end. -/
theorem Follows.outcome (h : Follows φ c d) : Follows φ (outcome c) (outcome d) := by
  intro s
  rw [on_outcome, on_outcome, h s]

/-- Steps for each of some values follow if they do for every value. -/
theorem follows_forM {c : β → Steps τ Unit} {d : β → Steps σ Unit}
    (h : ∀ b, Follows φ (c b) (d b)) (bs : List β) : Follows φ (bs.forM c) (bs.forM d) := by
  induction bs with
  | nil => exact follows_pure φ ()
  | cons b bs ih => exact (h b).bind fun _ => ih

/-- So do steps that hand on an intermediate value. -/
theorem follows_foldlM {c : α → β → Steps τ α} {d : α → β → Steps σ α}
    (h : ∀ a b, Follows φ (c a b) (d a b)) (a : α) (bs : List β) :
    Follows φ (bs.foldlM c a) (bs.foldlM d a) := by
  induction bs generalizing a with
  | nil => exact follows_pure φ a
  | cons b bs ih =>
      rw [List.foldlM_cons, List.foldlM_cons]
      exact (h a b).bind ih

/-- So do steps that collect a value each. -/
theorem follows_mapM {c : β → Steps τ α} {d : β → Steps σ α} (h : ∀ b, Follows φ (c b) (d b))
    (bs : List β) : Follows φ (bs.mapM c) (bs.mapM d) := by
  induction bs with
  | nil => exact follows_pure φ []
  | cons b bs ih =>
      rw [List.mapM_cons, List.mapM_cons]
      exact (h b).bind fun a => ih.bind fun as => follows_pure φ (a :: as)

end Steps

open Steps

/-! ## Resolving requests -/

/-- A world whose listeners are watched, with what has been written down. -/
def World.overheard (w : World κ ω ρ) (log : List Moment) : World κ (ω × List Moment) ρ where
  forest := w.forest
  journal := w.journal
  engines := w.engines
  listeners := (w.listeners, log)
  resolver := w.resolver

/-- Steps that take no notice of the listeners, and in which nobody is told anything. -/
def Run.Unheard (c : Run κ (ω × List Moment) ρ α) (d : Run κ ω ρ α) : Prop :=
  ∀ log, Follows (fun w : World κ ω ρ => w.overheard log) c d

namespace Resolution

/-- Guarding an engine takes no notice of the listeners. -/
theorem unheard_guarded {c : Run κ (ω × List Moment) ρ α} {d : Run κ ω ρ α}
    (engine : Engine κ) (deed : String) (h : Run.Unheard c d) :
    Run.Unheard (guarded engine deed c) (guarded engine deed d) := by
  intro log
  rw [guarded, guarded]
  refine (h log).outcome.bind ?_
  intro result
  cases result with
  | ok a => exact follows_pure _ (some a)
  | error f =>
      dsimp only
      split
      · exact Follows.bind (fun _ => rfl) fun _ => follows_pure _ none
      · exact follows_throw _ f

/-- An engine that discovers takes no notice of the listeners. -/
theorem unheard_discoverRoot (strict : Bool) (engine : Engine κ) (rooted : RootedRequest) :
    Run.Unheard (ω := ω) (ρ := ρ) (discoverRoot strict engine rooted)
      (discoverRoot strict engine rooted) := by
  intro log
  rw [discoverRoot, discoverRoot]
  refine follows_get ?_
  intro w
  refine (follows_ofExcept _ _).bind ?_
  intro id
  refine (unheard_guarded engine "discover" (fun _ _ => rfl) log).bind ?_
  intro found
  rcases found with _ | _ | root
  · exact follows_pure _ none
  · cases strict with
    | true => exact follows_throw _ _
    | false => exact Follows.bind (fun _ => rfl) fun _ => follows_pure _ none
  · exact follows_pure _ (some root)

/-- Neither does adding an engine to a resolution. -/
theorem unheard_addEngine (phase : Phase) (strict : Bool) (rooted : RootedRequest)
    (r : Resolution κ) (engine : Engine κ) :
    Run.Unheard (ω := ω) (ρ := ρ) (addEngine phase strict rooted r engine)
      (addEngine phase strict rooted r engine) := by
  intro log
  rw [addEngine, addEngine]
  refine (follows_ofExcept _ _).bind ?_
  intro excluded
  cases excluded with
  | true => exact Follows.bind (fun _ => rfl) fun _ => follows_pure _ r
  | false =>
      refine Follows.bind (fun _ => rfl) fun _ => ?_
      refine (unheard_discoverRoot strict engine rooted log).bind ?_
      intro root?
      cases root? with
      | none => exact follows_pure _ r
      | some root =>
          dsimp only
          rw [addRoot, addRoot]
          cases r.suite? with
          | none => exact follows_pure _ _
          | some suite => exact Follows.bind (fun _ => rfl) fun _ => follows_pure _ _

/-- Neither does resolving a request whose suites have been found. -/
theorem unheard_ofRequest (engines : List (Engine κ)) (strict : Bool) (phase : Phase)
    (rooted : RootedRequest) :
    Run.Unheard (ω := ω) (ρ := ρ) (ofRequest engines strict phase rooted)
      (ofRequest engines strict phase rooted) := by
  intro log
  rw [ofRequest, ofRequest]
  refine follows_get ?_
  intro w
  refine (follows_foldlM (fun r e => unheard_addEngine phase strict rooted r e log) _ _).bind ?_
  intro r
  refine Follows.bind ?_ fun _ => ?_
  · rw [sift, sift]
    exact (follows_ofExcept _ _).bind fun filter => follows_forM (fun _ _ => rfl) r.roots
  · exact (follows_forM (fun _ _ => rfl) r.roots).bind fun _ => follows_pure _ r

end Resolution

namespace Expansion

/-- Neither does looking for the suites of a request. -/
theorem unheard_ofRequest (resolver? : Option (SuiteResolver ρ)) (request : DiscoveryRequest) :
    Run.Unheard (κ := κ) (ω := ω) (ofRequest resolver? request) (ofRequest resolver? request) := by
  intro log
  cases resolver? with
  | none => exact follows_pure _ []
  | some resolver =>
      refine (follows_foldlM (fun done s => ?_) _ _).bind fun done => follows_pure _ done.rooted
      rw [addReached, addReached]
      refine Follows.bind (fun _ => rfl) fun ds => follows_foldlM (fun done d => ?_) done ds
      rw [addSuite, addSuite]
      split
      · exact follows_pure _ done
      · refine Follows.bind ?_ fun q => follows_pure _ _
        rw [expand, expand]
        refine Follows.bind (fun _ => rfl) fun _ => ?_
        exact Follows.bind (fun _ => rfl) fun suite => follows_pure _ _

end Expansion

/-- While requests are resolved nobody is told anything. -/
theorem Launcher.unheard_resolve {l : Launcher κ ω ρ} {l' : Launcher κ (ω × List Moment) ρ}
    (hengines : l'.engines = l.engines) (hresolver : l'.resolver? = l.resolver?)
    (hstrict : l'.strict = l.strict) (phase : Phase) (request : DiscoveryRequest) :
    Run.Unheard (l'.resolve phase request) (l.resolve phase request) := by
  intro log
  rw [resolve, resolve, hengines, hresolver, hstrict]
  refine (Expansion.unheard_ofRequest l.resolver? request log).bind ?_
  intro further
  exact follows_mapM (fun q => Resolution.unheard_ofRequest l.engines l.strict phase q log) _

/-! ## Executing -/

namespace Recording

/-- What is heard while something is recorded: the moments in which a listener is told something. -/
def heard (s : World κ ω ρ × List Moment) : World κ (ω × List Moment) ρ :=
  s.1.overheard (s.2.filter Moment.isTold)

/-- What has just been told is the last that is heard. -/
theorem heard_told (w : World κ ω ρ) (ms : List Moment) (place : Nat) (e : Event)
    (fault? : Option Fault) :
    heard (w, ms ++ [.told place e fault?])
      = w.overheard (ms.filter Moment.isTold ++ [.told place e fault?]) := by
  rw [heard, List.filter_append]
  rfl

/-- Calls and returns of engines are not heard. -/
theorem heard_append_other {m : Moment} (h : m.isTold = false) (w : World κ ω ρ)
    (ms : List Moment) : heard (w, ms ++ [m]) = heard (w, ms) := by
  rw [heard, List.filter_append, List.filter_cons, h, heard]
  exact congrArg w.overheard (List.append_nil _)

/-- Steps that are only taken. -/
theorem follows_first {c : Run κ (ω × List Moment) ρ α} {d : Run κ ω ρ α}
    (h : Run.Unheard c d) : Follows heard c d.first := fun s => h (s.2.filter Moment.isTold) s.1

/-- A watched listener is told what the listener is told. -/
theorem on_byListeners_watched {l : Listener ω} {e : Event} {w w' : World κ ω ρ}
    {result : Except Fault Unit} (h : (Run.byListeners (l.receive e)).on w = (result, w'))
    (place : Nat) (log : List Moment) :
    (Run.byListeners ((l.watched place).receive e)).on (w.overheard log)
      = (result, w'.overheard (log ++ [.told place e (Except.fault? result)])) := by
  rw [Run.byListeners, Steps.on_within] at h
  rcases hl : (l.receive e).on (w.journal, w.listeners) with ⟨answer, t⟩
  rw [hl] at h
  cases h
  have hwatched : ((l.watched place).receive e).on
      ((w.overheard log).journal, (w.overheard log).listeners)
        = (answer, t.1, t.2, log ++ [.told place e (Except.fault? answer)]) :=
    Listener.on_watched hl place log
  rw [Run.byListeners, Steps.on_within, hwatched]
  rfl

/-- Telling watched listeners of an event is heard as it is recorded. -/
theorem follows_tellFrom (e : Event) (place : Nat) (ls : List (Listener ω)) :
    Follows heard (Launcher.notify (Listener.watchedFrom place ls) e : Run κ _ ρ Unit)
      (tellFrom e place ls) := by
  induction ls generalizing place with
  | nil => exact follows_pure heard ()
  | cons l ls ih =>
      rintro ⟨w, ms⟩
      rw [Listener.watchedFrom, on_notify_cons, tellFrom_cons]
      rcases hl : (Run.byListeners (l.receive e) : Run κ ω ρ Unit).on w with ⟨result, w'⟩
      rw [heard, on_byListeners_watched hl]
      cases result with
      | error f => exact congrArg (Prod.mk _) (heard_told w' ms place e (some f)).symm
      | ok u =>
          show (Launcher.notify (Listener.watchedFrom (place + 1) ls) e).on
            (w'.overheard (ms.filter Moment.isTold ++ [.told place e none])) = _
          rw [← heard_told]
          exact ih (place + 1) (w', ms ++ [.told place e none])

/-- Telling watched listeners is heard as the telling is recorded. -/
theorem follows_notify (ls : List (Listener ω)) (e : Event) :
    Follows heard (Launcher.notify (Listener.watchedFrom 0 ls) e : Run κ _ ρ Unit)
      (notify ls e) := follows_tellFrom e 0 ls

/-- So is telling them what an engine reports. -/
theorem follows_relay (ls : List (Listener ω)) (plan : TestPlan) (e : NodeEvent NodeRef) :
    Follows heard (Launcher.relay (Listener.watchedFrom 0 ls) plan e : Run κ _ ρ Unit)
      (relay ls plan e) := by
  refine follows_get ?_
  intro s
  have hforest : (heard s).forest = s.1.forest := rfl
  dsimp only
  rw [Listener.relay, hforest]
  cases plan.identify? s.1.forest e with
  | none => exact fun _ => rfl
  | some e => exact follows_notify ls (.about e)

/-- Whatever an engine does. -/
theorem follows_perform (ls : List (Listener ω)) (plan : TestPlan) (activity : Activity κ α) :
    Follows heard
      (Run.perform (Launcher.relay (Listener.watchedFrom 0 ls) plan) activity : Run κ _ ρ α)
      (perform ls plan activity) := by
  induction activity with
  | done a => exact follows_pure heard a
  | fail f => exact follows_throw heard f
  | report e next ih =>
      rw [perform, Run.perform, Activity.perform, Activity.perform]
      refine (follows_relay ls plan e).outcome.bind ?_
      intro answer
      cases answer with
      | ok u => exact ih none
      | error f => exact ih (some f)
  | look next ih => exact fun s => ih (Run.engineView s.1) s
  | keep t next ih => exact fun s => ih (Run.afterEngine t s.1, s.2)

/-- So is an engine that executes its tree. -/
theorem follows_executeEngine (ls : List (Listener ω)) (plan : TestPlan) (parameters : Parameters)
    (engine : Engine κ) (root : NodeRef) :
    Follows heard
      (Launcher.executeEngine (Listener.watchedFrom 0 ls) plan parameters engine root :
        Run κ _ ρ Unit)
      (executeEngine ls plan parameters engine root) := by
  rintro ⟨w, ms⟩
  have hperform := follows_perform (ρ := ρ) ls plan (engine.execute root parameters)
    (announced engine w, ms ++ [.called engine.id root])
  rcases hp : (perform ls plan (engine.execute root parameters)).on
    (announced engine w, ms ++ [.called engine.id root]) with ⟨result, w', ms'⟩
  rw [hp, heard_append_other rfl] at hperform
  -- the boundary makes the same of the result in both worlds
  have hguarded := Resolution.unheard_guarded (κ := κ) (ω := ω) (ρ := ρ) engine "execute"
    (fun log => follows_ofExcept _ result) (ms'.filter Moment.isTold) w'
  rw [on_executeEngine hp, heard_append_other rfl]
  have hon := on_launcher_executeEngine (w := heard (w, ms)) hperform
  rw [hon]
  exact congrArg (Prod.mk _) (congrArg Prod.snd hguarded)

/-- So are the engines of a resolution. -/
theorem follows_executeResolution (ls : List (Listener ω)) (plan : TestPlan)
    (parameters : Parameters) (r : Resolution κ) :
    Follows heard
      (Launcher.executeResolution (Listener.watchedFrom 0 ls) plan parameters r : Run κ _ ρ Unit)
      (executeResolution ls plan parameters r) := by
  have hengines := follows_forM (fun e : Engine κ × NodeRef =>
    follows_executeEngine (ρ := ρ) ls plan parameters e.1 e.2) r.roots
  rw [executeResolution, Launcher.executeResolution]
  cases r.suiteIdentifier? with
  | none => exact hengines.bind fun _ => follows_pure heard ()
  | some suite =>
      exact (follows_notify ls _).bind fun _ => hengines.bind fun _ => follows_notify ls _

/-- So is an execution that has been discovered. -/
theorem follows_dispatch (ls : List (Listener ω)) (parameters : Parameters)
    (rs : List (Resolution κ)) :
    Follows heard
      (Launcher.dispatch (Listener.watchedFrom 0 ls) parameters rs : Run κ _ ρ Unit)
      (dispatch ls parameters rs) := by
  have hassemble : Run.Unheard (κ := κ) (ω := ω) (ρ := ρ) (Resolution.assemble rs)
      (Resolution.assemble rs) := by
    intro log
    rw [Resolution.assemble, Resolution.assemble]
    exact follows_get fun w => follows_ofExcept _ _
  rw [dispatch, Launcher.dispatch]
  refine (follows_first hassemble).bind ?_
  intro plan
  refine (follows_notify ls _).bind fun _ => ?_
  refine (follows_forM (follows_executeResolution ls plan parameters) rs).bind fun _ => ?_
  exact follows_notify ls _

end Recording

/-! ## The launcher with watched listeners -/

namespace Launcher

/-- A launcher whose listeners are watched. -/
def overheard (l : Launcher κ ω ρ) : Launcher κ (ω × List Moment) ρ where
  engines := l.engines
  resolver? := l.resolver?
  strict := l.strict
  listeners := Listener.watchedFrom 0 l.listeners

variable (l : Launcher κ ω ρ) (request : Option DiscoveryRequest)
  (more : List (Option (Listener ω)))

/-- **Executing with watched listeners is recording the execution.** -/
theorem follows_execute :
    Follows Recording.heard
      (l.overheard.execute request (Listener.watchedMoreFrom l.listeners.length more))
      (l.recorded request more) := by
  rw [execute, recorded]
  refine (follows_ofExcept _ (required request)).bind ?_
  intro request
  rw [show l.overheard.listeners = Listener.watchedFrom 0 l.listeners from rfl,
    Listener.register_watched]
  cases Listener.register l.listeners more with
  | error f => exact follows_throw _ f
  | ok ls =>
      have hresolve : Run.Unheard (l.overheard.resolve .execution request)
          (l.resolve .execution request) := unheard_resolve rfl rfl rfl .execution request
      refine (Recording.follows_first hresolve).bind ?_
      intro rs
      exact Recording.follows_dispatch ls request.parameters rs

/-- Moments that an execution in a world went through: a recording of it writes them down, ends
    like the execution and in the same world; and when the listeners are watched, the execution is
    the same and the listeners are told what the moments say. -/
structure Witnessed (w : World κ ω ρ) (ms : List Moment) : Prop where
  recorded : (l.recorded request more).on (w, [])
    = (((l.execute request more).on w).1, ((l.execute request more).on w).2, ms)
  overheard : (l.overheard.execute request
      (Listener.watchedMoreFrom l.listeners.length more)).on (w.overheard [])
    = (((l.execute request more).on w).1,
        ((l.execute request more).on w).2.overheard (ms.filter Moment.isTold))

/-- **A chronicle is of the execution.** -/
theorem witnessed_chronicle (w : World κ ω ρ) :
    l.Witnessed request more w (l.chronicle request more w) := by
  have hrecorded := l.on_recorded request more w
  have hfollows := l.follows_execute request more (w, [])
  rw [hrecorded] at hfollows
  exact ⟨hrecorded, hfollows⟩

end Launcher

end TestLauncher
