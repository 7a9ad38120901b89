import TestLauncher.Proofs.Discovery.Requests

/-! # Watched engines

    A watched engine does what the engine does, and notes each call as it ends: whose it is,
    what for, and the fault it ends with, if it does.  A launcher with watched engines does
    what the launcher does, beside a list of all calls of its engines (`on_watched_discover`,
    `on_watched_execute`); so what is proved of these lists is proved of the launcher.

    A list heeds the rules (`Heeds`): only engines that are let in are called, and a call
    that ends with a fault the boundary lets through ends everything with that fault. -/

namespace TestLauncher

/-- What an engine is called for. -/
inductive Deed where
  | discover
  | execute
deriving DecidableEq, Repr

/-- A call of an engine that has ended, perhaps with a fault. -/
structure EngineCall where
  engineId : String
  deed : Deed
  fault? : Option Fault
deriving DecidableEq

/-- What watched engines know: what engines know, and the calls so far. -/
abbrev Watched (κ : Type) := κ × List EngineCall

variable {κ ω ρ α β : Type}

/-- What is in the hands of watched engines, with a note of one more call. -/
def noted (call : EngineCall) (s : Forest × Watched κ) : Forest × Watched κ :=
  (s.1, s.2.1, s.2.2 ++ [call])

/-- An activity that notes how it ends. -/
def Activity.watched (engineId : String) : Activity κ α → Activity (Watched κ) α
  | done a => look fun s => keep (noted ⟨engineId, .execute, none⟩ s) (done a)
  | fail f => look fun s => keep (noted ⟨engineId, .execute, some f⟩ s) (fail f)
  | report e next => report e fun answer => (next answer).watched engineId
  | look next => look fun s => (next (s.1, s.2.1)).watched engineId
  | keep s next => look fun t => keep (s.1, s.2, t.2.2) (next.watched engineId)

/-- An engine that notes how its calls end. -/
def Engine.watched (e : Engine κ) : Engine (Watched κ) where
  id := e.id
  discover request id := do
    let result ← Steps.outcome <|
      (e.discover request id).within (fun s => (s.1, s.2.1)) fun t s => (t.1, t.2, s.2.2)
    modify (noted ⟨e.id, .discover, Except.fault? result⟩)
    Steps.ofExcept result
  execute root parameters := (e.execute root parameters).watched e.id

/-- A launcher whose engines are watched. -/
def Launcher.watched (l : Launcher κ ω ρ) : Launcher (Watched κ) ω ρ where
  engines := l.engines.map Engine.watched
  resolver? := l.resolver?
  strict := l.strict
  listeners := l.listeners

/-- A world with the calls of engines so far. -/
def World.watched (w : World κ ω ρ) (calls : List EngineCall) : World (Watched κ) ω ρ where
  forest := w.forest
  journal := w.journal
  engines := (w.engines, calls)
  listeners := w.listeners
  resolver := w.resolver

/-- A resolution whose engines are watched. -/
def Resolution.watched (r : Resolution κ) : Resolution (Watched κ) where
  suite? := r.suite?
  suiteIdentifier? := r.suiteIdentifier?
  roots := r.roots.map fun e => (e.1.watched, e.2)

/-- The calls that steps with watched engines note when they start in a world. -/
def Run.calls (c : Run (Watched κ) ω ρ α) (w : World κ ω ρ) : List EngineCall :=
  (c.on (w.watched [])).2.engines.2

namespace Launcher

/-- The calls of engines while a plan is made for a request. -/
def discoverCalls (l : Launcher κ ω ρ) (request : Option DiscoveryRequest) (w : World κ ω ρ) :
    List EngineCall := (l.watched.discover request).calls w

/-- The calls of engines while a request is executed. -/
def executeCalls (l : Launcher κ ω ρ) (request : Option DiscoveryRequest)
    (more : List (Option (Listener ω))) (w : World κ ω ρ) : List EngineCall :=
  (l.watched.execute request more).calls w

end Launcher

/-! ## Steps that are watched -/

/-- Only engines that are let in are called, and a fault that escapes from one comes out. -/
structure Heeds (letIn : String → Prop) (calls : List EngineCall) (fault? : Option Fault) :
    Prop where
  letIn : ∀ c ∈ calls, letIn c.engineId
  comesOut : ∀ c ∈ calls, ∀ f, c.fault? = some f → f.escapes = true → fault? = some f

/-- In a world, steps with watched engines are the given steps, and the calls they note heed the
    rules. -/
def Watches (letIn : String → Prop) (φ : α → β) (c : Run (Watched κ) ω ρ β) (d : Run κ ω ρ α)
    (w : World κ ω ρ) : Prop :=
  ∀ calls, ∃ more, c.on (w.watched calls) = ((d.on w).1.map φ, (d.on w).2.watched (calls ++ more)) ∧
    Heeds letIn more (Except.fault? (d.on w).1)

section

variable {letIn : String → Prop} {φ : α → β} {c : Run (Watched κ) ω ρ β} {d : Run κ ω ρ α}
  {w : World κ ω ρ}

/-- **Watching does not interfere**, and what is noted heeds the rules. -/
theorem Watches.on_watched {c : Run (Watched κ) ω ρ α} {d : Run κ ω ρ α}
    (h : Watches letIn id c d w) :
    c.on (w.watched []) = ((d.on w).1, (d.on w).2.watched (c.calls w)) ∧
      Heeds letIn (c.calls w) (Except.fault? (d.on w).1) := by
  obtain ⟨calls, hon, hheeds⟩ := h []
  rw [Except.map_id, id, List.nil_append] at hon
  have hcalls : c.calls w = calls := by
    rw [Run.calls, hon]
    rfl
  rw [hcalls]
  exact ⟨hon, hheeds⟩

/-- Nothing is called against the rules where nothing is called. -/
theorem heeds_nil (letIn : String → Prop) (fault? : Option Fault) : Heeds letIn [] fault? :=
  ⟨fun _ hc => absurd hc List.not_mem_nil, fun _ hc => absurd hc List.not_mem_nil⟩

/-- Steps that call no engine. -/
theorem Watches.of_frame
    (h : ∀ calls, c.on (w.watched calls) = ((d.on w).1.map φ, (d.on w).2.watched calls)) :
    Watches letIn φ c d w := by
  intro calls
  refine ⟨[], ?_, heeds_nil letIn _⟩
  rw [List.append_nil]
  exact h calls

theorem watches_pure (letIn : String → Prop) (φ : α → β) (a : α) (w : World κ ω ρ) :
    Watches letIn φ (pure (φ a)) (pure a) w := .of_frame fun _ => rfl

theorem watches_throw (letIn : String → Prop) (φ : α → β) (f : Fault) (w : World κ ω ρ) :
    Watches letIn φ (throw f) (throw f) w := .of_frame fun _ => rfl

/-- A result that is there already calls no engine. -/
theorem watches_ofExcept (letIn : String → Prop) (result : Except Fault α) (w : World κ ω ρ) :
    Watches letIn id (Steps.ofExcept result) (Steps.ofExcept result) w := by
  refine .of_frame fun calls => ?_
  rw [Steps.on_ofExcept, Steps.on_ofExcept, Except.map_id, id]

theorem watches_log (letIn : String → Prop) (line : LogRecord) (w : World κ ω ρ) :
    Watches letIn id (Run.log line) (Run.log line) w := .of_frame fun _ => rfl

/-- Steps on the forest call no engine. -/
theorem watches_onForest (letIn : String → Prop) (steps : Steps (Forest × Journal) α)
    (w : World κ ω ρ) : Watches letIn id (Run.onForest steps) (Run.onForest steps) w := by
  refine .of_frame fun calls => ?_
  rw [Except.map_id, id]
  rfl

/-- Listeners call no engine. -/
theorem watches_byListeners (letIn : String → Prop) (steps : Steps (Journal × ω) α)
    (w : World κ ω ρ) : Watches letIn id (Run.byListeners steps) (Run.byListeners steps) w := by
  refine .of_frame fun calls => ?_
  rw [Except.map_id, id]
  rfl

/-- The suite resolver calls no engine. -/
theorem watches_byResolver (letIn : String → Prop) (steps : Steps (Journal × ρ) α)
    (w : World κ ω ρ) : Watches letIn id (Run.byResolver steps) (Run.byResolver steps) w := by
  refine .of_frame fun calls => ?_
  rw [Except.map_id, id]
  rfl

/-- Steps in a row. -/
theorem Watches.bind {γ δ : Type} {ψ : γ → δ} {k : β → Run (Watched κ) ω ρ δ}
    {k' : α → Run κ ω ρ γ} (h : Watches letIn φ c d w)
    (hk : ∀ a w', d.on w = (.ok a, w') → Watches letIn ψ (k (φ a)) (k' a) w') :
    Watches letIn ψ (c >>= k) (d >>= k') w := by
  intro calls
  obtain ⟨more, hc, hmore⟩ := h calls
  rcases hd : d.on w with ⟨result, w'⟩
  rw [hd] at hc hmore
  cases result with
  | error f =>
      rw [Steps.on_bind_error hc, Steps.on_bind_error hd]
      exact ⟨more, rfl, hmore⟩
  | ok a =>
      obtain ⟨more', hk', hmore'⟩ := hk a w' hd (calls ++ more)
      rw [Steps.on_bind_ok hc, Steps.on_bind_ok hd]
      refine ⟨more ++ more', ?_, ?_, ?_⟩
      · rw [← List.append_assoc]
        exact hk'
      · intro call hcall
        rcases List.mem_append.mp hcall with hcall | hcall
        · exact hmore.letIn call hcall
        · exact hmore'.letIn call hcall
      · intro call hcall f hf hescapes
        rcases List.mem_append.mp hcall with hcall | hcall
        -- nothing escapes from calls after which there is more
        · cases hmore.comesOut call hcall f hf hescapes
        · exact hmore'.comesOut call hcall f hf hescapes

/-- Whatever is read of the world. -/
theorem watches_get {k : World (Watched κ) ω ρ → Run (Watched κ) ω ρ β}
    {k' : World κ ω ρ → Run κ ω ρ α}
    (h : ∀ calls, Watches letIn φ (k (w.watched calls)) (k' w) w) :
    Watches letIn φ (get >>= k) (get >>= k') w := by
  intro calls
  rw [Steps.on_bind_ok (Steps.on_get w), Steps.on_bind_ok (Steps.on_get (w.watched calls))]
  exact h calls calls

/-- A loop with a result, round by round. -/
theorem watches_foldlM {γ δ : Type} {ψ : γ → δ} {as : List α} {g : α → β}
    {c : δ → β → Run (Watched κ) ω ρ δ} {d : γ → α → Run κ ω ρ γ}
    (h : ∀ a ∈ as, ∀ b w, Watches letIn ψ (c (ψ b) (g a)) (d b a) w) (b : γ) (w : World κ ω ρ) :
    Watches letIn ψ ((as.map g).foldlM c (ψ b)) (as.foldlM d b) w := by
  induction as generalizing b w with
  | nil => exact watches_pure letIn ψ b w
  | cons a as ih =>
      rw [List.map_cons, List.foldlM_cons, List.foldlM_cons]
      refine (h a (by simp) b w).bind ?_
      intro b' w' _
      exact ih (fun a' ha' => h a' (by simp [ha'])) b' w'

/-- A loop without a result, round by round. -/
theorem watches_forM {as : List α} {g : α → β} {c : β → Run (Watched κ) ω ρ Unit}
    {d : α → Run κ ω ρ Unit} (h : ∀ a ∈ as, ∀ w, Watches letIn id (c (g a)) (d a) w)
    (w : World κ ω ρ) : Watches letIn id ((as.map g).forM c) (as.forM d) w := by
  induction as generalizing w with
  | nil => exact watches_pure letIn id () w
  | cons a as ih =>
      rw [List.map_cons]
      refine (h a (by simp) w).bind ?_
      intro _ w' _
      exact ih (fun a' ha' => h a' (by simp [ha'])) w'

/-- Steps for each element, one after the other. -/
theorem watches_mapM {γ : Type} {φ : α → β} {as : List γ} {c : γ → Run (Watched κ) ω ρ β}
    {d : γ → Run κ ω ρ α} (h : ∀ a ∈ as, ∀ w, Watches letIn φ (c a) (d a) w) (w : World κ ω ρ) :
    Watches letIn (List.map φ) (as.mapM c) (as.mapM d) w := by
  induction as generalizing w with
  | nil => exact watches_pure letIn (List.map φ) [] w
  | cons a as ih =>
      rw [List.mapM_cons, List.mapM_cons]
      refine (h a (by simp) w).bind ?_
      intro b w₁ _
      refine (ih (fun a' ha' => h a' (by simp [ha'])) w₁).bind ?_
      intro bs w₂ _
      exact watches_pure letIn (List.map φ) (b :: bs) w₂

end

/-! ## Calls -/

section

variable {letIn : String → Prop} {ls : List (Listener ω)} {plan : TestPlan}
  {parameters : Parameters} {engine : Engine κ} {w : World κ ω ρ}

/-- In a world, steps note one call, which ends as they do. -/
def NotesCall (engineId : String) (deed : Deed) (c : Run (Watched κ) ω ρ α) (d : Run κ ω ρ α)
    (w : World κ ω ρ) : Prop :=
  ∀ calls, c.on (w.watched calls) = ((d.on w).1,
    (d.on w).2.watched (calls ++ [⟨engineId, deed, Except.fault? (d.on w).1⟩]))

/-- A watched engine notes that it has been asked to discover. -/
theorem notesCall_discover (engine : Engine κ) (request : DiscoveryRequest) (id : UniqueId)
    (w : World κ ω ρ) :
    NotesCall engine.id .discover (Run.byEngine (engine.watched.discover request id))
      (Run.byEngine (engine.discover request id)) w := fun _ => rfl

/-- Listeners do not see that engines are watched. -/
theorem on_relay_watched (ls : List (Listener ω)) (plan : TestPlan) (e : NodeEvent NodeRef)
    (w : World κ ω ρ) (calls : List EngineCall) :
    (Launcher.relay ls plan e).on (w.watched calls) = (((Launcher.relay ls plan e).on w).1,
      ((Launcher.relay ls plan e).on w).2.watched calls) := rfl

/-- An engine may see the fault of a listener, and its call ends with its own fault or with none. -/
theorem notesCall_perform (engineId : String) (activity : Activity κ α) (w : World κ ω ρ) :
    NotesCall engineId .execute
      (Run.perform (Launcher.relay ls plan) (activity.watched engineId))
      (Run.perform (Launcher.relay ls plan) activity) w := by
  induction activity generalizing w with
  | done a => exact fun _ => rfl
  | fail f => exact fun _ => rfl
  | report e next ih =>
      intro calls
      rw [Run.perform, Run.perform, Activity.watched, Activity.perform, Activity.perform,
        Steps.on_bind_ok (Steps.on_outcome ..), Steps.on_bind_ok (Steps.on_outcome ..),
        on_relay_watched]
      rcases (Launcher.relay ls plan e).on w with ⟨result, w'⟩
      cases result with
      | ok u => exact ih none w' calls
      | error f => exact ih (some f) w' calls
  | look next ih => exact ih (Run.engineView w) w
  | keep s next ih => exact ih (Run.afterEngine s w)

/-- The boundary makes the same of the end of a call. -/
theorem on_guarded_watched (what : String) (result : Except Fault α) (calls : List EngineCall) :
    (Resolution.guarded engine.watched what (Steps.ofExcept result)).on (w.watched calls)
      = (((Resolution.guarded engine what (Steps.ofExcept result)).on w).1,
          ((Resolution.guarded engine what (Steps.ofExcept result)).on w).2.watched calls) := by
  cases result with
  | ok a => rfl
  | error f =>
      rw [Resolution.guarded_error, Resolution.guarded_error]
      by_cases hf : f.isException = true
      · rw [if_pos hf, if_pos hf, Resolution.contain, Resolution.contain, rethrowUnrecoverable]
        cases f.isUnrecoverable <;> rfl
      · rw [if_neg hf, if_neg hf]
        rfl

/-- What is called behind the boundary is let in, and what escapes from it comes out. -/
theorem NotesCall.guarded {deed : Deed} {what : String} {c : Run (Watched κ) ω ρ α}
    {d : Run κ ω ρ α} (h : NotesCall engine.id deed c d w) (hlet : letIn engine.id) :
    Watches letIn id (Resolution.guarded engine.watched what c)
      (Resolution.guarded engine what d) w := by
  intro calls
  refine ⟨[⟨engine.id, deed, Except.fault? (d.on w).1⟩], ?_, ?_, ?_⟩
  · rw [Resolution.on_guarded, h calls, on_guarded_watched, ← Resolution.on_guarded,
      Except.map_id, id]
  · rintro call hcall
    rw [List.mem_singleton.mp hcall]
    exact hlet
  · rintro call hcall f hf hescapes
    rw [List.mem_singleton.mp hcall] at hf
    rcases hd : d.on w with ⟨result, w'⟩
    rw [hd] at hf
    cases result with
    | ok a => cases hf
    | error g =>
        cases hf
        rw [Resolution.on_guarded_escapes hd hescapes]
        rfl

end

/-! ## Resolving requests -/

namespace Resolution

variable {letIn : String → Prop} {strict : Bool} {phase : Phase} {rooted : RootedRequest}
  {engine : Engine κ} {r : Resolution κ}

/-- Asking an engine for its root, which lets it in. -/
theorem watches_discoverRoot (hlet : letIn engine.id) (w : World κ ω ρ) :
    Watches letIn id (discoverRoot strict engine.watched rooted)
      (discoverRoot strict engine rooted) w := by
  rw [discoverRoot, discoverRoot]
  refine watches_get fun calls => (watches_ofExcept letIn _ w).bind ?_
  intro id w₁ _
  refine ((notesCall_discover engine rooted.request id w₁).guarded hlet).bind ?_
  intro found w₂ _
  rcases found with _ | _ | root
  · exact watches_pure letIn _ none w₂
  · cases strict with
    | true => exact watches_throw letIn _ _ w₂
    | false =>
        refine (watches_log letIn _ w₂).bind ?_
        exact fun _ w₃ _ => watches_pure letIn _ none w₃
  · exact watches_pure letIn _ (some root) w₂

/-- Adding a root calls no engine. -/
theorem watches_addRoot (letIn : String → Prop) (r : Resolution κ) (engine : Engine κ)
    (root : NodeRef) (w : World κ ω ρ) :
    Watches letIn watched (addRoot r.watched engine.watched root) (addRoot r engine root) w := by
  have hsuite : r.watched.suite? = r.suite? := rfl
  have hadded : { r.watched with roots := r.watched.roots ++ [(engine.watched, root)] }
      = watched { r with roots := r.roots ++ [(engine, root)] } := by
    rw [watched, watched, List.map_append]
    rfl
  rw [addRoot, addRoot, hadded, hsuite]
  cases r.suite? with
  | none => exact watches_pure letIn watched _ w
  | some suite =>
      refine (watches_onForest letIn _ w).bind ?_
      exact fun _ w₁ _ => watches_pure letIn watched _ w₁

/-- An engine that a filter excludes is not called. -/
theorem watches_addEngine
    (hlet : excludes rooted.request.engineFilters engine.id = .ok false → letIn engine.id)
    (r : Resolution κ) (w : World κ ω ρ) :
    Watches letIn watched (addEngine phase strict rooted r.watched engine.watched)
      (addEngine phase strict rooted r engine) w := by
  rw [addEngine, addEngine]
  refine (watches_ofExcept letIn (excludes rooted.request.engineFilters engine.id) w).bind ?_
  intro excluded w₁ hexcluded
  rw [Steps.on_ofExcept] at hexcluded
  injection hexcluded with hexcluded
  cases excluded with
  | true =>
      refine (watches_log letIn _ w₁).bind ?_
      exact fun _ w₂ _ => watches_pure letIn watched r w₂
  | false =>
      refine (watches_log letIn _ w₁).bind ?_
      intro _ w₂ _
      refine (watches_discoverRoot (hlet hexcluded) w₂).bind ?_
      intro root? w₃ _
      cases root? with
      | none => exact watches_pure letIn watched r w₃
      | some root => exact watches_addRoot letIn r engine root w₃

/-- Filtering trees calls no engine. -/
theorem watches_sift (letIn : String → Prop) (filters : List NodeFilter) (r : Resolution κ)
    (w : World κ ω ρ) : Watches letIn id (sift filters r.watched) (sift filters r) w := by
  rw [sift, sift]
  refine (watches_ofExcept letIn _ w).bind ?_
  intro filter w₁ _
  exact watches_forM (fun e _ => watches_onForest letIn (Forest.sift filter e.2)) w₁

/-- Pruning trees calls no engine. -/
theorem watches_prune (letIn : String → Prop) (r : Resolution κ) (w : World κ ω ρ) :
    Watches letIn id (prune r.watched) (prune r) w :=
  watches_forM (fun e _ => watches_onForest letIn (Forest.prune e.2).first) w

/-- Resolving a request calls the engines that its filters let in. -/
theorem watches_ofRequest {engines : List (Engine κ)}
    (hlet : ∀ e ∈ engines, excludes rooted.request.engineFilters e.id = .ok false → letIn e.id)
    (w : World κ ω ρ) :
    Watches letIn watched (ofRequest (engines.map Engine.watched) strict phase rooted)
      (ofRequest engines strict phase rooted) w := by
  rw [ofRequest, ofRequest]
  refine watches_get fun calls => ?_
  refine (watches_foldlM (fun e he => watches_addEngine (hlet e he)) (start rooted w) w).bind ?_
  intro r w₁ _
  refine (watches_sift letIn _ r w₁).bind ?_
  intro _ w₂ _
  refine (watches_prune letIn r w₂).bind ?_
  exact fun _ w₃ _ => watches_pure letIn watched r w₃

/-- The roots for a plan are the same with watched engines. -/
theorem planRoots_watched (r : Resolution κ) : r.watched.planRoots = r.planRoots := by
  rw [planRoots, planRoots, watched, List.map_map]
  rfl

/-- Making a plan of resolutions calls no engine. -/
theorem watches_assemble (letIn : String → Prop) (rs : List (Resolution κ)) (w : World κ ω ρ) :
    Watches letIn id (assemble (rs.map watched)) (assemble rs) w := by
  have hroots : allRoots (rs.map watched) = allRoots rs := by
    rw [allRoots, allRoots, List.flatMap_map]
    simp only [planRoots_watched]
  rw [assemble, assemble, hroots]
  exact watches_get fun calls => watches_ofExcept letIn _ w

end Resolution

namespace Expansion

variable (letIn : String → Prop) (request : DiscoveryRequest)

/-- Expanding a suite calls no engine. -/
theorem watches_addSuite (done : Expanded) (d : SuiteDeclaration) (w : World κ ω ρ) :
    Watches letIn id (addSuite request done d) (addSuite request done d) w := by
  rw [addSuite, addSuite]
  split
  · exact watches_pure letIn id done w
  · refine Watches.bind (φ := id) ?_ (fun q w₁ _ => watches_pure letIn id _ w₁)
    rw [expand, expand]
    refine (watches_log letIn _ w).bind ?_
    intro _ w₁ _
    refine (watches_onForest letIn _ w₁).bind ?_
    exact fun suite w₂ _ => watches_pure letIn id _ w₂

/-- Expanding the suites that a selector reaches calls no engine. -/
theorem watches_addReached (resolver : SuiteResolver ρ) (done : Expanded) (s : Selector)
    (w : World κ ω ρ) :
    Watches letIn id (addReached resolver request done s) (addReached resolver request done s)
      w := by
  rw [addReached, addReached]
  refine (watches_byResolver letIn (resolver.suitesFor s) w).bind ?_
  intro ds w₁ _
  rw [← List.map_id (id ds)]
  exact watches_foldlM (fun d _ done => watches_addSuite letIn request done d) done w₁

/-- Expanding a request calls no engine. -/
theorem watches_ofRequest (resolver? : Option (SuiteResolver ρ)) (w : World κ ω ρ) :
    Watches letIn id (ofRequest resolver? request) (ofRequest resolver? request) w := by
  cases resolver? with
  | none => exact watches_pure letIn id [] w
  | some resolver =>
      have hreached := watches_foldlM
        (fun s (_ : s ∈ request.selectors) done => watches_addReached letIn request resolver done s)
        ({} : Expanded) w
      rw [List.map_id'] at hreached
      exact hreached.bind fun done w₁ _ => watches_pure letIn id done.rooted w₁

end Expansion

/-! ## Who is let in -/

namespace Resolution

/-- What is found is found by engines that are let in. -/
theorem letIn_of_mem_finds {phase : Phase} {strict : Bool} {rooted : RootedRequest}
    {engines : List (Engine κ)} {r : Resolution κ} {w : World κ ω ρ} {x : Find κ}
    (hx : x ∈ finds phase strict rooted engines r w) :
    excludes rooted.request.engineFilters x.engine.id = .ok false := by
  induction engines generalizing r w with
  | nil => exact absurd hx List.not_mem_nil
  | cons e es ih =>
      rw [finds] at hx
      rcases List.mem_append.mp hx with hx | hx
      · have hfound := Option.mem_toList.mp hx
        rw [engine_of_find? hfound]
        rw [find?] at hfound
        split at hfound
        · assumption
        · cases hfound
      · split at hx
        · exact ih hx
        · exact absurd hx List.not_mem_nil

/-- The engines of a resolution are let in. -/
theorem letIn_of_mem_roots {phase : Phase} {strict : Bool} {rooted : RootedRequest}
    {engines : List (Engine κ)} {r : Resolution κ} {w w' : World κ ω ρ}
    (h : (ofRequest engines strict phase rooted).on w = (.ok r, w')) {e : Engine κ × NodeRef}
    (he : e ∈ r.roots) : excludes rooted.request.engineFilters e.1.id = .ok false := by
  obtain ⟨w₁, _, hfold, -, -⟩ := ofRequest_eq_ok_iff.mp h
  have hr : r = (start rooted w).plus _ := addEngines_plus hfold
  rw [hr, plus, start, List.nil_append] at he
  obtain ⟨x, hx, rfl⟩ := List.mem_map.mp he
  exact letIn_of_mem_finds hx

end Resolution

/-- The filters of a request let an engine in. -/
def DiscoveryRequest.Admits (request : DiscoveryRequest) (engineId : String) : Prop :=
  Resolution.excludes request.engineFilters engineId = .ok false

/-- Whatever the requests of its suites let in, the request lets in. -/
theorem Expansion.admits_of_further {resolver? : Option (SuiteResolver ρ)}
    {request : DiscoveryRequest} {further : List RootedRequest} {w w' : World κ ω ρ}
    (h : (ofRequest resolver? request).on w = (.ok further, w')) {q : RootedRequest}
    (hq : q ∈ ⟨request, none⟩ :: further) {engineId : String}
    (hadmits : q.request.Admits engineId) : request.Admits engineId := by
  obtain ⟨-, done, rfl, hplanned⟩ := ofRequest_eq_ok h
  rcases List.mem_cons.mp hq with rfl | hq
  · exact hadmits
  · obtain ⟨d, -, hnested⟩ := hplanned.exists_nested hq
    rw [hnested] at hadmits
    exact Resolution.excludes_of_subset (List.subset_append_left ..) hadmits

/-- The engines of all resolutions of a request are let in by the request. -/
theorem Launcher.admits_of_resolve {l : Launcher κ ω ρ} {phase : Phase}
    {request : DiscoveryRequest} {rs : List (Resolution κ)} {w w' : World κ ω ρ}
    (h : (l.resolve phase request).on w = (.ok rs, w')) {r : Resolution κ} (hr : r ∈ rs)
    {e : Engine κ × NodeRef} (he : e ∈ r.roots) : request.Admits e.1.id := by
  obtain ⟨further, w₁, hexpand, h⟩ := Steps.on_bind_eq_ok h
  obtain ⟨q, hq, s₁, s₂, hresolved⟩ := Steps.exists_of_mem_mapM h hr
  exact Expansion.admits_of_further hexpand hq (Resolution.letIn_of_mem_roots hresolved he)

/-! ## The launcher with watched engines -/

namespace Launcher

section

variable {letIn : String → Prop} {ls : List (Listener ω)} {plan : TestPlan}
  {parameters : Parameters} {l : Launcher κ ω ρ}

/-- Resolving a request and those of its suites calls the engines that the request lets in. -/
theorem watches_resolve (phase : Phase) (request : DiscoveryRequest) (w : World κ ω ρ) :
    Watches request.Admits (List.map Resolution.watched) (l.watched.resolve phase request)
      (l.resolve phase request) w := by
  refine (Expansion.watches_ofRequest request.Admits request l.resolver? w).bind ?_
  intro further w₁ hexpand
  refine watches_mapM ?_ w₁
  intro q hq w₂
  exact Resolution.watches_ofRequest
    (fun e _ hadmits => Expansion.admits_of_further hexpand hq hadmits) w₂

/-- Executing the tree of an engine calls it. -/
theorem watches_executeEngine {engine : Engine κ} (hlet : letIn engine.id) (root : NodeRef)
    (w : World κ ω ρ) :
    Watches letIn id (executeEngine ls plan parameters engine.watched root)
      (executeEngine ls plan parameters engine root) w := by
  rw [executeEngine, executeEngine]
  refine (watches_log letIn _ w).bind ?_
  intro _ w₁ _
  refine ((notesCall_perform engine.id (engine.execute root parameters) w₁).guarded hlet).bind ?_
  exact fun _ w₂ _ => watches_pure letIn id () w₂

/-- Executing a resolution calls its engines. -/
theorem watches_executeResolution {r : Resolution κ} (hlet : ∀ e ∈ r.roots, letIn e.1.id)
    (w : World κ ω ρ) :
    Watches letIn id (executeResolution ls plan parameters r.watched)
      (executeResolution ls plan parameters r) w := by
  have hengines : ∀ w : World κ ω ρ, Watches letIn id
      (r.watched.roots.forM fun e => executeEngine ls plan parameters e.1 e.2)
      (r.roots.forM fun e => executeEngine ls plan parameters e.1 e.2) w :=
    watches_forM fun e he => watches_executeEngine (hlet e he) e.2
  have hsuite : r.watched.suiteIdentifier? = r.suiteIdentifier? := rfl
  rw [executeResolution, executeResolution, hsuite]
  cases r.suiteIdentifier? with
  | none => exact (hengines w).bind fun _ w₁ _ => watches_pure letIn id () w₁
  | some suite =>
      refine (watches_byListeners letIn _ w).bind ?_
      intro _ w₁ _
      refine (hengines w₁).bind ?_
      exact fun _ w₂ _ => watches_byListeners letIn _ w₂

/-- Executing resolutions calls their engines. -/
theorem watches_dispatch {rs : List (Resolution κ)}
    (hlet : ∀ r ∈ rs, ∀ e ∈ r.roots, letIn e.1.id) (w : World κ ω ρ) :
    Watches letIn id (dispatch ls parameters (rs.map Resolution.watched))
      (dispatch ls parameters rs) w := by
  rw [dispatch, dispatch]
  refine (Resolution.watches_assemble letIn rs w).bind ?_
  intro plan w₁ _
  refine (watches_byListeners letIn _ w₁).bind ?_
  intro _ w₂ _
  refine (watches_forM (fun r hr => watches_executeResolution (hlet r hr)) w₂).bind ?_
  exact fun _ w₃ _ => watches_byListeners letIn _ w₃

/-- Making a plan calls the engines that the request lets in. -/
theorem watches_discover (request : DiscoveryRequest) (w : World κ ω ρ) :
    Watches request.Admits id (l.watched.discover (some request)) (l.discover (some request))
      w := by
  rw [discover, discover]
  refine (watches_ofExcept request.Admits (.ok request) w).bind ?_
  intro request' w₁ hrequest
  cases hrequest
  refine (watches_resolve .discovery request w).bind ?_
  exact fun rs w₂ _ => Resolution.watches_assemble request.Admits rs w₂

/-- Executing a request calls the engines that it lets in. -/
theorem watches_execute (request : DiscoveryRequest) (more : List (Option (Listener ω)))
    (w : World κ ω ρ) :
    Watches request.Admits id (l.watched.execute (some request) more)
      (l.execute (some request) more) w := by
  rw [execute, execute]
  refine (watches_ofExcept request.Admits (.ok request) w).bind ?_
  intro request' w₁ hrequest
  cases hrequest
  refine (watches_ofExcept request.Admits (Listener.register l.listeners more) w).bind ?_
  intro ls w₂ hls
  rw [Steps.on_ofExcept] at hls
  injection hls with _ hw
  subst hw
  refine (watches_resolve .execution request w).bind ?_
  intro rs w₃ hresolve
  exact watches_dispatch (fun r hr e he => admits_of_resolve hresolve hr he) w₃

end

variable (l : Launcher κ ω ρ) (request : DiscoveryRequest) (more : List (Option (Listener ω)))
  (w : World κ ω ρ)

/-- **Watching does not interfere with discovering**, and the calls heed the rules. -/
theorem on_watched_discover :
    (l.watched.discover (some request)).on (w.watched [])
        = (((l.discover (some request)).on w).1,
            ((l.discover (some request)).on w).2.watched (l.discoverCalls (some request) w)) ∧
      Heeds request.Admits (l.discoverCalls (some request) w)
        (Except.fault? ((l.discover (some request)).on w).1) :=
  (watches_discover request w).on_watched

/-- **Watching does not interfere with executing**, and the calls heed the rules. -/
theorem on_watched_execute :
    (l.watched.execute (some request) more).on (w.watched [])
        = (((l.execute (some request) more).on w).1,
            ((l.execute (some request) more).on w).2.watched
              (l.executeCalls (some request) more w)) ∧
      Heeds request.Admits (l.executeCalls (some request) more w)
        (Except.fault? ((l.execute (some request) more).on w).1) :=
  (watches_execute request more w).on_watched

end Launcher

end TestLauncher
