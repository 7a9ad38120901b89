import TestLauncher.Proofs.Calls.Watched
import TestLauncher.Proofs.Discovery.Agreement
import TestLauncher.Proofs.Engine.Catalogue
import TestLauncher.Proofs.Plan.Owners

/-! # Engines that a request excludes

    The requests of suites come with the filters of the request they belong to, in front of
    their own.  So an engine that a filter of the request excludes stays out of the whole
    call, whatever its suites let in (`excluded_engine_untouched`): it is never called, it
    has no tree in any resolution, and nothing in the plan belongs to it.  What such an
    engine would do makes no difference (`resolve_idling`). -/

namespace TestLauncher

variable {κ ω ρ : Type}

/-- A filter that excludes an engine keeps the whole request from letting it in. -/
theorem DiscoveryRequest.not_admits {request : DiscoveryRequest} {filter : EngineFilter}
    (hfilter : filter ∈ request.engineFilters) {engineId : String} {v : Verdict}
    (hv : filter.verdict engineId = .ok v) (hout : v.included = false) :
    ¬request.Admits engineId := by
  intro hadmits
  obtain ⟨v', hv', hin⟩ := Resolution.excludes_eq_false_iff.mp hadmits filter hfilter
  rw [hv] at hv'
  cases hv'
  rw [hout] at hin
  cases hin

/-! ## Engines that do nothing instead -/

/-- An engine that finds nothing and executes nothing. -/
def Engine.idle (engineId : String) : Engine κ where
  id := engineId
  discover _ _ := pure none
  execute _ _ := .done ()

theorem Engine.idle_buildsFresh (engineId : String) : (idle engineId : Engine κ).BuildsFresh where
  leaves _ _ _ _ _ h := h
  fresh _ _ _ _ _ h := by cases h

theorem Engine.idle_rootsAtId (engineId : String) : (idle engineId : Engine κ).RootsAtId := by
  intro request id s r t h
  cases h

/-- The engine, or an idle one if it has the given id. -/
def Engine.idling (engineId : String) (e : Engine κ) : Engine κ :=
  if e.id = engineId then .idle engineId else e

theorem Engine.idling_id (engineId : String) (e : Engine κ) : (e.idling engineId).id = e.id := by
  rw [idling]
  split
  · symm
    assumption
  · rfl

/-- The launcher with an idle engine in place of the one with the given id. -/
def Launcher.idling (l : Launcher κ ω ρ) (engineId : String) : Launcher κ ω ρ :=
  { l with engines := l.engines.map (Engine.idling engineId) }

namespace Resolution

variable {phase : Phase} {strict : Bool} {rooted : RootedRequest} {engineId : String}

/-- An engine that is not let in is not asked, and might as well be another. -/
theorem addEngine_idling (h : ¬rooted.request.Admits engineId) (r : Resolution κ) (e : Engine κ) :
    (addEngine phase strict rooted r (e.idling engineId) : Run κ ω ρ (Resolution κ))
      = addEngine phase strict rooted r e := by
  by_cases he : e.id = engineId
  · rw [addEngine, addEngine, Engine.idling_id]
    rw [← he, DiscoveryRequest.Admits] at h
    cases hex : excludes rooted.request.engineFilters e.id with
    | error f => rw [Steps.ofExcept_error_bind, Steps.ofExcept_error_bind]
    | ok excluded =>
        cases excluded with
        | true => rw [Steps.ofExcept_ok_bind, Steps.ofExcept_ok_bind, if_pos rfl, if_pos rfl]
        | false => exact absurd hex h
  · rw [Engine.idling, if_neg he]

theorem ofRequest_idling (h : ¬rooted.request.Admits engineId) (engines : List (Engine κ)) :
    (ofRequest (engines.map (Engine.idling engineId)) strict phase rooted
        : Run κ ω ρ (Resolution κ))
      = ofRequest engines strict phase rooted := by
  rw [ofRequest, ofRequest]
  simp only [List.foldlM_map, addEngine_idling h]

theorem mapM_ofRequest_idling {qs : List RootedRequest}
    (h : ∀ q ∈ qs, ¬q.request.Admits engineId) (engines : List (Engine κ)) :
    (qs.mapM (ofRequest (engines.map (Engine.idling engineId)) strict phase)
        : Run κ ω ρ (List (Resolution κ)))
      = qs.mapM (ofRequest engines strict phase) := by
  induction qs with
  | nil => rfl
  | cons q qs ih =>
      rw [List.mapM_cons, List.mapM_cons, ofRequest_idling (h q (by simp)),
        ih fun q' hq' => h q' (by simp [hq'])]

end Resolution

namespace Launcher

variable {request : DiscoveryRequest} {engineId : String}

/-- **What an excluded engine would do makes no difference.** -/
theorem resolve_idling (l : Launcher κ ω ρ) (h : ¬request.Admits engineId) (phase : Phase)
    (w : World κ ω ρ) :
    ((l.idling engineId).resolve phase request).on w = (l.resolve phase request).on w := by
  rw [resolve, resolve, Steps.on_bind, Steps.on_bind]
  rcases hexpand : (Expansion.ofRequest l.resolver? request).on w with ⟨result, w₁⟩
  cases result with
  | error f =>
      have hexpand' : (Expansion.ofRequest (l.idling engineId).resolver? request).on w
          = (.error f, w₁) := hexpand
      rw [hexpand']
  | ok further =>
      have hexpand' : (Expansion.ofRequest (l.idling engineId).resolver? request).on w
          = (.ok further, w₁) := hexpand
      rw [hexpand']
      have hout : ∀ q ∈ (⟨request, none⟩ : RootedRequest) :: further,
          ¬q.request.Admits engineId := fun q hq hadmits =>
        h (Expansion.admits_of_further hexpand hq hadmits)
      exact congrArg (fun steps => Steps.on steps w₁)
        (Resolution.mapM_ofRequest_idling hout l.engines)

/-- Nothing in a plan belongs to an engine that the request does not let in. -/
theorem not_belongsTo {l : Launcher κ ω ρ} (hout : ¬request.Admits engineId)
    (hengines : ∀ e ∈ l.engines, e.id ≠ engineId → e.BuildsFresh ∧ e.RootsAtId) {phase : Phase}
    {rs : List (Resolution κ)} {w w' : World κ ω ρ} {plan : TestPlan}
    (hresolve : (l.resolve phase request).on w = (.ok rs, w'))
    (hplan : TestPlan.ofRoots w'.forest (Resolution.allRoots rs) = .ok plan) (i : Identifier) :
    ¬plan.BelongsTo engineId i := by
  intro hbelongs
  -- the excluded engine may do anything, but it makes no difference if it does nothing
  have hidling : ∀ e ∈ (l.idling engineId).engines, e.BuildsFresh ∧ e.RootsAtId := by
    intro e' he'
    obtain ⟨e, he, rfl⟩ := List.mem_map.mp he'
    rw [Engine.idling]
    split
    · exact ⟨Engine.idle_buildsFresh engineId, Engine.idle_rootsAtId engineId⟩
    · rename_i hne
      exact hengines e he hne
  rw [← resolve_idling l hout] at hresolve
  obtain ⟨ss, parts, rfl, -, hlaid, hholds, hnodup, hroots, -⟩ :=
    resolve_laid (fun e he => (hidling e he).1) (fun e he => (hidling e he).2) hresolve
  rw [hroots] at hplan
  have hindex := TestPlan.indexes_of_ofRoots hholds hnodup hplan
  obtain ⟨r, hr, hi⟩ := List.mem_filterMap.mp (hbelongs.mem hindex)
  obtain ⟨s, hs, x, hx, rfl, -⟩ := (hlaid.belongsTo_iff hindex hholds hnodup hr hi).mp hbelongs
  refine hout (admits_of_resolve hresolve (List.mem_map_of_mem hs) (?_ : (x.engine, x.root) ∈ _))
  exact List.mem_map_of_mem hx

/-- **An engine filter of a request binds everywhere.**  An engine that it excludes is called
    neither while a plan is made nor while the request is executed; a plan, in either phase, is
    made of resolutions without a tree of that engine, and when the other engines return fresh
    trees under the ids they are given, nothing in the plan belongs to it. -/
theorem excluded_engine_untouched (l : Launcher κ ω ρ) (request : DiscoveryRequest)
    (filter : EngineFilter) (engineId : String) (v : Verdict)
    (hfilter : filter ∈ request.engineFilters) (hv : filter.verdict engineId = .ok v)
    (hout : v.included = false) (w : World κ ω ρ) :
    (∀ c ∈ l.discoverCalls (some request) w, c.engineId ≠ engineId) ∧
    (∀ more, ∀ c ∈ l.executeCalls (some request) more w, c.engineId ≠ engineId) ∧
    ∀ phase plan w', (l.planFor phase request).on w = (.ok plan, w') →
      (∃ rs, (l.resolve phase request).on w = (.ok rs, w') ∧
        TestPlan.ofRoots w'.forest (Resolution.allRoots rs) = .ok plan ∧
        ∀ r ∈ rs, ∀ e ∈ r.roots, e.1.id ≠ engineId) ∧
      ((∀ e ∈ l.engines, e.id ≠ engineId → e.BuildsFresh ∧ e.RootsAtId) →
        ∀ i, ¬plan.BelongsTo engineId i) := by
  have hadmits := DiscoveryRequest.not_admits hfilter hv hout
  have hne : ∀ id, request.Admits id → id ≠ engineId := by
    rintro id hid rfl
    exact hadmits hid
  refine ⟨?_, ?_, ?_⟩
  · exact fun c hc => hne _ ((l.on_watched_discover request w).2.letIn c hc)
  · exact fun more c hc => hne _ ((l.on_watched_execute request more w).2.letIn c hc)
  · intro phase plan w' h
    obtain ⟨rs, hresolve, hplan⟩ := planFor_eq_ok h
    refine ⟨⟨rs, hresolve, hplan, ?_⟩, ?_⟩
    · exact fun r hr e he => hne _ (admits_of_resolve hresolve hr he)
    · exact fun hengines i => not_belongsTo hadmits hengines hresolve hplan i

/-- The sample of a suite, for one engine. -/
def suiteForFirst : SuiteTables where
  modules := SuiteTables.sample.modules.map fun ds => ds.map fun d =>
    { d with engineFilters := [.rule (.ids ⟨StringSet.ofList ["E"], .including⟩)] }

/-- Two engines over one catalogue, and a suite for the first of them. -/
def duo : Launcher Diaries Unit Unit where
  engines := [Catalogue.sample.engine 0, { Catalogue.sample with id := "F" }.engine 1]
  resolver? := some suiteForFirst.resolver

/-- A class and the suite, but without the first engine. -/
def withoutFirst : DiscoveryRequest where
  selectors := DiscoveryRequest.sample.selectors
  engineFilters := [.rule (.ids ⟨StringSet.ofList ["E"], .excluding⟩)]

/-- The suite lets the first engine in, and yet only the second is called, once in each phase; the
    plan has the tree of the second and the node of the suite. -/
theorem excluded_engine_untouched_duo :
    duo.discoverCalls (some withoutFirst) World.sample = [⟨"F", .discover, none⟩] ∧
    duo.executeCalls (some withoutFirst) [] World.sample
      = [⟨"F", .discover, none⟩, ⟨"F", .execute, none⟩] ∧
    (∀ c ∈ duo.executeCalls (some withoutFirst) [] World.sample, c.engineId ≠ "E") ∧
    ∃ plan w', (duo.planFor .discovery withoutFirst).on World.sample = (.ok plan, w') ∧
      plan.roots.map Identifier.id = ["[engine:F]", "[suite:s]"] ∧
      ∀ i, ¬plan.BelongsTo "E" i := by
  have hcalls : duo.discoverCalls (some withoutFirst) World.sample = [⟨"F", .discover, none⟩] ∧
      duo.executeCalls (some withoutFirst) [] World.sample
        = [⟨"F", .discover, none⟩, ⟨"F", .execute, none⟩] := by decide +kernel
  have hroots : (match ((duo.planFor .discovery withoutFirst).on World.sample).1 with
    | .ok plan => plan.roots.map Identifier.id
    | .error _ => []) = ["[engine:F]", "[suite:s]"] := by decide +kernel
  have hengines : ∀ e ∈ duo.engines, e.id ≠ "E" → e.BuildsFresh ∧ e.RootsAtId := by
    intro e he _
    rcases List.mem_cons.mp he with rfl | he
    · exact ⟨Catalogue.engine_buildsFresh _ _, Catalogue.engine_rootsAtId _ _⟩
    · rw [List.mem_singleton.mp he]
      exact ⟨Catalogue.engine_buildsFresh _ _, Catalogue.engine_rootsAtId _ _⟩
  obtain ⟨-, hexecute, hplans⟩ := excluded_engine_untouched duo withoutFirst
    (.rule (.ids ⟨StringSet.ofList ["E"], .excluding⟩)) "E" _ (List.mem_singleton.mpr rfl) rfl
    (by decide +kernel) World.sample
  rcases hplan : (duo.planFor .discovery withoutFirst).on World.sample with ⟨result, w'⟩
  rw [hplan] at hroots
  cases result with
  | error f => cases hroots
  | ok plan =>
      exact ⟨hcalls.1, hcalls.2, hexecute [], plan, w', rfl, hroots,
        (hplans .discovery plan w' hplan).2 hengines⟩

end Launcher

end TestLauncher
