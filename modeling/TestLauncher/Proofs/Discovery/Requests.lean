import TestLauncher.Launcher
import TestLauncher.Proofs.Discovery.Expansion

/-! # A request and those of its suites

    The launcher resolves a request and then, one after the other, those of its suites.
    Each finds trees (`surveys`), and none touches what another left: at the end everything
    that is left stands side by side, in the order of the requests, and the trees of a suite
    below its node (`resolve_eq_ok`). -/

namespace TestLauncher

/-- A request, and what engines found for it. -/
structure Survey (κ : Type) where
  rooted : RootedRequest
  finds : List (Find κ)

namespace Resolution

variable {κ ω ρ : Type}

/-! ## What one request leaves behind -/

section

variable {filters : List NodeFilter} {f₀ f f' : Forest} {suite? : Option NodeRef}
  {xs : List (Find κ)} {g : Grove NodeRef}

theorem Settled.roots (h : Settled filters f₀ suite? xs f f' g) : g.roots = xs.map Find.root := by
  obtain ⟨filter, v, g', -, -, hg', hg⟩ := h.sifted
  rw [Grove.roots_thinBelow hg, Grove.roots_thinBelow hg', Find.roots_grove]

theorem Settled.sublist (h : Settled filters f₀ suite? xs f f' g) :
    g.toList.Sublist (Find.grove xs).toList := by
  obtain ⟨filter, v, g', -, -, hg', hg⟩ := h.sifted
  exact (Grove.sublist_thinBelow hg).trans (Grove.sublist_thinBelow hg')

theorem Settled.fresh (h : Settled filters f₀ suite? xs f f' g) {r : NodeRef}
    (hr : r ∈ g.toList) : f₀.size ≤ r.index :=
  h.planted.fresh r (h.sublist.mem hr)

/-- Every node that was there before is as it was, except for the suite's. -/
theorem Settled.old (h : Settled filters f₀ suite? xs f f' g) {r : NodeRef}
    (hr : r.index < f₀.size) (hs : suite? ≠ some r) : f'.node? r = f₀.node? r := by
  have hout : r ∉ (Find.grove xs).toList := fun hmem =>
    absurd (h.planted.fresh r hmem) (Nat.not_le_of_lt hr)
  rw [h.frame r hout, h.planted.frame r hr hs]

/-- The trees of a suite stand below its node. -/
theorem Settled.suite {p : NodeRef} (h : Settled filters f₀ (some p) xs f f' g) :
    p.index < f₀.size ∧ f'.bare? p = f₀.bare? p ∧ f'.Holds none (.tree p g) := by
  obtain ⟨hlt, hbare, hstands⟩ := h.planted.suite p rfl
  have hout : p ∉ (Find.grove xs).toList := fun hmem =>
    absurd (h.planted.fresh p hmem) (Nat.not_le_of_lt hlt)
  refine ⟨hlt, (h.bare p).trans hbare, Forest.holds_tree.mpr ⟨?_, h.holds⟩⟩
  rw [h.roots, ← Find.roots_grove]
  exact hstands.congr (h.frame p hout) fun c _ => h.bare c

end

/-! ## Several requests -/

/-- Trees, below the node of a suite if there is one. -/
def topped (suite? : Option NodeRef) (g : Grove NodeRef) : Grove NodeRef :=
  match suite? with
  | none => g
  | some p => .tree p g

theorem mem_topped {suite? : Option NodeRef} {g : Grove NodeRef} {r : NodeRef} :
    r ∈ (topped suite? g).toList ↔ suite? = some r ∨ r ∈ g.toList := by
  cases suite? with
  | none => simp [topped]
  | some p =>
      show r ∈ (Grove.tree p g).toList ↔ _
      rw [Grove.mem_tree, Option.some.injEq, eq_comm]

theorem holds_of_topped {f : Forest} {suite? : Option NodeRef} {g : Grove NodeRef}
    (h : f.Holds none (topped suite? g)) : f.Holds suite? g := by
  cases suite? with
  | none => exact h
  | some p => exact (Forest.holds_tree.mp h).2

/-- What engines find for requests, each resolved in the world the ones before it leave. -/
def surveys (phase : Phase) (strict : Bool) (engines : List (Engine κ)) :
    List RootedRequest → World κ ω ρ → List (Survey κ)
  | [], _ => []
  | q :: qs, w => ⟨q, finds phase strict q engines (start q w) w⟩ ::
      match (ofRequest engines strict phase q).on w with
      | (.ok _, w) => surveys phase strict engines qs w
      | (.error _, _) => []

end Resolution

namespace Resolution

variable {κ ω ρ : Type} {strict : Bool} {phase : Phase} {engines : List (Engine κ)}

/-- What is found is found by the engines there are. -/
theorem engine_mem_of_surveys {qs : List RootedRequest} {w : World κ ω ρ} {s : Survey κ}
    {x : Find κ} (hs : s ∈ surveys phase strict engines qs w) (hx : x ∈ s.finds) :
    x.engine ∈ engines := by
  induction qs generalizing w with
  | nil => exact absurd hs List.not_mem_nil
  | cons q qs ih =>
      rw [surveys] at hs
      rcases List.mem_cons.mp hs with rfl | hs
      · exact (engine_finds_sublist engines (start q w) w).mem (List.mem_map_of_mem hx)
      · split at hs
        · exact ih hs
        · exact absurd hs List.not_mem_nil

end Resolution

namespace Survey

variable {κ : Type}

/-- The resolution of a request, by what engines found for it. -/
def resolution (f : Forest) (s : Survey κ) : Resolution κ where
  suite? := s.rooted.suite?
  suiteIdentifier? := s.rooted.suite?.bind f.identifier?
  roots := s.finds.map fun x => (x.engine, x.root)

/-- Trees are what is left, in a forest, of those that were found for a request. -/
def Left (f : Forest) (s : Survey κ) (part : Grove NodeRef) : Prop :=
  ∃ f₀ f₁ f₂ g,
    Resolution.Settled s.rooted.request.nodeFilters f₀ s.rooted.suite? s.finds f₁ f₂ g ∧
      part = Resolution.topped s.rooted.suite? g ∧ ∀ r ∈ part.toList, f.node? r = f₂.node? r

theorem Left.roots {f : Forest} {s : Survey κ} {part : Grove NodeRef} (h : s.Left f part) :
    part.roots = (s.resolution f).planRoots := by
  obtain ⟨f₀, f₁, f₂, g, hg, rfl, -⟩ := h
  rw [Resolution.planRoots, resolution]
  cases s.rooted.suite? with
  | none =>
      show g.roots = (s.finds.map fun x => (x.engine, x.root)).map Prod.snd
      rw [hg.roots, List.map_map]
      rfl
  | some p => rfl

/-- What is surveyed is the first request or one of the others. -/
theorem rooted_eq_or_mem {ss : List (Survey κ)} {q : RootedRequest} {qs : List RootedRequest}
    {s : Survey κ} (h : ss.map rooted = q :: qs) (hs : s ∈ ss) : s.rooted = q ∨ s.rooted ∈ qs := by
  have hmem := List.mem_map_of_mem (f := rooted) hs
  rw [h] at hmem
  exact List.mem_cons.mp hmem

/-- A plan is made of the roots of what is left. -/
theorem allRoots_eq {f : Forest} {ss : List (Survey κ)} {parts : List (Grove NodeRef)}
    (h : List.Forall₂ (Left f) ss parts) :
    Resolution.allRoots (ss.map (resolution f)) = (Grove.row parts).roots := by
  rw [Resolution.allRoots, Grove.roots_row]
  induction h with
  | nil => rfl
  | cons hs _ ih => rw [List.map_cons, List.flatMap_cons, List.flatMap_cons, ih, hs.roots]

end Survey

namespace Resolution

variable {κ ω ρ : Type} {strict : Bool} {phase : Phase} {engines : List (Engine κ)}

/-- What one request leaves stands, and its nodes are new but for the node of the suite. -/
theorem Settled.holds_topped {filters : List NodeFilter} {f₀ f f' : Forest}
    {suite? : Option NodeRef} {xs : List (Find κ)} {g : Grove NodeRef}
    (h : Settled filters f₀ suite? xs f f' g) :
    f'.Holds none (topped suite? g) ∧ (topped suite? g).toList.Nodup ∧
      ∀ r ∈ (topped suite? g).toList, f₀.size ≤ r.index ∨ suite? = some r := by
  have hng : g.toList.Nodup := h.planted.nodup.sublist h.sublist
  cases suite? with
  | none => exact ⟨h.holds, hng, fun r hr => Or.inl (h.fresh hr)⟩
  | some p =>
      obtain ⟨hplt, -, hp⟩ := h.suite
      refine ⟨hp, ?_, ?_⟩
      · refine Grove.nodup_tree.mpr ⟨?_, hng⟩
        intro hmem
        exact absurd (h.fresh hmem) (Nat.not_le_of_lt hplt)
      · intro r hr
        rcases mem_topped.mp hr with hr | hr
        · exact Or.inr hr
        · exact Or.inl (h.fresh hr)

/-- What one request leaves stands beside everything that stood before. -/
theorem Settled.beside {filters : List NodeFilter} {f₀ f f' : Forest} {suite? : Option NodeRef}
    {xs : List (Find κ)} {g g₀ : Grove NodeRef} {ps : List NodeRef}
    (h : Settled filters f₀ suite? xs f f' g)
    (hg : f₀.Holds none (g₀ ++ .leaves (suite?.toList ++ ps)))
    (hn : (g₀ ++ Grove.leaves (suite?.toList ++ ps)).toList.Nodup) :
    f'.Holds none (g₀ ++ topped suite? g ++ .leaves ps) ∧
      (g₀ ++ topped suite? g ++ Grove.leaves ps).toList.Nodup ∧
      (∀ r, r ∈ g₀.toList ∨ r ∈ ps → f'.node? r = f₀.node? r) ∧
      ∀ p, suite? = some p → f'.bare? p = f₀.bare? p := by
  rw [Grove.leaves_append, Forest.holds_append, Forest.holds_append] at hg
  obtain ⟨hg₀, -, hps⟩ := hg
  simp only [Grove.toList_append, Grove.toList_leaves] at hn
  rw [List.nodup_append', List.nodup_append'] at hn
  obtain ⟨hn₀, ⟨-, hnps, hsps⟩, hdis⟩ := hn
  -- what stood before has earlier nodes than what is new
  have hlt : ∀ r, r ∈ g₀.toList ∨ r ∈ ps → r.index < f₀.size := by
    rintro r (hr | hr)
    · exact Forest.index_lt_of_holds hg₀ hr
    · exact Forest.index_lt_of_holds hps (by rw [Grove.toList_leaves]; exact hr)
  have hne : ∀ r, r ∈ g₀.toList ∨ r ∈ ps → suite? ≠ some r := by
    rintro r (hr | hr) hs
    · exact hdis hr (by simp [hs])
    · exact hsps (by simp [hs]) hr
  have hold : ∀ r, r ∈ g₀.toList ∨ r ∈ ps → f'.node? r = f₀.node? r := fun r hr =>
    h.old (hlt r hr) (hne r hr)
  obtain ⟨hpart, hnpart, hnew⟩ := h.holds_topped
  have hapart : ∀ r, r ∈ g₀.toList ∨ r ∈ ps → r ∉ (topped suite? g).toList := by
    intro r hr hmem
    rcases hnew r hmem with hle | hs
    · exact absurd hle (Nat.not_le_of_lt (hlt r hr))
    · exact hne r hr hs
  refine ⟨?_, ?_, hold, ?_⟩
  · rw [Forest.holds_append, Forest.holds_append]
    refine ⟨⟨?_, hpart⟩, ?_⟩
    · exact Forest.holds_congr (fun r hr => hold r (Or.inl hr)) hg₀
    · refine Forest.holds_congr (fun r hr => hold r (Or.inr ?_)) hps
      rwa [Grove.toList_leaves] at hr
  · simp only [Grove.toList_append, Grove.toList_leaves]
    rw [List.nodup_append', List.nodup_append']
    refine ⟨⟨hn₀, hnpart, fun r hr => hapart r (Or.inl hr)⟩, hnps, ?_⟩
    intro r hr hrps
    rcases List.mem_append.mp hr with hr | hr
    · exact hdis hr (List.mem_append_right _ hrps)
    · exact hapart r (Or.inr hrps) hr
  · intro p hp
    subst hp
    exact h.suite.2.1

theorem filterMap_suite_cons (q : RootedRequest) (qs : List RootedRequest) :
    (q :: qs).filterMap RootedRequest.suite?
      = q.suite?.toList ++ qs.filterMap RootedRequest.suite? := by
  rw [List.filterMap_cons]
  cases q.suite? <;> rfl

/-- Requests that are resolved are surveyed, each once and in order. -/
theorem rooted_surveys {qs : List RootedRequest} {w w' : World κ ω ρ} {rs : List (Resolution κ)}
    (h : (qs.mapM (ofRequest engines strict phase)).on w = (.ok rs, w')) :
    (surveys phase strict engines qs w).map Survey.rooted = qs := by
  induction qs generalizing w rs with
  | nil => rfl
  | cons q qs ih =>
      rw [List.mapM_cons] at h
      obtain ⟨r, w₁, hq, h⟩ := Steps.on_bind_eq_ok h
      obtain ⟨rs', w₂, hqs, h⟩ := Steps.on_bind_eq_ok h
      cases h
      rw [surveys, hq, List.map_cons]
      exact congrArg (q :: ·) (ih hqs)

/-- **Requests one after the other.**  What each leaves stands, and nothing that stood before has
    changed but for what was put below the nodes of suites. -/
theorem mapM_ofRequest_eq_ok (hfresh : ∀ e ∈ engines, e.BuildsFresh) {qs : List RootedRequest} :
    ∀ {w w' : World κ ω ρ} {rs : List (Resolution κ)} {g₀ : Grove NodeRef},
      w.forest.Holds none (g₀ ++ .leaves (qs.filterMap RootedRequest.suite?)) →
      (g₀ ++ Grove.leaves (qs.filterMap RootedRequest.suite?)).toList.Nodup →
      (qs.mapM (ofRequest engines strict phase)).on w = (.ok rs, w') →
      ∃ parts, List.Forall₂ (Survey.Left w'.forest) (surveys phase strict engines qs w) parts ∧
        w'.forest.Holds none (g₀ ++ .row parts) ∧ (g₀ ++ Grove.row parts).toList.Nodup ∧
        rs = (surveys phase strict engines qs w).map (Survey.resolution w'.forest) ∧
        (∀ r ∈ g₀.toList, w'.forest.node? r = w.forest.node? r) ∧
        ∀ p ∈ qs.filterMap RootedRequest.suite?, w'.forest.bare? p = w.forest.bare? p := by
  induction qs with
  | nil =>
      intro w w' rs g₀ hg hn h
      cases h
      exact ⟨[], .nil, hg, hn, rfl, fun _ _ => rfl, fun p hp => absurd hp List.not_mem_nil⟩
  | cons q qs ih =>
      intro w w' rs g₀ hg hn h
      rw [List.mapM_cons] at h
      obtain ⟨r, w₁, hq, h⟩ := Steps.on_bind_eq_ok h
      obtain ⟨rs', w₂, hqs, h⟩ := Steps.on_bind_eq_ok h
      cases h
      rw [filterMap_suite_cons] at hg hn
      have hbare : ∀ p, q.suite? = some p → w.forest.Stands p none [] := by
        intro p hp
        rw [Forest.holds_append, Forest.holds_leaves] at hg
        exact hg.2 p (List.mem_append_left _ (by simp [hp]))
      -- what the first request leaves joins what stood before, and the rest goes on from there
      obtain ⟨hr, f, g, hsettled⟩ := ofRequest_eq_ok hfresh hbare hq
      obtain ⟨hg₁, hn₁, hold, hsuite⟩ := hsettled.beside hg hn
      obtain ⟨parts, hparts, hg', hn', hrs, hframe, hbare'⟩ := ih hg₁ hn₁ hqs
      have hsurveys : surveys phase strict engines (q :: qs) w
          = ⟨q, finds phase strict q engines (start q w) w⟩ ::
            surveys phase strict engines qs w₁ := by
        rw [surveys, hq]
      -- the requests after it leave its trees as they are
      have hpart : ∀ r ∈ (topped q.suite? g).toList, w'.forest.node? r = w₁.forest.node? r := by
        intro r hr
        refine hframe r ?_
        rw [Grove.toList_append]
        exact List.mem_append_right _ hr
      have hp : ∀ p, q.suite? = some p → w'.forest.bare? p = w.forest.bare? p := by
        intro p hp
        exact (Forest.bare?_congr (hpart p (mem_topped.mpr (Or.inl hp)))).trans (hsuite p hp)
      rw [hsurveys]
      refine ⟨topped q.suite? g :: parts, .cons ⟨_, f, w₁.forest, g, hsettled, rfl, hpart⟩ hparts,
        ?_, ?_, ?_, ?_, ?_⟩
      · rw [Grove.append_assoc] at hg'
        exact hg'
      · rw [Grove.append_assoc] at hn'
        exact hn'
      · rw [List.map_cons, ← hrs, hr, plus, start]
        congr 1
        rw [Survey.resolution]
        congr 1
        cases hs : q.suite? with
        | none => rfl
        | some p =>
            -- the node of the suite is a root before and after
            show w.forest.identifier? p = w'.forest.identifier? p
            have hp₁ : w₁.forest.Stands p none g.roots := by
              rw [hs, Forest.holds_append, Forest.holds_append] at hg₁
              exact (Forest.holds_tree.mp hg₁.1.2).1
            have hparent : w'.forest.parent? p = none := by
              rw [Forest.parent?, hpart p (mem_topped.mpr (Or.inl hs))]
              exact hp₁.parent
            exact (Forest.identifier?_of_root (hp p hs) (hbare p hs).parent hparent).symm
      · intro r hr
        have hmem : r ∈ (g₀ ++ topped q.suite? g).toList := by
          rw [Grove.toList_append]
          exact List.mem_append_left _ hr
        rw [hframe r hmem, hold r (Or.inl hr)]
      · intro p hmem
        rw [filterMap_suite_cons] at hmem
        rcases List.mem_append.mp hmem with hmem | hmem
        · exact hp p (Option.mem_toList.mp hmem)
        · rw [hbare' p hmem, Forest.bare?_congr (hold p (Or.inr hmem))]

/-- What was found for one of several requests was found when that one was resolved; the node of
    its suite was then as it had been at the start. -/
theorem exists_run_of_surveys (hfresh : ∀ e ∈ engines, e.BuildsFresh) {qs : List RootedRequest} :
    ∀ {w w' : World κ ω ρ} {rs : List (Resolution κ)} {g₀ : Grove NodeRef},
      w.forest.Holds none (g₀ ++ .leaves (qs.filterMap RootedRequest.suite?)) →
      (g₀ ++ Grove.leaves (qs.filterMap RootedRequest.suite?)).toList.Nodup →
      (qs.mapM (ofRequest engines strict phase)).on w = (.ok rs, w') →
      ∀ s ∈ surveys phase strict engines qs w, ∃ (u u' : World κ ω ρ) (r : Resolution κ),
        (ofRequest engines strict phase s.rooted).on u = (.ok r, u') ∧
        s.finds = finds phase strict s.rooted engines (start s.rooted u) u ∧
        ∀ p, s.rooted.suite? = some p →
          u.forest.Stands p none [] ∧ u.forest.bare? p = w.forest.bare? p := by
  induction qs with
  | nil => exact fun _ _ _ s hs => absurd hs List.not_mem_nil
  | cons q qs ih =>
      intro w w' rs g₀ hg hn h s hs
      rw [List.mapM_cons] at h
      obtain ⟨r, w₁, hq, h⟩ := Steps.on_bind_eq_ok h
      obtain ⟨rs', w₂, hqs, h⟩ := Steps.on_bind_eq_ok h
      rw [filterMap_suite_cons] at hg hn
      have hbare : ∀ p, q.suite? = some p → w.forest.Stands p none [] := by
        intro p hp
        rw [Forest.holds_append, Forest.holds_leaves] at hg
        exact hg.2 p (List.mem_append_left _ (by simp [hp]))
      obtain ⟨-, f, g, hsettled⟩ := ofRequest_eq_ok hfresh hbare hq
      obtain ⟨hg₁, hn₁, hold, -⟩ := hsettled.beside hg hn
      rw [surveys, hq, List.mem_cons] at hs
      rcases hs with rfl | hs
      · exact ⟨w, w₁, r, hq, rfl, fun p hp => ⟨hbare p hp, rfl⟩⟩
      · obtain ⟨u, u', r', hrun, hfinds, hsuite⟩ := ih hg₁ hn₁ hqs s hs
        refine ⟨u, u', r', hrun, hfinds, fun p hp => ?_⟩
        obtain ⟨hstands, hp'⟩ := hsuite p hp
        have hmem : s.rooted ∈ qs := by
          rw [← rooted_surveys hqs]
          exact List.mem_map_of_mem hs
        have hp₁ := hold p (Or.inr (List.mem_filterMap.mpr ⟨s.rooted, hmem, hp⟩))
        exact ⟨hstands, hp'.trans (Forest.bare?_congr hp₁)⟩

end Resolution

/-! ## All requests of a call -/

namespace Launcher

variable {κ ω ρ : Type} {l : Launcher κ ω ρ} {phase : Phase} {request : DiscoveryRequest}
  {w w' : World κ ω ρ} {rs : List (Resolution κ)}

/-- What a launcher finds for requests. -/
def surveys (l : Launcher κ ω ρ) (phase : Phase) (qs : List RootedRequest) (w : World κ ω ρ) :
    List (Survey κ) :=
  Resolution.surveys phase l.strict l.engines qs w

/-- The engines of each resolution are in the order in which they were registered. -/
theorem engines_resolve_sublist (h : (l.resolve phase request).on w = (.ok rs, w'))
    {r : Resolution κ} (hr : r ∈ rs) : r.engines.Sublist l.engines := by
  obtain ⟨further, w₁, hexpand, h⟩ := Steps.on_bind_eq_ok h
  obtain ⟨q, -, s₁, s₂, hq⟩ := Steps.exists_of_mem_mapM h hr
  exact Resolution.engines_sublist hq

/-- The plan for a request, in either phase. -/
def planFor (l : Launcher κ ω ρ) (phase : Phase) (request : DiscoveryRequest) :
    Run κ ω ρ TestPlan := do
  Resolution.assemble (← l.resolve phase request)

/-- A plan is made of the roots of resolutions. -/
theorem planFor_eq_ok {plan : TestPlan} (h : (l.planFor phase request).on w = (.ok plan, w')) :
    ∃ rs, (l.resolve phase request).on w = (.ok rs, w') ∧
      TestPlan.ofRoots w'.forest (Resolution.allRoots rs) = .ok plan := by
  obtain ⟨rs, w₁, hresolve, h⟩ := Steps.on_bind_eq_ok h
  rw [Resolution.assemble, Steps.on_bind_ok (Steps.on_get w₁), Steps.on_ofExcept] at h
  injection h with hplan hw
  subst hw
  exact ⟨rs, hresolve, hplan⟩

/-- Discovering makes the plan of its phase. -/
theorem discover_eq_ok {plan : TestPlan} (h : (l.discover (some request)).on w = (.ok plan, w')) :
    ∃ rs, (l.resolve .discovery request).on w = (.ok rs, w') ∧
      TestPlan.ofRoots w'.forest (Resolution.allRoots rs) = .ok plan :=
  planFor_eq_ok h

theorem discover_of_resolve {plan : TestPlan}
    (hresolve : (l.resolve .discovery request).on w = (.ok rs, w'))
    (hplan : TestPlan.ofRoots w'.forest (Resolution.allRoots rs) = .ok plan) :
    (l.discover (some request)).on w = (.ok plan, w') := by
  have hrequired : (Steps.ofExcept (required (some request)) : Run κ ω ρ DiscoveryRequest).on w
      = (.ok request, w) := rfl
  rw [discover, Steps.on_bind_ok hrequired, Steps.on_bind_ok hresolve, Resolution.assemble,
    Steps.on_bind_ok (Steps.on_get w'), hplan]
  rfl

/-- **Resolving a request and those of its suites**: what is left of all trees that were found
    stands side by side, and it is what a plan is made of. -/
theorem resolve_eq_ok (hfresh : ∀ e ∈ l.engines, e.BuildsFresh)
    (h : (l.resolve phase request).on w = (.ok rs, w')) :
    ∃ done w₁, (Expansion.ofRequest l.resolver? request).on w
        = (.ok (done : Expansion.Expanded).rooted, w₁) ∧
      Expansion.Planned request w₁.forest done
        (SuiteDeclaration.distinct (Expansion.reached l.resolver? request w)) ∧
      rs = (l.surveys phase (⟨request, none⟩ :: done.rooted) w₁).map
        (Survey.resolution w'.forest) ∧
      (l.surveys phase (⟨request, none⟩ :: done.rooted) w₁).map Survey.rooted
        = ⟨request, none⟩ :: done.rooted ∧
      (∀ p ∈ done.rooted.filterMap RootedRequest.suite?,
        w'.forest.bare? p = w₁.forest.bare? p) ∧
      ∃ parts, List.Forall₂ (Survey.Left w'.forest)
          (l.surveys phase (⟨request, none⟩ :: done.rooted) w₁) parts ∧
        w'.forest.Holds none (.row parts) ∧ (Grove.row parts).toList.Nodup ∧
        Resolution.allRoots rs = (Grove.row parts).roots := by
  obtain ⟨further, w₁, hexpand, h⟩ := Steps.on_bind_eq_ok h
  obtain ⟨-, done, rfl, hplanned⟩ := Expansion.ofRequest_eq_ok hexpand
  let qs : List RootedRequest := ⟨request, none⟩ :: done.rooted
  have hg : w₁.forest.Holds none (.nil ++ .leaves (qs.filterMap RootedRequest.suite?)) :=
    hplanned.holds
  have hn : (Grove.nil ++ .leaves (qs.filterMap RootedRequest.suite?)).toList.Nodup := by
    rw [Grove.nil_append, Grove.toList_leaves]
    exact hplanned.nodup
  obtain ⟨parts, hparts, hholds, hnodup, hrs, -, hbare⟩ :=
    Resolution.mapM_ofRequest_eq_ok hfresh hg hn h
  refine ⟨done, w₁, hexpand, hplanned, hrs, Resolution.rooted_surveys h, hbare, parts, hparts,
    hholds, hnodup, ?_⟩
  rw [hrs]
  exact Survey.allRoots_eq hparts

/-- What was found for one of the requests of a call was found when that one was resolved. -/
theorem exists_run (hfresh : ∀ e ∈ l.engines, e.BuildsFresh) {done : Expansion.Expanded}
    {ds : List SuiteDeclaration} {w₁ : World κ ω ρ}
    (hexpand : (Expansion.ofRequest l.resolver? request).on w = (.ok done.rooted, w₁))
    (hplanned : Expansion.Planned request w₁.forest done ds)
    (h : (l.resolve phase request).on w = (.ok rs, w')) {s : Survey κ}
    (hs : s ∈ l.surveys phase (⟨request, none⟩ :: done.rooted) w₁) :
    ∃ (u u' : World κ ω ρ) (r : Resolution κ),
      (Resolution.ofRequest l.engines l.strict phase s.rooted).on u = (.ok r, u') ∧
      s.finds = Resolution.finds phase l.strict s.rooted l.engines (Resolution.start s.rooted u) u ∧
      ∀ p, s.rooted.suite? = some p →
        u.forest.Stands p none [] ∧ u.forest.bare? p = w₁.forest.bare? p := by
  rw [resolve, Steps.on_bind_ok hexpand] at h
  let qs : List RootedRequest := ⟨request, none⟩ :: done.rooted
  have hg : w₁.forest.Holds none (.nil ++ .leaves (qs.filterMap RootedRequest.suite?)) :=
    hplanned.holds
  have hn : (Grove.nil ++ .leaves (qs.filterMap RootedRequest.suite?)).toList.Nodup := by
    rw [Grove.nil_append, Grove.toList_leaves]
    exact hplanned.nodup
  exact Resolution.exists_run_of_surveys hfresh hg hn h s hs

end Launcher

end TestLauncher
