import TestLauncher.Proofs.Engine.Rerooting

/-! # The plan of a suite is the plan of its request

    What a plan holds below the node of a suite is what the launcher without a resolver plans
    for the request of that suite, with the id of the suite before every id
    (`discover_rerooted`).  Both are read off what the engines sketch for that request in an
    empty forest: the plan alone lists these identifiers (`discover_alone`), and below the
    node of the suite the same nodes are left with longer ids (`Resolution.placed_of_ofRequest`,
    `TestPlan.Indexes.holdsBelow`). -/

namespace TestLauncher

/-! ## A part of a plan -/

theorem Identifier.parentId_below (above p : String) (i : Identifier) :
    (i.below above).parentId = some (above ++ "/" ++ p) ↔ i.parentId = some p := by
  show some _ = some _ ↔ _
  rw [Option.some.injEq]
  cases i.parentId with
  | none =>
      -- the id of the suite is not longer than itself
      refine iff_of_false (fun h => ?_) (fun h => by cases h)
      have hlength : above.length = (above ++ "/" ++ p).length := congrArg String.length h
      rw [String.length_append, String.length_append] at hlength
      have hslash : "/".length = 1 := rfl
      omega
  | some q =>
      show above ++ "/" ++ q = above ++ "/" ++ p ↔ some q = some p
      rw [String.append_right_inj, Option.some.injEq]

/-- Ids that differ when they are made longer differ. -/
theorem Identifier.nodup_of_below {above : String} {is : List Identifier}
    (h : ((is.map (below above)).map id).Nodup) : (is.map id).Nodup := by
  have hlong : (is.map (below above)).map id = (is.map id).map fun t => above ++ "/" ++ t := by
    rw [List.map_map, List.map_map]
    rfl
  rw [hlong] at h
  exact h.of_map

namespace TestPlan

variable {plan alone : TestPlan} {f : Forest} {g part b : Grove NodeRef} {is : List Identifier}

/-- Below the identifier of a suite a plan holds what another one holds, with longer ids: the
    roots as its children, all identifiers in their order, and each below the parent it had. -/
structure HoldsBelow (plan : TestPlan) (suite : Identifier) (alone : TestPlan) : Prop where
  root : suite ∈ plan.roots
  roots : plan.childrenOf suite.id = alone.roots.map (Identifier.below suite.id)
  descendants : plan.descendantsOf suite
    = .ok (alone.identifiers.values.map (Identifier.below suite.id))
  children : ∀ i ∈ alone.identifiers.values, plan.childrenOf (suite.id ++ "/" ++ i.id)
    = (alone.childrenOf i.id).map (Identifier.below suite.id)

/-- The children under the id of a node are found in any part of the trees that has the node. -/
theorem Indexes.childrenOf_part {r : NodeRef} {t : String} (h : plan.Indexes f g)
    (hg : f.Holds none g) (hn : g.toList.Nodup) (hpart : f.Holds none part)
    (hsub : part.toList.Sublist g.toList) (hr : r ∈ part.toList) (ht : f.idText? r = some t) :
    plan.childrenOf t = (f.identifiers part.toList).filter fun i => i.parentId = some t := by
  have hids : ((f.identifiers part.toList).map Identifier.id).Nodup :=
    h.lists.distinct.sublist ((hsub.filterMap _).map _)
  rw [h.childrenOf hg hn (hsub.mem hr) ht]
  exact (Forest.filter_parentId hpart (hn.sublist hsub) hids hr ht).symm

/-- A plan holds below a suite what another one holds when the trees below the suite's node have
    the identifiers the other lists. -/
theorem Indexes.holdsBelow {p : NodeRef} {suite : Identifier} (h : plan.Indexes f g)
    (hg : f.Holds none g) (hn : g.toList.Nodup) (hp : p ∈ g.roots)
    (hpart : f.Holds none (.tree p b)) (hsub : (Grove.tree p b).toList.Sublist g.toList)
    (hsuite : f.identifier? p = some suite) (hlists : alone.Lists is)
    (hnodes : f.identifiers b.toList = is.map (Identifier.below suite.id))
    (hroots : f.identifiers b.roots = alone.roots.map (Identifier.below suite.id)) :
    plan.HoldsBelow suite alone := by
  have hmem : p ∈ (Grove.tree p b).toList := by simp
  have hid : f.idText? p = some suite.id := (Forest.id_of_identifier? hsuite).1
  have hstands : f.Stands p none b.roots := (Forest.holds_tree.mp hpart).1
  refine ⟨?_, ?_, ?_, ?_⟩
  · rw [h.roots]
    exact List.mem_filterMap.mpr ⟨p, hp, hsuite⟩
  · rw [h.childrenOf hg hn (hsub.mem hmem) hid, hstands.children, hroots]
  · have hunder : g.under p = p :: b.toList := by
      rw [← Forest.subtree_eq hg hn (hsub.mem hmem),
        Forest.subtree_eq hpart (hn.sublist hsub) hmem, Grove.tree, Grove.under_cons_self]
    rw [h.descendantsOf hg hn hsuite (hsub.mem hmem) hunder, hnodes, hlists.values]
  · intro i hi
    rw [hlists.values] at hi
    have hbelow : i.below suite.id ∈ f.identifiers b.toList := by
      rw [hnodes]
      exact List.mem_map_of_mem hi
    obtain ⟨r, hr, hri⟩ := List.mem_filterMap.mp hbelow
    have hrp : r ∈ (Grove.tree p b).toList := Grove.mem_tree.mpr (Or.inr hr)
    -- the node of the suite has no parent, so it is nobody's child
    have hnone : suite.parentId = none := by
      rw [(Forest.id_of_identifier? hsuite).2, hstands.parent]
      rfl
    have hchildren := h.childrenOf_part hg hn hpart hsub hrp (Forest.id_of_identifier? hri).1
    rw [Grove.toList_tree, Forest.identifiers_cons hsuite, hnodes,
      List.filter_cons_of_neg (by simp [hnone]), List.filter_map] at hchildren
    rw [hlists.children]
    refine hchildren.trans (congrArg (List.map _) (List.filter_congr fun j _ => ?_))
    exact decide_eq_decide.mpr (j.parentId_below suite.id i.id)

end TestPlan

/-! ## What is left of what is found elsewhere -/

/-- Survivors have the identifiers of what they are placed from, with longer ids. -/
theorem Find.identifiers_kept_echoed {κ : Type} {f : Forest} {suite? : Option NodeRef}
    {top : Option Segment} {filters others : List NodeFilter} {xs ys : List (Find κ)}
    (hf : f.Holds suite? (kept filters xs)) (hstood : ∀ x ∈ xs, x.forest.Holds none x.tree)
    (hn : (grove xs).toList.Nodup)
    (hbare : ∀ r ∈ (kept filters xs).toList, ∀ x ∈ xs, r ∈ x.tree.toList →
      f.bare? r = x.forest.bare? r)
    (htop : suite?.bind f.idText? = top.map Segment.render)
    (hechoed : Echoed top filters others xs ys) :
    f.identifiers (kept filters xs).toList
        = (ys.flatMap (identifiers others none)).map
            (Identifier.beneath (top.map Segment.render)) ∧
      f.identifiers (kept filters xs).roots
        = (ys.flatMap (rootIdentifier none)).map (Identifier.beneath (top.map Segment.render)) := by
  rw [identifiers_kept hf hstood hn hbare, rootIdentifiers_kept hf hbare, htop]
  exact ⟨hechoed.identifiers, hechoed.rootIdentifiers⟩

namespace Resolution

variable {κ ω ρ : Type} {strict : Bool} {phase : Phase} {rooted : RootedRequest}
  {engines : List (Engine κ)} {request : DiscoveryRequest} {r : Resolution κ}
  {v v' w w' : World κ ω ρ} {top : Option Segment}

/-- What engines find for a request alone in an empty forest. -/
def sketches (engines : List (Engine κ)) (request : DiscoveryRequest) (v : World κ ω ρ) :
    List (Find κ) :=
  engines.filterMap (sketch? request v)

/-- What a plan for the request alone lists. -/
def outline (engines : List (Engine κ)) (request : DiscoveryRequest) (v : World κ ω ρ) :
    List Identifier :=
  (sketches engines request v).flatMap (Find.identifiers request.nodeFilters none)

/-- The roots of a plan for the request alone. -/
def rootOutline (engines : List (Engine κ)) (request : DiscoveryRequest) (v : World κ ω ρ) :
    List Identifier :=
  (sketches engines request v).flatMap (Find.rootIdentifier none)

theorem sound_of_sketches (hfresh : ∀ e ∈ engines, e.BuildsFresh)
    (hp : ∀ e ∈ engines, e.Placeless) {y : Find κ} (hy : y ∈ sketches engines request v) :
    y.Sound := by
  obtain ⟨e, he, h⟩ := List.mem_filterMap.mp hy
  exact sound_of_sketch? (hfresh e he) (hp e he) h

/-- When a request is resolved the engines find what they sketch, placed elsewhere. -/
theorem placed_of_ofRequest (hfresh : ∀ e ∈ engines, e.BuildsFresh)
    (hp : ∀ e ∈ engines, e.Placeless) (hr : ∀ e ∈ engines, e.RerootsTo top)
    (hsuite : ∀ p, rooted.suite? = some p → w.forest.Stands p none [])
    (htop : (rooted.suite?.bind w.forest.node?).map Node.id = top.map UniqueId.single)
    (h : (ofRequest engines strict phase rooted).on w = (.ok r, w')) :
    Find.Placed top (finds phase strict rooted engines (start rooted w) w)
        (sketches engines rooted.request v) ∧
      ∀ e ∈ engines, Proceeds strict ⟨rooted.request, none⟩ { v with forest := ∅ } e := by
  obtain ⟨w₀, _, hget, h⟩ := Steps.on_bind_eq_ok h
  cases hget
  obtain ⟨r₁, w₁, hfold, -⟩ := Steps.on_bind_eq_ok h
  exact finds_placed hfresh hp hr rfl htop (Planted.start hsuite) hfold

/-- What is left when a request is resolved alone are the survivors of what the engines sketch. -/
theorem left_alone (hfresh : ∀ e ∈ engines, e.BuildsFresh) (hp : ∀ e ∈ engines, e.Placeless)
    (hfilters : ∀ filter ∈ request.nodeFilters, filter.Standard)
    (h : (ofRequest engines strict phase ⟨request, none⟩).on v = (.ok r, v')) :
    ∃ g, v'.forest.Holds none g ∧ g.toList.Nodup ∧ allRoots [r] = g.roots ∧
      v'.forest.identifiers g.toList = outline engines request v ∧
      v'.forest.identifiers g.roots = rootOutline engines request v := by
  let alone : RootedRequest := ⟨request, none⟩
  have hsuite : ∀ p, alone.suite? = some p → v.forest.Stands p none [] := fun p hp => by cases hp
  have htop : (alone.suite?.bind v.forest.node?).map Node.id
      = (none : Option Segment).map UniqueId.single := rfl
  obtain ⟨hplus, f, g, hsettled⟩ := ofRequest_eq_ok hfresh hsuite h
  obtain ⟨hplaced, -⟩ := placed_of_ofRequest (v := v) hfresh hp
    (fun e he => (hp e he).rerootsTo_none) hsuite htop h
  generalize finds phase strict alone engines (start alone v) v = xs at hplus hsettled hplaced
  have hkept : g = Find.kept request.nodeFilters xs :=
    hsettled.eq_kept rfl fun filter hfilter => (hfilters filter hfilter).byLineage
  have hroots : allRoots [r] = g.roots := by
    rw [hsettled.roots, hplus]
    show ([] ++ xs.map fun x : Find κ => (x.engine, x.root)).map Prod.snd ++ [] = _
    rw [List.nil_append, List.append_nil, List.map_map]
    rfl
  refine ⟨g, hsettled.holds, hsettled.planted.nodup.sublist hsettled.sublist, hroots, ?_⟩
  subst hkept
  obtain ⟨hnodes, hrootNodes⟩ := Find.identifiers_kept_echoed hsettled.holds
    hsettled.planted.stood hsettled.planted.nodup
    (fun r _ x hx hrx => (hsettled.bare r).trans (hsettled.planted.bare x hx r hrx))
    (Eq.refl ((none : Option Segment).map Segment.render))
    (hplaced.echoed (fun y hy => sound_of_sketches hfresh hp hy) hfilters)
  exact ⟨hnodes.trans (List.map_id' _), hrootNodes.trans (List.map_id' _)⟩

end Resolution

/-- Below the node of a suite is left what the finds are placed from, with longer ids. -/
theorem Survey.Left.identifiers_placed {κ : Type} {f f' : Forest} {s : Survey κ}
    {part : Grove NodeRef} {p : NodeRef} {seg : Segment} {ys : List (Find κ)} (h : s.Left f' part)
    (hroot : s.Rooted f f') (hfilters : ∀ filter ∈ s.rooted.request.nodeFilters, filter.Standard)
    (hf : f'.Holds none part) (hs : s.rooted.suite? = some p)
    (hid : f'.idText? p = some seg.render) (hplaced : Find.Placed (some seg) s.finds ys)
    (hys : ∀ y ∈ ys, y.Sound) :
    ∃ b, part = .tree p b ∧
      f'.identifiers b.toList
        = (ys.flatMap (Find.identifiers s.rooted.request.nodeFilters none)).map
            (Identifier.below seg.render) ∧
      f'.identifiers b.roots
        = (ys.flatMap (Find.rootIdentifier none)).map (Identifier.below seg.render) := by
  obtain ⟨rfl, hstood, hn, hbare⟩ := h.eq_kept hroot fun filter hfilter =>
    (hfilters filter hfilter).byLineage
  rw [hs] at hf hbare ⊢
  have hpp : (some p).bind f'.idText? = (some seg).map Segment.render := hid
  refine ⟨_, rfl, ?_⟩
  exact Find.identifiers_kept_echoed (Forest.holds_tree.mp hf).2 hstood hn
    (fun r hr => hbare r (Resolution.mem_topped.mpr (Or.inr hr))) hpp
    (hplaced.echoed hys hfilters)

/-- Each suite has a request of its own among those that are surveyed, and its node is a root. -/
theorem Expansion.Planned.exists_survey {κ : Type} {request : DiscoveryRequest} {f f' : Forest}
    {done : Expanded} {ds : List SuiteDeclaration} {d : SuiteDeclaration} {ss : List (Survey κ)}
    (h : Planned request f done ds) (hd : d ∈ ds)
    (hrooted : ss.map Survey.rooted = ⟨request, none⟩ :: done.rooted)
    (hbare : ∀ p ∈ done.rooted.filterMap RootedRequest.suite?, f'.bare? p = f.bare? p) :
    ∃ s ∈ ss, ∃ p n, s.rooted.request = d.nested request ∧ s.rooted.suite? = some p ∧
      d.node = .ok n ∧ f.bare? p = some n ∧ s.Rooted f f' := by
  obtain ⟨q, hq, p, n, hnested, hp, hn, hdn⟩ := h.exists_rooted hd
  have hmem : q ∈ ss.map Survey.rooted := by
    rw [hrooted]
    exact List.mem_cons_of_mem _ hq
  obtain ⟨s, hs, rfl⟩ := List.mem_map.mp hmem
  refine ⟨s, hs, p, n, hnested, hp, hdn, hn, ?_⟩
  intro p' hp'
  rw [hp] at hp'
  cases hp'
  refine ⟨?_, (h.suite hq hp).1, hbare p (List.mem_filterMap.mpr ⟨_, hq, hp⟩)⟩
  rw [Forest.isSuite, hn]
  exact decide_eq_true (UniqueId.last_type_of_root (SuiteDeclaration.node_eq_ok hdn).2.2.2)

/-! ## The plans -/

namespace Launcher

variable {κ ω ρ : Type} {l : Launcher κ ω ρ} {request : DiscoveryRequest} {v w w' : World κ ω ρ}
  {plan : TestPlan}

/-- **The plan of a request alone** lists what the engines sketch. -/
theorem discover_alone (hresolver : l.resolver? = none) (hfresh : ∀ e ∈ l.engines, e.BuildsFresh)
    (hp : ∀ e ∈ l.engines, e.Placeless)
    (hfilters : ∀ filter ∈ request.nodeFilters, filter.Standard)
    (hengines : ∀ e ∈ l.engines,
      Resolution.Proceeds l.strict ⟨request, none⟩ { v with forest := ∅ } e)
    (hids : ((Resolution.outline l.engines request v).map Identifier.id).Nodup) :
    ∃ plan, ((l.discover (some request)).on v).1 = .ok plan ∧
      plan.Lists (Resolution.outline l.engines request v) ∧
      plan.roots = Resolution.rootOutline l.engines request v := by
  let alone : RootedRequest := ⟨request, none⟩
  have htop : ∀ w : World κ ω ρ, (alone.suite?.bind w.forest.node?).map Node.id
      = (none : Option Segment).map UniqueId.single := fun _ => rfl
  have hproceeds : ∀ e ∈ l.engines, ∀ w : World κ ω ρ, Resolution.Proceeds l.strict alone w e :=
    fun e he w => (Resolution.proceeds_placed (hp e he).rerootsTo_none (hp e he) (htop w)).mpr
      (hengines e he)
  have hunfailing : ∀ filter ∈ request.nodeFilters, filter.Unfailing :=
    fun filter hfilter => (hfilters filter hfilter).unfailing
  obtain ⟨r, v', hrun, hresolve⟩ : ∃ r v',
      (Resolution.ofRequest l.engines l.strict .discovery alone).on v = (.ok r, v') ∧
        (l.resolve .discovery request).on v = (.ok [r], v') :=
    resolve_ok hresolver hfresh hproceeds hunfailing
  obtain ⟨g, hholds, hnodup, hroots, hnodes, hrootNodes⟩ :=
    Resolution.left_alone hfresh hp hfilters hrun
  rw [← hnodes] at hids ⊢
  rw [← hrootNodes]
  obtain ⟨plan, hplan⟩ := TestPlan.ofRoots_ok hholds hnodup hids
  have hindex := TestPlan.indexes_of_ofRoots hholds hnodup hplan
  rw [← hroots] at hplan
  exact ⟨plan, by rw [discover_of_resolve hresolve hplan], hindex.lists, hindex.roots⟩

/-- What engines find for a request of a call is what they sketch for it, placed below the segment
    of the suite if there is one. -/
theorem placed_of_surveys (hfresh : ∀ e ∈ l.engines, e.BuildsFresh)
    (hp : ∀ e ∈ l.engines, e.Placeless) {top : Option Segment}
    (hr : ∀ e ∈ l.engines, e.RerootsTo top)
    {done : Expansion.Expanded} {ds : List SuiteDeclaration} {w₁ : World κ ω ρ} {phase : Phase}
    {rs : List (Resolution κ)} {s : Survey κ}
    (hexpand : (Expansion.ofRequest l.resolver? request).on w = (.ok done.rooted, w₁))
    (hplanned : Expansion.Planned request w₁.forest done ds)
    (h : (l.resolve phase request).on w = (.ok rs, w'))
    (hs : s ∈ l.surveys phase (⟨request, none⟩ :: done.rooted) w₁)
    (htop : (s.rooted.suite?.bind w₁.forest.bare?).map Node.id = top.map UniqueId.single)
    (v : World κ ω ρ) :
    Find.Placed top s.finds (Resolution.sketches l.engines s.rooted.request v) ∧
      ∀ e ∈ l.engines,
        Resolution.Proceeds l.strict ⟨s.rooted.request, none⟩ { v with forest := ∅ } e := by
  obtain ⟨u, u', r, hrun, hfinds, hsuite⟩ := exists_run hfresh hexpand hplanned h hs
  have htop' : (s.rooted.suite?.bind u.forest.node?).map Node.id = top.map UniqueId.single := by
    rw [← htop, Option.map_bind, Option.map_bind]
    refine Option.bind_congr fun p hp => ?_
    rw [Function.comp_apply, Function.comp_apply, ← (hsuite p hp).2, Forest.bare?, Option.map_map]
    rfl
  rw [hfinds]
  exact Resolution.placed_of_ofRequest hfresh hp hr (fun p hp => (hsuite p hp).1) htop' hrun

/-- **The plan of a suite** is below its node. -/
theorem discover_suite (hfresh : ∀ e ∈ l.engines, e.BuildsFresh)
    (hp : ∀ e ∈ l.engines, e.Placeless) (hr : ∀ e ∈ l.engines, e.Rerootable)
    {d : SuiteDeclaration}
    (hd : d ∈ SuiteDeclaration.distinct (Expansion.reached l.resolver? request w))
    (hfilters : ∀ filter ∈ (d.nested request).nodeFilters, filter.Standard)
    (h : (l.discover (some request)).on w = (.ok plan, w')) (v : World κ ω ρ) :
    ∃ alone suite,
      (({ l with resolver? := none }.discover (some (d.nested request))).on v).1 = .ok alone ∧
        d.identifier? = some suite ∧ suite.id = "[suite:" ++ d.name ++ "]" ∧
        plan.HoldsBelow suite alone := by
  obtain ⟨rs, hresolve, hplan⟩ := discover_eq_ok h
  obtain ⟨done, w₁, hexpand, hplanned, -, hrooted, hbare, parts, hparts, hholds, hnodup,
    hroots⟩ := resolve_eq_ok hfresh hresolve
  rw [hroots] at hplan
  have hindex := TestPlan.indexes_of_ofRoots hholds hnodup hplan
  obtain ⟨s, hs, p, n, hnested, hsp, hdn, hn, hroot⟩ := hplanned.exists_survey hd hrooted hbare
  have hnid := (SuiteDeclaration.node_eq_ok hdn).2.2.2
  obtain ⟨seg, hseg, -⟩ := UniqueId.root_eq_ok hnid
  have htop : (s.rooted.suite?.bind w₁.forest.bare?).map Node.id
      = (some seg).map UniqueId.single := by
    rw [hsp, Option.bind_some, hn]
    exact congrArg some hseg
  obtain ⟨hplaced, hproceeds⟩ := placed_of_surveys hfresh hp
    (fun e he => hr e he (some seg)) hexpand hplanned hresolve hs htop v
  rw [hnested] at hplaced hproceeds
  -- what engines sketch for the suite is left below its node
  have hnode : w'.forest.bare? p = some n := (hroot p hsp).2.2.trans hn
  have hid : w'.forest.idText? p = some seg.render := by
    rw [Forest.idText?_eq, hnode, Option.map_some, hseg, UniqueId.render_single]
  obtain ⟨part, hpart, hleft, hpholds, -, hsub⟩ := Survey.exists_part hparts hholds hnodup hs
  obtain ⟨b, rfl, hnodes, hrootNodes⟩ := hleft.identifiers_placed hroot (hnested ▸ hfilters)
    hpholds hsp hid hplaced fun y hy => Resolution.sound_of_sketches hfresh hp hy
  rw [hnested] at hnodes
  have hids : ((Resolution.outline l.engines (d.nested request) v).map Identifier.id).Nodup := by
    have hb : b.toList.Sublist (Grove.row parts).toList :=
      (List.sublist_cons_self p _).trans (Grove.toList_tree p b ▸ hsub)
    have hlong : ((w'.forest.identifiers b.toList).map Identifier.id).Nodup :=
      hindex.lists.distinct.sublist ((hb.filterMap _).map _)
    rw [hnodes] at hlong
    exact Identifier.nodup_of_below hlong
  obtain ⟨alone, halone, hlists, haloneRoots⟩ : ∃ alone,
      (({ l with resolver? := none }.discover (some (d.nested request))).on v).1 = .ok alone ∧
        alone.Lists (Resolution.outline l.engines (d.nested request) v) ∧
        alone.roots = Resolution.rootOutline l.engines (d.nested request) v :=
    discover_alone (l := { l with resolver? := none }) rfl hfresh hp hfilters hproceeds hids
  have hidentifier : w'.forest.identifier? p = some (n.identifier none) := by
    rw [Forest.identifier?_eq, hnode, (Forest.holds_tree.mp hpholds).1.parent]
    rfl
  have hrender : (n.identifier none).id = seg.render := by
    show n.id.render = seg.render
    rw [hseg, UniqueId.render_single]
  have hproot : p ∈ (Grove.row parts).roots := by
    rw [Grove.roots_row]
    exact List.mem_flatMap.mpr ⟨_, hpart, by simp⟩
  refine ⟨alone, n.identifier none, halone, ?_, UniqueId.render_of_root hnid, ?_⟩
  · rw [SuiteDeclaration.identifier?, hdn]
    rfl
  · rw [← hrender] at hnodes hrootNodes
    refine hindex.holdsBelow hholds hnodup hproot hpholds hsub hidentifier hlists hnodes ?_
    rw [hrootNodes, haloneRoots, Resolution.rootOutline]

/-- A launcher whose resolver looks suites up reaches what the tables hold. -/
theorem reached_of_discover {tables : SuiteTables} (hresolver : l.resolver? = some tables.resolver)
    (h : (l.discover (some request)).on w = (.ok plan, w')) :
    Expansion.reached l.resolver? request w = request.selectors.flatMap tables.suitesFor := by
  obtain ⟨rs, hresolve, -⟩ := discover_eq_ok h
  obtain ⟨further, w₁, hexpand, -⟩ := Steps.on_bind_eq_ok hresolve
  rw [hresolver] at hexpand ⊢
  exact Expansion.reached_tables hexpand

/-- **A suite is its request under another root.**  Below the node of each suite that a request
    reaches the plan holds, node for node and in the same order, what the launcher without its
    resolver plans for the suite's own request: the ids have that of the suite before them, the
    roots of engines are its children, and nothing else is different. -/
theorem discover_rerooted {l : Launcher Diaries ω ρ} {tables : SuiteTables} {d : SuiteDeclaration}
    {w : World Diaries ω ρ} (hengines : ∀ e ∈ l.engines, ∃ c number, e = Catalogue.engine c number)
    (hresolver : l.resolver? = some tables.resolver)
    (hfilters : ∀ filter ∈ request.nodeFilters, filter.Standard)
    (hd : d ∈ SuiteDeclaration.distinct (request.selectors.flatMap tables.suitesFor))
    (hdfilters : ∀ filter ∈ d.nodeFilters, filter.Standard)
    (h : ((l.discover (some request)).on w).1 = .ok plan) (v : World Diaries ω ρ) :
    ∃ alone suite,
      (({ l with resolver? := none }.discover (some (d.nested request))).on v).1 = .ok alone ∧
        d.identifier? = some suite ∧ suite.id = "[suite:" ++ d.name ++ "]" ∧
        plan.HoldsBelow suite alone := by
  rcases hrun : (l.discover (some request)).on w with ⟨result, w'⟩
  rw [hrun] at h
  subst h
  have hfresh := Catalogue.forall_engine Catalogue.engine_buildsFresh hengines
  have hplaceless := Catalogue.forall_engine Catalogue.engine_placeless hengines
  have hrerootable := Catalogue.forall_engine Catalogue.engine_rerootable hengines
  rw [← reached_of_discover hresolver hrun] at hd
  refine discover_suite hfresh hplaceless hrerootable hd ?_ hrun v
  intro filter hfilter
  rcases List.mem_append.mp hfilter with hfilter | hfilter
  · exact hfilters filter hfilter
  · exact hdfilters filter hfilter

/-- In the sample the suite has the class with its fast test, as its request alone has. -/
theorem discover_rerooted_sample :
    ∃ plan d alone suite, ((sample.discover (some .sample)).on World.sample).1 = .ok plan ∧
      d ∈ SuiteDeclaration.distinct
        (DiscoveryRequest.sample.selectors.flatMap SuiteTables.sample.suitesFor) ∧
      (({ sample with resolver? := none }.discover (some (d.nested .sample))).on
        World.sample).1 = .ok alone ∧
      suite.id = "[suite:s]" ∧ plan.HoldsBelow suite alone ∧
      alone.identifiers.keys = ["[engine:E]", "[engine:E]/[class:m.K]",
        "[engine:E]/[class:m.K]/[test:t]"] := by
  have hfound : ((sample.discover (some .sample)).on World.sample).1.toOption.isSome = true := by
    decide +kernel
  have hengines : ∀ e ∈ sample.engines, ∃ c number, e = Catalogue.engine c number := by
    intro e he
    exact ⟨Catalogue.sample, 0, List.mem_singleton.mp he⟩
  have hfilters : ∀ filter ∈ DiscoveryRequest.sample.nodeFilters, filter.Standard := by
    intro filter hfilter rule hrule
    rw [List.mem_singleton.mp hfilter] at hrule
    cases List.mem_singleton.mp hrule
  let d : SuiteDeclaration :=
    { name := "s", displayName := "S", selectors := [.ofClass ⟨"m.K", by decide⟩] }
  have hd : d ∈ SuiteDeclaration.distinct
      (DiscoveryRequest.sample.selectors.flatMap SuiteTables.sample.suitesFor) :=
    List.mem_singleton.mpr rfl
  have hkeys : (({ sample with resolver? := none }.discover (some (d.nested .sample))).on
      World.sample).1.toOption.map (fun plan : TestPlan => plan.identifiers.keys)
        = some ["[engine:E]", "[engine:E]/[class:m.K]", "[engine:E]/[class:m.K]/[test:t]"] := by
    decide +kernel
  cases hplan : ((sample.discover (some .sample)).on World.sample).1 with
  | error e =>
      rw [hplan] at hfound
      cases hfound
  | ok plan =>
      obtain ⟨alone, suite, halone, -, hid, hbelow⟩ :=
        discover_rerooted hengines rfl hfilters hd (by simp [d]) hplan .sample
      rw [halone] at hkeys
      exact ⟨plan, d, alone, suite, rfl, hd, halone, hid, hbelow, Option.some.inj hkeys⟩

end Launcher

end TestLauncher
