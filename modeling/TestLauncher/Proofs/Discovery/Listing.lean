import TestLauncher.Proofs.Discovery.Rerooting
import TestLauncher.Proofs.Filter.Ancestry

/-! # What a plan lists

    For filters that judge by ancestry a plan is a function of what was asked for.  What the
    engines sketch for a request, each in an empty forest, has to be cut down to what
    survives the filters, as they judge below the node of the suite if the request is that
    of a suite (`Resolution.listing`); the lists of all requests make the list of the plan
    (`Launcher.discover_listing`), and the list makes the plan (`TestPlan.MadeOf.unique`).

    Filters are asked while the trees are being thinned, and the forest is another one at
    every question.  But the way up from the node in question is still the way that it was
    when all trees were planted, and on to the node of the suite (`Planted.passes_asIn`). -/

namespace TestLauncher

/-! ## Filters elsewhere -/

/-- The segment that the ids below the node of a suite begin with. -/
def Node.top? (suite? : Option Node) : Option Segment := suite?.map fun n => n.id.last

/-- An ancestry below the node of a suite, if there is one. -/
def Node.hung (suite? : Option Node) (a : List Node) : List Node :=
  a.map (Node.beneath (Node.top? suite?)) ++ suite?.toList

namespace NodeFilter

/-- The filter that says about a node everywhere what another says about it in a forest. -/
def asIn (f : Forest) (filter : NodeFilter) : NodeFilter :=
  .rule (.custom ⟨"as in a forest", fun e => filter.verdict f e.2⟩)

/-- The filter that says about a node what another says about it below the node of a suite. -/
def below (suite? : Option Node) (filter : NodeFilter) : NodeFilter :=
  .rule (.custom ⟨"below a suite", fun e =>
    filter.verdictOn (Node.hung suite? (e.1.ancestry e.2))⟩)

theorem includes_eq (filter : NodeFilter) (f : Forest) (r : NodeRef) :
    filter.includes (NodeRule.judge f r) = (filter.verdict f r).toOption.any Verdict.included := rfl

@[simp] theorem verdict_asIn (filter : NodeFilter) (f g : Forest) (r : NodeRef) :
    (filter.asIn f).verdict g r = filter.verdict f r := by
  rw [verdict, asIn, Filter.apply]
  rfl

@[simp] theorem verdict_below (filter : NodeFilter) (suite? : Option Node) (f : Forest)
    (r : NodeRef) :
    (filter.below suite?).verdict f r = filter.verdictOn (Node.hung suite? (f.ancestry r)) := by
  rw [verdict, below, Filter.apply]
  rfl

end NodeFilter

/-! ## What the filters say -/

theorem Resolution.withPaths_topped {suite? : Option NodeRef} {g : Grove NodeRef}
    {path : List NodeRef} (h : path ∈ (g.withPaths suite?.toList).toList) :
    path ∈ ((topped suite? g).withPaths []).toList := by
  cases suite? with
  | none => exact h
  | some p =>
      show path ∈ ((Grove.tree p g).withPaths []).toList
      rw [Grove.tree, Grove.withPaths, Grove.toList_cons]
      exact List.mem_cons_of_mem _ (List.mem_append_left _ h)

namespace Planted

variable {κ : Type} {f₀ f₁ f : Forest} {suite? : Option NodeRef} {xs ys : List (Find κ)}
  {x y : Find κ} {filters : List NodeFilter} {node? : Option Node}

/-- The paths on to the node of the suite are the ways up. -/
theorem wayUp {path : List NodeRef} (h : Planted f₀ suite? f xs)
    (hpath : path ∈ ((Find.grove xs).withPaths suite?.toList).toList) : f.WayUp path := by
  refine Forest.wayUp_of_holds ?_ path (Resolution.withPaths_topped hpath)
  cases suite? with
  | none => exact h.holds
  | some p => exact Forest.holds_tree.mpr ⟨(h.suite p rfl).2.2, h.holds⟩

/-- Filters that judge by ancestry say about a node, while its tree is being thinned, what they
    say in the forest in which all trees were planted. -/
theorem passes_asIn {filter : NodeFilter} {v : NodeRef → Except Fault Bool} {k : NodeRef}
    (h : Planted f₀ suite? f xs) (hcompose : Filter.compose (filters.map some) = .ok filter)
    (hjudge : ∀ part ∈ filters, part.ByAncestry)
    (hv : Forest.Answers (Forest.includes filter) f
      ((Find.grove xs).withPaths suite?.toList) v)
    (hx : x ∈ xs) (hk : k ∈ x.tree.toList) :
    Grove.passes v k = (filters.map (NodeFilter.asIn f)).all fun part =>
      part.includes (NodeRule.judge x.forest k) := by
  obtain ⟨rest, hpath⟩ :=
    Grove.exists_path suite?.toList (Find.mem_toList_grove.mpr ⟨x, hx, hk⟩)
  obtain ⟨f', halong, hvk⟩ := hv k rest hpath
  have hup := h.wayUp hpath
  rw [passes_of_answer hcompose hvk, List.all_map]
  refine Bool.eq_iff_iff.mpr ?_
  rw [List.all_eq_true, List.all_eq_true]
  refine forall₂_congr fun part hpart => ?_
  rw [Function.comp_apply, NodeFilter.includes_eq, NodeFilter.includes_eq, NodeFilter.verdict_asIn,
    hjudge part hpart f' f k k _ (.along hup halong) ⟨rest, hup, rfl⟩]

/-- The ancestry of a node that was placed below the node of a suite. -/
theorem hasAncestry_placed {k : NodeRef} (h : Planted f₀ suite? f xs)
    (hx : y.placed f₁ (Node.top? node?) ∈ xs) (hy : y.Sound) (hk : k ∈ y.tree.toList)
    (hnode : suite?.bind f.bare? = node?) :
    f.HasAncestry (k.shift f₁.size) (Node.hung node? (y.forest.ancestry k)) := by
  obtain ⟨rest, hpath⟩ := Grove.exists_path [] hk
  obtain ⟨-, -, -, -, hall⟩ := Grove.mem_of_mem_withPaths hpath
  have hown : y.forest.ancestry k = (k :: rest).filterMap y.forest.bare? :=
    Forest.HasAncestry.eq ⟨rest, Forest.wayUp_of_holds hy.holds _ hpath, rfl⟩
  -- the path is there, and goes on to the node of the suite
  have hplaced : (k :: rest).map (NodeRef.shift f₁.size)
      ∈ ((y.placed f₁ (Node.top? node?)).tree.withPaths []).toList := by
    have hmap : (y.tree.map (NodeRef.shift f₁.size)).withPaths []
        = (y.tree.withPaths []).map (List.map (NodeRef.shift f₁.size)) :=
      Grove.withPaths_map _ y.tree []
    rw [hy.tree_placed, hmap, Grove.toList_map]
    exact List.mem_map_of_mem hpath
  have hup := h.wayUp (Grove.append_mem_withPaths (Find.paths_grove hx hplaced) suite?.toList)
  refine ⟨rest.map (NodeRef.shift f₁.size) ++ suite?.toList, hup, ?_⟩
  show ((k :: rest).map (NodeRef.shift f₁.size) ++ suite?.toList).filterMap f.bare? = _
  rw [Node.hung, hown, List.filterMap_append, List.filterMap_map, List.map_filterMap]
  congr 1
  · refine List.filterMap_congr ?_
    intro r hr
    have hry : r ∈ y.tree.toList := (hall r hr).resolve_right List.not_mem_nil
    have hrx : r.shift f₁.size ∈ (y.placed f₁ (Node.top? node?)).tree.toList := by
      rw [hy.tree_placed, Grove.toList_map]
      exact List.mem_map_of_mem hry
    rw [Function.comp_apply, h.bare _ hx _ hrx, Find.placed, Forest.bare?_after,
      Forest.bare?_beneath]
  · rw [← hnode]
    cases suite? with
    | none => rfl
    | some p =>
        rw [Option.toList_some, List.filterMap_cons, Option.bind_some]
        cases f.bare? p <;> rfl

/-- Filters as they judge where trees were planted let survive what they let survive of the
    sketches, as they judge below the node of the suite. -/
theorem echoed (h : Planted f₀ suite? f xs) (hjudge : ∀ part ∈ filters, part.ByAncestry)
    (hnode : suite?.bind f.bare? = node?) (hplaced : Find.Placed (Node.top? node?) xs ys)
    (hys : ∀ y ∈ ys, y.Sound) :
    Find.Echoed (Node.top? node?) (filters.map (NodeFilter.asIn f))
      (filters.map (NodeFilter.below node?)) xs ys := by
  have hone : ∀ y : Find κ, ∀ f₁, y.placed f₁ (Node.top? node?) ∈ xs → y.Sound →
      ∀ r ∈ y.tree.toList, (y.placed f₁ (Node.top? node?)).survives
          (filters.map (NodeFilter.asIn f)) (r.shift f₁.size)
        = y.survives (filters.map (NodeFilter.below node?)) r := by
    intro y f₁ hx hy r hr
    refine hy.survives_placed_of ?_ hr
    intro k hk
    rw [List.all_map, List.all_map]
    refine Bool.eq_iff_iff.mpr ?_
    rw [List.all_eq_true, List.all_eq_true]
    refine forall₂_congr fun part hpart => ?_
    rw [Function.comp_apply, Function.comp_apply, NodeFilter.includes_eq, NodeFilter.includes_eq,
      NodeFilter.verdict_asIn, NodeFilter.verdict_below,
      (hjudge part hpart).verdict_eq (h.hasAncestry_placed hx hy hk hnode)]
  suffices hpart : ∀ {xs' ys' : List (Find κ)}, Find.Placed (Node.top? node?) xs' ys' →
      (∀ x ∈ xs', x ∈ xs) → (∀ y ∈ ys', y.Sound) → Find.Echoed (Node.top? node?)
        (filters.map (NodeFilter.asIn f)) (filters.map (NodeFilter.below node?)) xs' ys' from
    hpart hplaced (fun _ hx => hx) hys
  intro xs' ys' hplaced hsub hys
  induction hplaced with
  | nil => exact .nil
  | cons hx _ ih =>
      obtain ⟨f₁, rfl⟩ := hx
      have hy := hys _ (List.mem_cons_self ..)
      refine .cons ⟨f₁, rfl, hy, hone _ f₁ (hsub _ (List.mem_cons_self ..)) hy⟩ ?_
      exact ih (fun x hx => hsub x (List.mem_cons_of_mem _ hx))
        fun y hy => hys y (List.mem_cons_of_mem _ hy)

end Planted

namespace Resolution

variable {κ ω ρ : Type}

/-- **What is left** are the survivors of the filters, as they judge where the trees were
    planted. -/
theorem Settled.eq_kept_asIn {filters : List NodeFilter} {f₀ f f' : Forest}
    {suite? : Option NodeRef} {xs : List (Find κ)} {g : Grove NodeRef}
    (h : Settled filters f₀ suite? xs f f' g) (hjudge : ∀ filter ∈ filters, filter.ByAncestry) :
    g = Find.kept (filters.map (NodeFilter.asIn f)) xs :=
  h.eq_kept_of fun _ _ hcompose hv _ hx _ hk => h.planted.passes_asIn hcompose hjudge hv hx hk

/-! ## The list of a request -/

/-- What a plan lists for a request, below the node of a suite if there is one. -/
def listing (engines : List (Engine κ)) (v : World κ ω ρ) (request : DiscoveryRequest)
    (node? : Option Node) : List Identifier :=
  (node?.map fun n => n.identifier none).toList ++
    ((sketches engines request v).flatMap
      (Find.identifiers (request.nodeFilters.map (NodeFilter.below node?)) none)).map
        (Identifier.beneath ((Node.top? node?).map Segment.render))

/-- The roots a plan has for a request. -/
def rootListing (engines : List (Engine κ)) (v : World κ ω ρ) (request : DiscoveryRequest)
    (node? : Option Node) : List Identifier :=
  match node? with
  | none => (sketches engines request v).flatMap (Find.rootIdentifier none)
  | some n => [n.identifier none]

end Resolution

theorem Node.map_render_top? {node? : Option Node}
    (hid : ∀ n ∈ node?, n.id = .single n.id.last) :
    node?.map (fun n => n.id.render) = (Node.top? node?).map Segment.render := by
  cases node? with
  | none => rfl
  | some n =>
      show some n.id.render = some n.id.last.render
      rw [hid n rfl, UniqueId.render_single]
      rfl

namespace Survey

variable {κ ω ρ : Type}

/-- What is left of a survey is listed. -/
theorem Left.listing_eq {f f' : Forest} {s : Survey κ} {part : Grove NodeRef}
    {engines : List (Engine κ)} {v : World κ ω ρ} {node? : Option Node} (h : s.Left f' part)
    (hroot : s.Rooted f f') (hjudge : ∀ filter ∈ s.rooted.request.nodeFilters, filter.ByAncestry)
    (hf : f'.Holds none part) (hnode : s.rooted.suite?.bind f.bare? = node?)
    (hid : ∀ n ∈ node?, n.id = .single n.id.last)
    (hplaced : Find.Placed (Node.top? node?) s.finds
      (Resolution.sketches engines s.rooted.request v))
    (hys : ∀ y ∈ Resolution.sketches engines s.rooted.request v, y.Sound) :
    f'.identifiers part.toList = Resolution.listing engines v s.rooted.request node? ∧
      f'.identifiers part.roots = Resolution.rootListing engines v s.rooted.request node? := by
  obtain ⟨f₀, f₁, f₂, g, hg, rfl, hframe⟩ := h
  have hbare : ∀ r ∈ (Resolution.topped s.rooted.suite? g).toList, f'.bare? r = f₁.bare? r :=
    fun r hr => (Forest.bare?_congr (hframe r hr)).trans (hg.bare r)
  have hnode' : s.rooted.suite?.bind f'.bare? = node? := by
    rw [← hnode]
    exact Option.bind_congr fun p hp => (hroot p hp).2.2
  have hnode₁ : s.rooted.suite?.bind f₁.bare? = node? := by
    rw [← hnode']
    exact Option.bind_congr fun p hp =>
      (hbare p (Resolution.mem_topped.mpr (Or.inl hp))).symm
  have hkept := hg.eq_kept_asIn hjudge
  subst hkept
  have htop : s.rooted.suite?.bind f'.idText? = (Node.top? node?).map Segment.render := by
    rw [← Node.map_render_top? hid, ← hnode', Option.map_bind]
    exact Option.bind_congr fun p _ => f'.idText?_eq p
  obtain ⟨hnodes, hroots⟩ := Find.identifiers_kept_echoed (Resolution.holds_of_topped hf)
    hg.planted.stood hg.planted.nodup (fun r hr x hx hrx =>
      (hbare r (Resolution.mem_topped.mpr (Or.inr hr))).trans (hg.planted.bare x hx r hrx))
    htop (hg.planted.echoed hjudge hnode₁ hplaced hys)
  cases hs : s.rooted.suite? with
  | none =>
      rw [hs] at hnode
      cases hnode
      exact ⟨hnodes, hroots.trans (List.map_id' _)⟩
  | some p =>
      -- the node of the suite comes first, and it is the only root
      rw [hs] at hnode' hf
      obtain ⟨hstands, -⟩ := Forest.holds_tree.mp hf
      obtain ⟨n, hn, -⟩ := hstands.exists_node
      have hn' : f'.bare? p = some n.bare := by rw [Forest.bare?, hn, Option.map_some]
      have hidentifier : f'.identifier? p = some (n.bare.identifier none) := by
        rw [Forest.identifier?_eq, hn', hstands.parent]
        rfl
      rw [Option.bind_some, hn'] at hnode'
      subst hnode'
      constructor
      · show f'.identifiers (Grove.tree p _).toList = _
        rw [Grove.toList_tree, Forest.identifiers_cons hidentifier, hnodes]
        rfl
      · show f'.identifiers [p] = _
        rw [Forest.identifiers_cons hidentifier]
        rfl

end Survey

/-! ## The list of a plan -/

namespace TestPlan

variable {plan plan' : TestPlan} {is rs : List Identifier} {f : Forest} {g : Grove NodeRef}

/-- A plan that identifiers were put into one after the other, with some roots. -/
def MadeOf (plan : TestPlan) (is rs : List Identifier) : Prop :=
  ∃ start, pushAll is {} = .ok start ∧ plan = { start with roots := rs }

/-- **The list makes the plan.** -/
theorem MadeOf.unique (h : plan.MadeOf is rs) (h' : plan'.MadeOf is rs) : plan' = plan := by
  obtain ⟨start, hstart, rfl⟩ := h
  obtain ⟨start', hstart', rfl⟩ := h'
  rw [Except.ok.inj (hstart.symm.trans hstart')]

theorem MadeOf.lists (h : plan.MadeOf is rs) : plan.Lists is := by
  obtain ⟨start, hstart, rfl⟩ := h
  have hlists : start.Lists is := lists_empty.pushAll hstart
  exact ⟨hlists.distinct, hlists.identifiers, hlists.children⟩

theorem MadeOf.roots (h : plan.MadeOf is rs) : plan.roots = rs := by
  obtain ⟨start, -, rfl⟩ := h
  rfl

theorem madeOf_of_ofRoots (hg : f.Holds none g) (hn : g.toList.Nodup)
    (h : ofRoots f g.roots = .ok plan) :
    plan.MadeOf (f.identifiers g.toList) (f.identifiers g.roots) := by
  have hroots := (indexes_of_ofRoots hg hn h).roots
  rw [ofRoots_eq hg hn] at h
  cases hpush : pushAll (f.identifiers g.toList) {} with
  | error e =>
      rw [hpush] at h
      cases h
  | ok start =>
      rw [hpush] at h
      cases h
      exact ⟨start, hpush, by rw [← hroots]⟩

end TestPlan

/-- The node of a suite has an id with one segment. -/
theorem Expansion.Planned.single {request : DiscoveryRequest} {f : Forest} {done : Expanded}
    {ds : List SuiteDeclaration} {q : RootedRequest} (h : Planned request f done ds)
    (hq : q ∈ done.rooted) : ∀ n ∈ q.suite?.bind f.bare?, n.id = .single n.id.last := by
  intro n hn
  obtain ⟨p, hp, hbare⟩ := Option.bind_eq_some_iff.mp hn
  obtain ⟨-, n', name, hn', hid⟩ := h.suite hq hp
  rw [hbare] at hn'
  cases hn'
  obtain ⟨s, hs, -⟩ := UniqueId.root_eq_ok hid
  rw [hs]
  rfl

/-- Lists for a request and for those of suites, one after the other. -/
def Expansion.gather (k : DiscoveryRequest → Option Node → List Identifier)
    (request : DiscoveryRequest) (suites : List SuiteDeclaration) : List Identifier :=
  k request none ++ suites.flatMap fun d => k (d.nested request) d.node.toOption

/-- What is listed for surveys is listed for the request and those of the suites that were
    planted. -/
theorem Expansion.Planned.gather_eq {κ : Type} {request : DiscoveryRequest} {f : Forest}
    {done : Expanded} {ds : List SuiteDeclaration} {ss : List (Survey κ)}
    (h : Planned request f done ds)
    (hrooted : ss.map Survey.rooted = ⟨request, none⟩ :: done.rooted)
    (k : DiscoveryRequest → Option Node → List Identifier) :
    ss.flatMap (fun s => k s.rooted.request (s.rooted.suite?.bind f.bare?))
      = gather k request ds := by
  have hpairs : done.rooted.map (fun q => (q.request, q.suite?.bind f.bare?))
      = ds.map fun d => (d.nested request, d.node.toOption) := by
    rw [← List.zip_map', h.requests, h.nodes, List.zip_map']
  let listed : RootedRequest → List Identifier := fun q => k q.request (q.suite?.bind f.bare?)
  calc ss.flatMap (fun s => listed s.rooted)
      = (ss.map Survey.rooted).flatMap listed := (List.flatMap_map ..).symm
    _ = k request none ++ done.rooted.flatMap listed := by
        rw [hrooted, List.flatMap_cons]
        rfl
    _ = gather k request ds := by
        have hflat := congrArg (List.flatMap fun a : DiscoveryRequest × Option Node => k a.1 a.2)
          hpairs
        rw [List.flatMap_map, List.flatMap_map] at hflat
        exact congrArg (k request none ++ ·) hflat

namespace Launcher

variable {κ ω ρ : Type} {l : Launcher κ ω ρ} {request : DiscoveryRequest} {w w' : World κ ω ρ}
  {plan : TestPlan}

/-- **What a plan lists** for filters that judge by ancestry: for each request, its own and those
    of the suites that are reached, what is listed for that. -/
theorem discover_listing (hfresh : ∀ e ∈ l.engines, e.BuildsFresh)
    (hp : ∀ e ∈ l.engines, e.Placeless) (hr : ∀ e ∈ l.engines, e.Rerootable)
    (hjudge : ∀ filter ∈ request.nodeFilters, filter.ByAncestry)
    (hsuites : ∀ d ∈ SuiteDeclaration.distinct (Expansion.reached l.resolver? request w),
      ∀ filter ∈ d.nodeFilters, filter.ByAncestry)
    (h : (l.discover (some request)).on w = (.ok plan, w')) (v : World κ ω ρ) :
    plan.MadeOf
      (Expansion.gather (Resolution.listing l.engines v) request
        (SuiteDeclaration.distinct (Expansion.reached l.resolver? request w)))
      (Expansion.gather (Resolution.rootListing l.engines v) request
        (SuiteDeclaration.distinct (Expansion.reached l.resolver? request w))) := by
  obtain ⟨rs, hresolve, hplan⟩ := discover_eq_ok h
  obtain ⟨done, w₁, hexpand, hplanned, -, hrooted, hbare, parts, hparts, hholds, hnodup,
    hroots⟩ := resolve_eq_ok hfresh hresolve
  rw [hroots] at hplan
  have hpart : ∀ s ∈ l.surveys .discovery (⟨request, none⟩ :: done.rooted) w₁, ∀ part,
      s.Left w'.forest part →
      w'.forest.Holds none part →
      w'.forest.identifiers part.toList
          = Resolution.listing l.engines v s.rooted.request (s.rooted.suite?.bind w₁.forest.bare?) ∧
        w'.forest.identifiers part.roots = Resolution.rootListing l.engines v s.rooted.request
          (s.rooted.suite?.bind w₁.forest.bare?) := by
    intro s hs part hleft hpart
    have hq := Survey.rooted_eq_or_mem hrooted hs
    have hid : ∀ n ∈ s.rooted.suite?.bind w₁.forest.bare?, n.id = .single n.id.last := by
      rcases hq with hq | hq
      · rw [hq]
        exact fun n hn => by cases hn
      · exact hplanned.single hq
    have hrootedAt : s.Rooted w₁.forest w'.forest := Survey.rooted_of_planned hplanned hbare hq
    have hfilters : ∀ filter ∈ s.rooted.request.nodeFilters, filter.ByAncestry := by
      intro filter hfilter
      rcases hq with hq | hq
      · rw [hq] at hfilter
        exact hjudge filter hfilter
      · rcases hplanned.mem_nodeFilters hq hfilter with hfilter | ⟨d, hd, hfilter⟩
        · exact hjudge filter hfilter
        · exact hsuites d hd filter hfilter
    have htop : (s.rooted.suite?.bind w₁.forest.bare?).map Node.id
        = (Node.top? (s.rooted.suite?.bind w₁.forest.bare?)).map UniqueId.single := by
      rw [Node.top?, Option.map_map]
      exact Option.map_congr hid
    obtain ⟨hplaced, -⟩ := placed_of_surveys hfresh hp (fun e he => hr e he _) hexpand hplanned
      hresolve hs htop v
    exact hleft.listing_eq hrootedAt hfilters hpart rfl hid hplaced fun y hy =>
      Resolution.sound_of_sketches hfresh hp hy
  obtain ⟨hids, hrootIds⟩ := Survey.flatMap_row hparts hpart hholds
  have hmade := TestPlan.madeOf_of_ofRoots hholds hnodup hplan
  rw [hids, hrootIds] at hmade
  rw [hplanned.gather_eq hrooted, hplanned.gather_eq hrooted] at hmade
  exact hmade

end Launcher

end TestLauncher
