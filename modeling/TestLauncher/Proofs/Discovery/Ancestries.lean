import TestLauncher.Proofs.Discovery.Listing
import TestLauncher.Proofs.Plan.Faithful

/-! # The tests of a plan by their ancestries

    The identifier of a node is in its ancestry, and so is what filters that judge by
    ancestry say about it.  When no suite is reached and engines find tests only where
    nothing is below them, the tests of a plan are therefore told without any forest: they
    are those of the ancestries of tests that the engines sketch and all filters let
    through, one for each (`Launcher.testsOf_discover`). -/

namespace TestLauncher

/-! ## What an ancestry tells -/

namespace Node

/-- The identifier of a node with an ancestry. -/
def identified : List Node → Option Identifier
  | [] => none
  | n :: above => some (n.identifier (above.head?.map fun p => p.id.render))

/-- Whether an ancestry is that of a test. -/
def testing (a : List Node) : Bool := a.head?.any fun n => n.kind.isTest

theorem hung_none (a : List Node) : hung none a = a := by
  have hsame : Node.beneath (top? none) = fun n => n := funext Node.beneath_none
  rw [hung, hsame, List.map_id']
  exact List.append_nil a

end Node

namespace Forest

variable {f g : Forest} {r s : NodeRef} {a b : List Node}

/-- A node has one ancestry. -/
theorem HasAncestry.unique (h : f.HasAncestry r a) (h' : f.HasAncestry r b) : a = b :=
  h.eq.symm.trans h'.eq

/-- An ancestry begins with the node. -/
theorem HasAncestry.head? (h : f.HasAncestry r a) : a.head? = f.bare? r := by
  obtain ⟨rest, hup, rfl⟩ := h
  obtain ⟨n, hn⟩ := Option.isSome_iff_exists.mp (hup.node (List.mem_cons_self ..))
  rw [List.filterMap_cons, bare?, hn]
  rfl

/-- The identifier of a node is told by its ancestry. -/
theorem HasAncestry.identifier? (h : f.HasAncestry r a) : f.identifier? r = Node.identified a := by
  obtain ⟨rest, hup, rfl⟩ := h
  cases hup with
  | @top _ n hr hp =>
      have hbare : f.bare? r = some n.bare := by rw [bare?, hr, Option.map_some]
      rw [identifier?_eq, hbare, parent?, hr, Option.bind_some, hp, List.filterMap_cons, hbare]
      rfl
  | @step _ p n rest hr hp hup =>
      have hbare : f.bare? r = some n.bare := by rw [bare?, hr, Option.map_some]
      -- the parent comes next, and it is there
      obtain ⟨m, hm⟩ := Option.isSome_iff_exists.mp (hup.node (List.mem_cons_self ..))
      have hparent : f.bare? p = some m.bare := by rw [bare?, hm, Option.map_some]
      rw [identifier?_eq, hbare, parent?, hr, Option.bind_some, hp, Option.bind_some, idText?_eq,
        hparent, List.filterMap_cons, hbare, List.filterMap_cons, hparent]
      rfl

/-- So is whether it is a test. -/
theorem HasAncestry.isTest (h : f.HasAncestry r a) : f.isTest r = Node.testing a := by
  rw [Node.testing, h.head?, Forest.isTest, bare?, Option.any_map]
  rfl

/-- So is its source. -/
theorem HasAncestry.sourceName (h : f.HasAncestry r a) (h' : g.HasAncestry s a) :
    f.sourceName r = g.sourceName s := by
  refine sourceName_of_lineage ?_
  rw [lineage_eq, lineage_eq, h.eq, h'.eq]

end Forest

/-- Whether filters let a node with an ancestry through. -/
def NodeFilter.passOn (filters : List NodeFilter) (a : List Node) : Bool :=
  filters.all fun filter => (filter.verdictOn a).toOption.any Verdict.included

/-! ## The tests that were found -/

namespace Find

variable {κ : Type} {filters : List NodeFilter} {xs ys : List (Find κ)} {y : Find κ}
  {k r : NodeRef}

/-- There is nothing below a test, and the root is not one. -/
structure LeafTests (y : Find κ) : Prop where
  root : y.forest.isTest y.root = false
  leaf : ∀ k ∈ y.tree.toList, y.forest.isTest k = true → y.forest.children k = []

/-- The ancestry of a test that was found. -/
def TestAmong (ys : List (Find κ)) (a : List Node) : Prop :=
  ∃ y ∈ ys, ∃ k ∈ y.tree.toList, y.forest.isTest k = true ∧ y.forest.ancestry k = a

/-- The subtree of a node without children is the node. -/
theorem Sound.subtree_leaf (h : y.Sound) (hk : k ∈ y.tree.toList)
    (hleaf : y.forest.children k = []) : y.forest.subtree k = [k] := by
  rw [Forest.subtree_eq h.holds h.nodup hk,
    Forest.under_eq_cons_flatMap h.holds h.nodup nofun hk, hleaf]
  rfl

/-- A test with nothing below it survives when the filters let it through. -/
theorem Sound.survives_test (h : y.Sound) (hy : y.LeafTests) (hk : k ∈ y.tree.toList)
    (ht : y.forest.isTest k = true) :
    y.survives (filters.map (NodeFilter.below none)) k
      = NodeFilter.passOn filters (y.forest.ancestry k) := by
  have hsub := h.subtree_leaf hk (hy.leaf k hk ht)
  rw [survives, hsub, List.any_cons, List.any_nil, ht, hsub, List.any_cons, List.any_nil,
    Bool.true_and, Bool.or_false, Bool.or_false, List.all_map, NodeFilter.passOn]
  refine congrArg filters.all (funext fun filter => ?_)
  rw [Function.comp_apply, NodeFilter.includes_eq, NodeFilter.verdict_below, Node.hung_none]

/-- Kept are the roots that were found and the nodes that survive. -/
theorem mem_kept (hstood : ∀ x ∈ xs, x.forest.Holds none x.tree) (hn : (grove xs).toList.Nodup) :
    r ∈ (kept filters xs).toList ↔ ∃ x ∈ xs, r ∈ x.tree.toList ∧
      (r = x.root ∨ x.survives filters r = true) := by
  induction xs with
  | nil => simp [kept]
  | cons x xs ih =>
      have hns : (grove xs).toList.Nodup := (Grove.nodup_cons.mp hn).2.2.2.1
      rw [kept, Grove.toList_cons, List.mem_cons, List.mem_append,
        ih (fun y hy => hstood y (List.mem_cons_of_mem _ hy)) hns,
        toList_keep_survives (hstood x (List.mem_cons_self ..))
          (nodup_tree hn (List.mem_cons_self ..)), List.mem_filter, List.exists_mem_cons_iff,
        mem_tree, ← or_and_left, or_assoc]

/-- The paths in what is kept are paths in what was found. -/
theorem paths_kept {path : List NodeRef} (h : path ∈ ((kept filters xs).withPaths []).toList) :
    path ∈ ((grove xs).withPaths []).toList := by
  induction xs with
  | nil => exact h
  | cons x xs ih =>
      rw [kept, Grove.withPaths, Grove.toList_cons, List.mem_cons, List.mem_append] at h
      rw [grove, Grove.withPaths, Grove.toList_cons, List.mem_cons, List.mem_append]
      exact h.imp_right (Or.imp Grove.mem_withPaths_of_keep ih)

/-- A node of a tree that was found has the ancestry that is read off. -/
theorem Sound.hasAncestry (h : y.Sound) (hk : k ∈ y.tree.toList) :
    y.forest.HasAncestry k (y.forest.ancestry k) := by
  obtain ⟨rest, hpath⟩ := Grove.exists_path [] hk
  have hown : y.forest.HasAncestry k ((k :: rest).filterMap y.forest.bare?) :=
    ⟨rest, Forest.wayUp_of_holds h.holds _ hpath, rfl⟩
  rwa [hown.eq]

end Find

/-! ## The tests that are left -/

section

variable {α β : Type} {R : α → β → Prop} {as : List α} {bs : List β}

/-- Each value of the first list is related to one of the second. -/
theorem forall₂_mem_left (h : List.Forall₂ R as bs) : ∀ a ∈ as, ∃ b ∈ bs, R a b := by
  induction h with
  | nil => exact fun a ha => absurd ha List.not_mem_nil
  | @cons a b as bs hab _ ih =>
      refine List.forall_mem_cons.mpr ⟨⟨b, List.mem_cons_self .., hab⟩, ?_⟩
      exact fun c hc => (ih c hc).imp fun d hd => ⟨List.mem_cons_of_mem _ hd.1, hd.2⟩

/-- Each value of the second list is related to one of the first. -/
theorem forall₂_mem_right (h : List.Forall₂ R as bs) : ∀ b ∈ bs, ∃ a ∈ as, R a b :=
  forall₂_mem_left (List.Forall₂.flip h)

end

/-- What is kept of trees has the ancestries it had when all of them were planted. -/
theorem Planted.hasAncestry_kept {κ : Type} {f₀ f f' : Forest} {xs : List (Find κ)}
    {filters : List NodeFilter} {r : NodeRef} {a : List Node} (h : Planted f₀ none f xs)
    (hf : f'.Holds none (Find.kept filters xs))
    (hbare : ∀ x ∈ (Find.kept filters xs).toList, f'.bare? x = f.bare? x)
    (hr : r ∈ (Find.kept filters xs).toList) (ha : f.HasAncestry r a) : f'.HasAncestry r a := by
  obtain ⟨rest, hpath⟩ := Grove.exists_path [] hr
  obtain ⟨-, -, -, -, hall⟩ := Grove.mem_of_mem_withPaths hpath
  obtain ⟨rest', hup, rfl⟩ := ha
  -- nothing along the way up was taken away
  have hsame : rest' = rest := hup.unique (h.wayUp (Find.paths_kept hpath))
  subst hsame
  refine ⟨rest', Forest.wayUp_of_holds hf _ hpath, List.filterMap_congr fun x hx => ?_⟩
  exact hbare x ((hall x hx).resolve_right List.not_mem_nil)

/-- A node that was found stands, with the ancestry it had, where its tree was planted. -/
theorem Planted.stands_placed {κ : Type} {f₀ f₁ f₂ : Forest} {xs : List (Find κ)} {y : Find κ}
    {k : NodeRef} (h : Planted f₀ none f₁ xs) (hx : y.placed f₂ none ∈ xs) (hy : y.Sound)
    (hk : k ∈ y.tree.toList) : k.shift f₂.size ∈ (y.placed f₂ none).tree.toList ∧
      f₁.HasAncestry (k.shift f₂.size) (y.forest.ancestry k) := by
  constructor
  · rw [hy.tree_placed, Grove.toList_map]
    exact List.mem_map_of_mem hk
  · have hnode : (none : Option NodeRef).bind f₁.bare? = none := rfl
    have hup := h.hasAncestry_placed hx hy hk hnode
    rwa [Node.hung_none] at hup

/-- **The tests that are left** of a survey without a suite are those that were found and that the
    filters let through, by their ancestries. -/
theorem Survey.Left.tests {κ : Type} {f' : Forest} {s : Survey κ} {part : Grove NodeRef}
    {ys : List (Find κ)} (h : s.Left f' part) (hsuite : s.rooted.suite? = none)
    (hjudge : ∀ filter ∈ s.rooted.request.nodeFilters, filter.ByAncestry)
    (hf : f'.Holds none part) (hplaced : Find.Placed none s.finds ys) (hys : ∀ y ∈ ys, y.Sound)
    (hleaf : ∀ y ∈ ys, y.LeafTests) :
    (∀ r ∈ part.toList, f'.isTest r = true → ∃ a, f'.HasAncestry r a ∧ Find.TestAmong ys a ∧
        NodeFilter.passOn s.rooted.request.nodeFilters a = true) ∧
      ∀ a, Find.TestAmong ys a → NodeFilter.passOn s.rooted.request.nodeFilters a = true →
        ∃ r ∈ part.toList, f'.HasAncestry r a := by
  obtain ⟨f₀, f₁, f₂, g, hg, rfl, hframe⟩ := h
  rw [hsuite] at hg hf hframe ⊢
  have hkept := hg.eq_kept_asIn hjudge
  subst hkept
  have hp := hg.planted
  have hbare : ∀ x ∈ (Find.kept (s.rooted.request.nodeFilters.map (NodeFilter.asIn f₁))
      s.finds).toList, f'.bare? x = f₁.bare? x :=
    fun x hx => (Forest.bare?_congr (hframe x hx)).trans (hg.bare x)
  have hnode : (none : Option NodeRef).bind f₁.bare? = none := rfl
  have hechoed := hp.echoed hjudge hnode hplaced hys
  constructor
  · intro r hr htest
    obtain ⟨x, hx, hrx, hkept⟩ := (Find.mem_kept hp.stood hp.nodup).mp hr
    obtain ⟨y, hy, f₂, rfl, hsound, hsame⟩ := forall₂_mem_left hechoed x hx
    rw [hsound.tree_placed, Grove.toList_map] at hrx
    obtain ⟨k, hk, rfl⟩ := List.mem_map.mp hrx
    have hup := hp.hasAncestry_kept hf hbare hr (hp.stands_placed hx hsound hk).2
    have htest' : y.forest.isTest k = true := by
      rw [(hsound.hasAncestry hk).isTest, ← hup.isTest, htest]
    refine ⟨_, hup, ⟨y, hy, k, hk, htest', rfl⟩, ?_⟩
    rcases hkept with hroot | hsurvives
    · rw [NodeRef.shift_inj.mp hroot, (hleaf y hy).root] at htest'
      cases htest'
    · rw [← hsound.survives_test (hleaf y hy) hk htest', ← hsame k hk, hsurvives]
  · rintro a ⟨y, hy, k, hk, htest, rfl⟩ hpass
    obtain ⟨x, hx, f₂, rfl, hsound, hsame⟩ := forall₂_mem_right hechoed y hy
    obtain ⟨hmem, hup⟩ := hp.stands_placed hx hsound hk
    have hkept : k.shift f₂.size ∈ (Find.kept (s.rooted.request.nodeFilters.map
        (NodeFilter.asIn f₁)) s.finds).toList := by
      refine (Find.mem_kept hp.stood hp.nodup).mpr ⟨_, hx, hmem, Or.inr ?_⟩
      rw [hsame k hk, hsound.survives_test (hleaf y hy) hk htest, hpass]
    exact ⟨_, hkept, hp.hasAncestry_kept hf hbare hkept hup⟩

/-! ## The tests of a plan -/

/-- The tests of a plan are those of the ancestries that have a property, one for each. -/
structure TestPlan.TestsOf (plan : TestPlan) (P : List Node → Prop) : Prop where
  mem : ∀ i, i.isTest = true →
    (i ∈ plan.identifiers.values ↔ ∃ a, P a ∧ Node.identified a = some i)
  unique : ∀ a b i, P a → P b → Node.identified a = some i → Node.identified b = some i → a = b

/-- An identifier tells whether its node is a test. -/
theorem Forest.isTest_of_identifier? {f : Forest} {r : NodeRef} {i : Identifier}
    (h : f.identifier? r = some i) : i.isTest = f.isTest r := by
  rw [identifier?_eq] at h
  obtain ⟨n, hn, rfl⟩ := Option.map_eq_some_iff.mp h
  obtain ⟨m, hm, rfl⟩ := Option.map_eq_some_iff.mp hn
  rw [isTest, hm]
  rfl

/-- The tests of a plan are read off the trees it indexes. -/
theorem TestPlan.Indexes.testsOf {plan : TestPlan} {f : Forest} {g : Grove NodeRef}
    {P : List Node → Prop} (h : plan.Indexes f g)
    (htests : ∀ r ∈ g.toList, f.isTest r = true → ∃ a, f.HasAncestry r a ∧ P a)
    (hnodes : ∀ a, P a → ∃ r ∈ g.toList, f.HasAncestry r a) :
    plan.TestsOf P ∧ ∀ i ∈ plan.identifiers.values, i.isTest = true →
      ∃ r ∈ g.toList, f.identifier? r = some i ∧ ∃ a, f.HasAncestry r a ∧ P a := by
  have hfound : ∀ i ∈ plan.identifiers.values, i.isTest = true →
      ∃ r ∈ g.toList, f.identifier? r = some i ∧ ∃ a, f.HasAncestry r a ∧ P a := by
    intro i hi htest
    rw [h.lists.values] at hi
    obtain ⟨r, hr, hri⟩ := List.mem_filterMap.mp hi
    exact ⟨r, hr, hri, htests r hr ((Forest.isTest_of_identifier? hri).symm.trans htest)⟩
  refine ⟨⟨fun i htest => ⟨fun hi => ?_, ?_⟩, ?_⟩, hfound⟩
  · obtain ⟨r, -, hri, a, ha, hpa⟩ := hfound i hi htest
    exact ⟨a, hpa, ha.identifier?.symm.trans hri⟩
  · rintro ⟨a, hpa, hai⟩
    obtain ⟨r, hr, ha⟩ := hnodes a hpa
    rw [h.lists.values]
    exact List.mem_filterMap.mpr ⟨r, hr, ha.identifier?.trans hai⟩
  · intro a b i hpa hpb hai hbi
    obtain ⟨r, hr, ha⟩ := hnodes a hpa
    obtain ⟨s, hs, hb⟩ := hnodes b hpb
    -- one id is that of one node
    have hrs : r = s := Forest.eq_of_idText? h.lists.distinct hr hs
      (Forest.id_of_identifier? (ha.identifier?.trans hai)).1
      (Forest.id_of_identifier? (hb.identifier?.trans hbi)).1
    subst hrs
    exact ha.unique hb

/-- An engine that finds tests only where nothing is below them, and none at the root. -/
def Engine.LeafTests {κ : Type} (e : Engine κ) : Prop :=
  ∀ request id s root t, (e.discover request id).on s = (.ok (some root), t) →
    (Find.mk e root t.1).LeafTests

namespace Resolution

variable {κ ω ρ : Type} {engines : List (Engine κ)} {request : DiscoveryRequest} {v : World κ ω ρ}
  {y : Find κ}

/-- Engines with tests at the leaves only sketch such trees. -/
theorem leafTests_of_sketches (hleaf : ∀ e ∈ engines, e.LeafTests)
    (hy : y ∈ sketches engines request v) : y.LeafTests := by
  obtain ⟨e, he, h⟩ := List.mem_filterMap.mp hy
  rw [sketch?, find?] at h
  split at h
  · split at h
    · rename_i hd
      cases h
      exact hleaf e he _ _ _ _ _ hd
    · cases h
  · cases h

/-- The ancestries of the tests that engines sketch for a request and its filters let through. -/
def Outlined (engines : List (Engine κ)) (request : DiscoveryRequest) (v : World κ ω ρ)
    (a : List Node) : Prop :=
  Find.TestAmong (sketches engines request v) a ∧ NodeFilter.passOn request.nodeFilters a = true

end Resolution

/-- The nodes of trees that stand are listed in pre-order. -/
theorem Forest.preorder_roots {f : Forest} {g : Grove NodeRef} (hg : f.Holds none g)
    (hn : g.toList.Nodup) : f.preorder g.roots = g.toList := by
  rw [preorder, ← Grove.flatMap_under_roots hn]
  exact List.flatMap_congr fun r hr => subtree_eq hg hn (Grove.mem_toList_of_mem_roots hr)

namespace Launcher

variable {κ ω ρ : Type} {l : Launcher κ ω ρ} {request : DiscoveryRequest} {w w' : World κ ω ρ}
  {plan : TestPlan}

/-- Discovering a request yields a plan, and no suite is reached. -/
structure PlansAlone (l : Launcher κ ω ρ) (request : DiscoveryRequest) (w : World κ ω ρ)
    (plan : TestPlan) (w' : World κ ω ρ) : Prop where
  plans : (l.discover (some request)).on w = (.ok plan, w')
  suiteless : Expansion.reached l.resolver? request w = []

/-- **The tests of a plan** are those that the engines sketch and all filters let through, and each
    of them is a node of the trees the plan is made of. -/
theorem testsOf_discover (hfresh : ∀ e ∈ l.engines, e.BuildsFresh)
    (hp : ∀ e ∈ l.engines, e.Placeless) (hleaf : ∀ e ∈ l.engines, e.LeafTests)
    (hjudge : ∀ filter ∈ request.nodeFilters, filter.ByAncestry)
    (h : l.PlansAlone request w plan w') (v : World κ ω ρ) :
    plan.TestsOf (Resolution.Outlined l.engines request v) ∧
      ∃ rs, (l.resolve .discovery request).on w = (.ok rs, w') ∧
        TestPlan.ofRoots w'.forest (Resolution.allRoots rs) = .ok plan ∧
        ∀ i ∈ plan.identifiers.values, i.isTest = true →
          ∃ r ∈ w'.forest.preorder (Resolution.allRoots rs), w'.forest.identifier? r = some i ∧
            ∃ a, w'.forest.HasAncestry r a ∧ Resolution.Outlined l.engines request v a := by
  obtain ⟨rs, hresolve, hplan⟩ := discover_eq_ok h.plans
  obtain ⟨done, w₁, hexpand, hplanned, -, hrooted, -, parts, hparts, hholds, hnodup,
    hroots⟩ := resolve_eq_ok hfresh hresolve
  have hnone : done.rooted = [] := by
    have hrequests := hplanned.requests
    rw [h.suiteless] at hrequests
    exact List.map_eq_nil_iff.mp hrequests
  -- there is one survey, and what is left of it are the trees of the plan
  obtain ⟨s, hsurveys, hs⟩ := List.map_eq_singleton_iff.mp (hnone ▸ hrooted)
  have hmem : s ∈ l.surveys .discovery (⟨request, none⟩ :: done.rooted) w₁ := by
    rw [hnone, hsurveys]
    exact List.mem_singleton_self s
  rw [hnone, hsurveys] at hparts
  cases hparts with
  | @cons _ part _ parts hleft hnil =>
      cases hnil
      rw [Grove.row, Grove.row, Grove.append_nil] at hholds hnodup hroots
      obtain ⟨hplaced, -⟩ := placed_of_surveys hfresh hp (fun e he => (hp e he).rerootsTo_none)
        hexpand hplanned hresolve hmem (by rw [hs]; rfl) v
      obtain ⟨htests, hnodes⟩ := hleft.tests (by rw [hs]) (by rw [hs]; exact hjudge) hholds hplaced
        (fun y hy => Resolution.sound_of_sketches hfresh hp hy)
        fun y hy => Resolution.leafTests_of_sketches hleaf hy
      rw [hs] at htests hnodes
      have hindex := TestPlan.indexes_of_ofRoots hholds hnodup (hroots ▸ hplan)
      obtain ⟨htestsOf, hfound⟩ := hindex.testsOf htests fun a ha => hnodes a ha.1 ha.2
      refine ⟨htestsOf, rs, hresolve, hplan, ?_⟩
      rw [hroots, Forest.preorder_roots hholds hnodup]
      exact hfound

end Launcher

end TestLauncher
