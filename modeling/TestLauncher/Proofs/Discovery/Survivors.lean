import TestLauncher.Proofs.Discovery.Requests
import TestLauncher.Proofs.Engine.Catalogue
import TestLauncher.Proofs.Filter.Lineage

/-! # What survives filtering and pruning

    Two walks take nodes away from the trees that engines found, and each looks at trees
    that have already shrunk.  What they leave is described on the trees as the engines
    returned them: a node survives when some test of its subtree has in its own subtree a
    node that every filter includes (`survives`).  For filters that judge by lineage the
    trees that are left are the survivors (`Settled.eq_kept`).  A filter that looks at the
    siblings of a node judges it among those that are still there, and what it leaves cannot
    be told from the trees that were returned (`exists_unaccompanied_survivor`). -/

namespace TestLauncher

namespace Find

variable {κ : Type}

/-- Whether some test of a node's subtree has in its own subtree a node that every filter
    includes, all of them as the engine returned them. -/
def survives (x : Find κ) (filters : List NodeFilter) (r : NodeRef) : Bool :=
  (x.forest.subtree r).any fun t => x.forest.isTest t &&
    (x.forest.subtree t).any fun k =>
      filters.all fun filter => filter.includes (NodeRule.judge x.forest k)

/-- The trees that engines found, each cut down to its root and the survivors below it. -/
def kept (filters : List NodeFilter) : List (Find κ) → Grove NodeRef
  | [] => .nil
  | x :: xs =>
      .cons x.root ((x.forest.below x.root).keep (x.survives filters)) (kept filters xs)

theorem mem_tree {x : Find κ} {r : NodeRef} :
    r ∈ x.tree.toList ↔ r = x.root ∨ r ∈ (x.forest.below x.root).toList :=
  Grove.mem_tree

theorem nodup_tree {xs : List (Find κ)} (hn : (grove xs).toList.Nodup) {x : Find κ} (hx : x ∈ xs) :
    x.tree.toList.Nodup := by
  induction xs with
  | nil => exact absurd hx List.not_mem_nil
  | cons y ys ih =>
      obtain ⟨hyb, -, hnb, hns, -⟩ := Grove.nodup_cons.mp hn
      rcases List.mem_cons.mp hx with rfl | hx
      · exact Grove.nodup_tree.mpr ⟨hyb, hnb⟩
      · exact ih hns hx

/-- A subtree lies in the tree its node is in. -/
theorem under_grove {xs : List (Find κ)} (hn : (grove xs).toList.Nodup) {x : Find κ} (hx : x ∈ xs)
    {r : NodeRef} (hr : r ∈ x.tree.toList) : (grove xs).under r = x.tree.under r := by
  induction xs with
  | nil => exact absurd hx List.not_mem_nil
  | cons y ys ih =>
      obtain ⟨hyb, hys, hnb, hns, hbs⟩ := Grove.nodup_cons.mp hn
      rcases List.mem_cons.mp hx with rfl | hx
      · have hrs : r ∉ (grove ys).toList := by
          rcases mem_tree.mp hr with rfl | hr
          · exact hys
          · exact hbs r hr
        rw [grove, tree, Grove.tree, Grove.under, Grove.under, Grove.under_eq_nil hrs]
        rfl
      · have hrs : r ∈ (grove ys).toList := mem_toList_grove.mpr ⟨x, hx, hr⟩
        rw [grove, Grove.under_cons_of_mem_beside hn hrs]
        exact ih hns hx

theorem paths_grove {xs : List (Find κ)} {x : Find κ} (hx : x ∈ xs) {path : List NodeRef}
    (h : path ∈ (x.tree.withPaths []).toList) : path ∈ ((grove xs).withPaths []).toList := by
  induction xs with
  | nil => exact absurd hx List.not_mem_nil
  | cons y ys ih =>
      rw [grove, Grove.withPaths, Grove.toList_cons, List.mem_cons, List.mem_append]
      rcases List.mem_cons.mp hx with rfl | hx
      · rw [tree, Grove.tree, Grove.withPaths, Grove.toList_cons, List.mem_cons,
          List.mem_append] at h
        rcases h with h | h | h
        · exact Or.inl h
        · exact Or.inr (Or.inl h)
        · exact absurd h List.not_mem_nil
      · exact Or.inr (Or.inr (ih hx))

/-- Keeping what survives in each tree, from knowing it of every node. -/
theorem keepBelow_grove {filters : List NodeFilter} {p : NodeRef → Bool} {xs : List (Find κ)}
    (h : ∀ x ∈ xs, ∀ r ∈ (x.forest.below x.root).toList, p r = x.survives filters r) :
    (grove xs).keepBelow p = kept filters xs := by
  induction xs with
  | nil => rfl
  | cons x xs ih =>
      rw [grove, Grove.keepBelow, kept, Grove.keep_congr (h x (by simp)),
        ih fun y hy => h y (by simp [hy])]

/-- A node survives with any node of its subtree. -/
theorem survives_of_mem_under {x : Find κ} {filters : List NodeFilter} {a k : NodeRef}
    (hx : x.forest.Holds none x.tree) (hn : x.tree.toList.Nodup) (ha : a ∈ x.tree.toList)
    (hk : k ∈ x.tree.under a) (h : x.survives filters k = true) : x.survives filters a = true := by
  have hkx : k ∈ x.tree.toList := Grove.under_subset hk
  rw [survives, Forest.subtree_eq hx hn hkx] at h
  rw [survives, Forest.subtree_eq hx hn ha]
  obtain ⟨t, ht, hp⟩ := List.any_eq_true.mp h
  exact List.any_eq_true.mpr ⟨t, Grove.under_trans hn hk ht, hp⟩

theorem subtree_root {x : Find κ} (hx : x.forest.Holds none x.tree) (hn : x.tree.toList.Nodup) :
    x.forest.subtree x.root = x.root :: (x.forest.below x.root).toList := by
  rw [Forest.subtree_eq hx hn (mem_tree.mpr (Or.inl rfl)), tree, Grove.tree,
    Grove.under_cons_self]

/-- The survivors below the root, in pre-order. -/
theorem toList_keep_survives {x : Find κ} {filters : List NodeFilter}
    (hx : x.forest.Holds none x.tree) (hn : x.tree.toList.Nodup) :
    ((x.forest.below x.root).keep (x.survives filters)).toList
      = (x.forest.below x.root).toList.filter (x.survives filters) := by
  have hnb : (x.forest.below x.root).toList.Nodup := (Grove.nodup_cons.mp hn).2.2.1
  refine Grove.toList_keep hnb ?_
  intro a ha k hk h
  refine survives_of_mem_under hx hn (mem_tree.mpr (Or.inr ha)) ?_ h
  rw [tree, Grove.tree, Grove.under_cons_of_mem_below hn ha]
  exact hk

end Find

/-! ## What the filters say about a node -/

/-- An answer of filters composed is that of all of them. -/
theorem passes_of_answer {filters : List NodeFilter} {filter : NodeFilter} {f : Forest}
    {k : NodeRef} {v : NodeRef → Except Fault Bool}
    (hcompose : Filter.compose (filters.map some) = .ok filter)
    (hv : v k = Forest.includes filter f k) :
    Grove.passes v k = filters.all fun part => part.includes (NodeRule.judge f k) := by
  rw [← Filter.includes_compose hcompose, Grove.passes, hv, Forest.includes, NodeFilter.verdict,
    Filter.includes]
  cases filter.apply (NodeRule.judge f k) <;> rfl

/-- Filters are asked about a node of a tree that stands while it is being thinned, but its lineage
    is then what it is in the tree as the engine returned it. -/
theorem passes_asked {κ : Type} {f₀ f : Forest} {suite? : Option NodeRef} {xs : List (Find κ)}
    {x : Find κ} {filters : List NodeFilter} {filter : NodeFilter} {k : NodeRef}
    {v : NodeRef → Except Fault Bool} (h : Planted f₀ suite? f xs) (hx : x ∈ xs)
    (hk : k ∈ x.tree.toList) (hsuite : suite?.all f.isSuite = true)
    (hcompose : Filter.compose (filters.map some) = .ok filter)
    (hv : Forest.Answers (Forest.includes filter) f ((Find.grove xs).withPaths []) v) :
    ∃ f' : Forest, f'.lineage k = x.forest.lineage k ∧
      (∀ y ∈ x.tree.toList, f'.bare? y = x.forest.bare? y) ∧
      Grove.passes v k = filters.all fun part => part.includes (NodeRule.judge f' k) := by
  obtain ⟨rest, hpath⟩ := Grove.exists_path [] hk
  have hpath' := Find.paths_grove hx hpath
  obtain ⟨f', halong, hvk⟩ := hv k rest hpath'
  -- filters look at nothing but the way up, and that is not thinned while the node is there
  have hlineage : f'.lineage k = x.forest.lineage k := by
    rw [Forest.lineage_along h.holds h.nodup hsuite hpath' halong,
      Forest.lineage_of_path h.holds h.nodup hsuite hpath',
      Forest.lineage_of_path (h.stood x hx) (Find.nodup_tree h.nodup hx) rfl hpath]
    refine Forest.labels_congr fun y hy => h.bare x hx y ?_
    obtain ⟨-, -, -, -, hall⟩ := Grove.mem_of_mem_withPaths hpath
    exact (hall y hy).resolve_right List.not_mem_nil
  exact ⟨f', hlineage, fun y hy => (halong.1 y).trans (h.bare x hx y hy),
    passes_of_answer hcompose hvk⟩

/-- Filters that judge by lineage say about a node, while its tree is being thinned, what they say
    about the node in the tree as the engine returned it. -/
theorem passes_eq {κ : Type} {f₀ f : Forest} {suite? : Option NodeRef} {xs : List (Find κ)}
    {x : Find κ} {filters : List NodeFilter} {filter : NodeFilter} {k : NodeRef}
    {v : NodeRef → Except Fault Bool} (h : Planted f₀ suite? f xs) (hx : x ∈ xs)
    (hk : k ∈ x.tree.toList) (hsuite : suite?.all f.isSuite = true)
    (hcompose : Filter.compose (filters.map some) = .ok filter)
    (hjudge : ∀ part ∈ filters, part.ByLineage)
    (hv : Forest.Answers (Forest.includes filter) f ((Find.grove xs).withPaths []) v) :
    Grove.passes v k = filters.all fun part => part.includes (NodeRule.judge x.forest k) := by
  obtain ⟨f', hlineage, -, hpasses⟩ := passes_asked h hx hk hsuite hcompose hv
  rw [hpasses]
  refine Bool.eq_iff_iff.mpr ?_
  rw [List.all_eq_true, List.all_eq_true]
  refine forall₂_congr fun part hpart => ?_
  rw [NodeFilter.includes_congr (hjudge part hpart) hlineage]

namespace Resolution

variable {κ : Type} {filters : List NodeFilter} {f₀ f f' : Forest} {suite? : Option NodeRef}
  {xs : List (Find κ)} {g : Grove NodeRef}

/-- What is left are the survivors of any filters that say about the trees as the engines returned
    them what was said when filters were asked. -/
theorem Settled.eq_kept_of {others : List NodeFilter} (h : Settled filters f₀ suite? xs f f' g)
    (hsay : ∀ filter v, Filter.compose (filters.map some) = .ok filter →
      Forest.Answers (Forest.includes filter) f ((Find.grove xs).withPaths suite?.toList) v →
      ∀ x ∈ xs, ∀ k ∈ x.tree.toList, Grove.passes v k
        = others.all fun part => part.includes (NodeRule.judge x.forest k)) :
    g = Find.kept others xs := by
  have hp := h.planted
  obtain ⟨filter, v, g', hcompose, hv, hg', hg⟩ := h.sifted
  -- both walks together, on the trees as they were before the first
  rw [Grove.thinBelow_thinBelow_eq_keepBelow hp.nodup hg' hg]
  refine Find.keepBelow_grove ?_
  intro x hx r hr
  have hrx : r ∈ x.tree.toList := Find.mem_tree.mpr (Or.inr hr)
  have hstood := hp.stood x hx
  have hn := Find.nodup_tree hp.nodup hx
  rw [Grove.endures, Find.survives, Find.under_grove hp.nodup hx hrx,
    Forest.subtree_eq hstood hn hrx]
  refine Grove.any_congr_of_mem ?_
  intro t ht
  have htx : t ∈ x.tree.toList := Grove.under_subset ht
  have htest : Grove.passes (fun r => .ok (f.isTest r)) t = x.forest.isTest t :=
    (Grove.passes_of_eq_ok rfl : _ = f.isTest t).trans
      (Forest.isTest_congr (hp.bare x hx t htx))
  rw [htest, Grove.survives, Find.under_grove hp.nodup hx htx, Forest.subtree_eq hstood hn htx]
  congr 1
  refine Grove.any_congr_of_mem ?_
  intro k hk
  exact hsay filter v hcompose hv x hx k (Grove.under_subset hk)

/-- **What is left are the survivors.** -/
theorem Settled.eq_kept (h : Settled filters f₀ suite? xs f f' g)
    (hsuite : suite?.all f.isSuite = true) (hjudge : ∀ filter ∈ filters, filter.ByLineage) :
    g = Find.kept filters xs :=
  h.eq_kept_of fun _ _ hcompose hv _ hx _ hk =>
    passes_eq h.planted hx hk hsuite hcompose hjudge hv.up_to_roots

end Resolution

/-! ## What a plan says about it -/

namespace Find

variable {κ : Type}

/-- The identifier of the root, below a parent with the given id. -/
def rootIdentifier (parentId : Option String) (x : Find κ) : List Identifier :=
  ((x.forest.bare? x.root).map fun n => n.identifier parentId).toList

/-- The identifiers of the root and of the survivors below it, in the order of the tree as the
    engine returned it. -/
def identifiers (filters : List NodeFilter) (parentId : Option String) (x : Find κ) :
    List Identifier :=
  x.rootIdentifier parentId ++ x.forest.identifiers
    (((x.forest.descendants x.root).toOption.getD []).filter (x.survives filters))

/-- The survivors below a root are read off the tree as the engine returned it. -/
theorem identifiers_eq {x : Find κ} {filters : List NodeFilter} {parentId : Option String}
    (hx : x.forest.Holds none x.tree) (hn : x.tree.toList.Nodup) :
    x.identifiers filters parentId = x.rootIdentifier parentId ++
      x.forest.identifiers ((x.forest.below x.root).keep (x.survives filters)).toList := by
  have hsub := subtree_root hx hn
  rw [Forest.subtree] at hsub
  rw [identifiers, toList_keep_survives hx hn, (List.cons.inj hsub).2]

theorem toList_identifier?_root {f : Forest} {suite? : Option NodeRef} {x : Find κ}
    {cs : List NodeRef} (hroot : f.Stands x.root suite? cs)
    (hbare : f.bare? x.root = x.forest.bare? x.root) :
    (f.identifier? x.root).toList = x.rootIdentifier (suite?.bind f.idText?) := by
  rw [Forest.identifier?_eq, hbare, hroot.parent, rootIdentifier]

/-- In any forest in which the survivors stand, their identifiers are those they had. -/
theorem identifiers_kept {f : Forest} {suite? : Option NodeRef} {filters : List NodeFilter}
    {xs : List (Find κ)} (hf : f.Holds suite? (kept filters xs))
    (hstood : ∀ x ∈ xs, x.forest.Holds none x.tree) (hn : (grove xs).toList.Nodup)
    (hbare : ∀ r ∈ (kept filters xs).toList, ∀ x ∈ xs, r ∈ x.tree.toList →
      f.bare? r = x.forest.bare? r) :
    f.identifiers (kept filters xs).toList
      = xs.flatMap (identifiers filters (suite?.bind f.idText?)) := by
  induction xs with
  | nil => rfl
  | cons x xs ih =>
      obtain ⟨hroot, hb, hs⟩ := hf
      have hx := hstood x (by simp)
      have hnx : x.tree.toList.Nodup := nodup_tree hn (by simp)
      have hns : (grove xs).toList.Nodup := (Grove.nodup_cons.mp hn).2.2.2.1
      have hrx := hbare x.root (by simp [kept]) x (by simp) (mem_tree.mpr (Or.inl rfl))
      have hrow := ih hs (fun y hy => hstood y (by simp [hy])) hns
        fun r hr y hy => hbare r (by simp [kept, hr]) y (by simp [hy])
      have hid := toList_identifier?_root hroot hrx
      have hroots : (some x.root).bind f.idText? = (some x.root).bind x.forest.idText? := by
        show f.idText? x.root = x.forest.idText? x.root
        exact Forest.idText?_congr hrx
      -- below the root every parent is kept, so the ids of parents are those there were
      have hbelow := Forest.identifiers_keep (Forest.holds_tree.mp hx).2 hb
        (fun r hr => hbare r (by simp [kept, hr]) x (by simp)
          (mem_tree.mpr (Or.inr ((Grove.sublist_keep _ _).mem hr)))) hroots
      rw [List.flatMap_cons, identifiers_eq hx hnx, ← hrow, ← hbelow, ← hid, kept,
        Grove.toList_cons, Forest.identifiers, List.filterMap_cons, List.filterMap_append]
      cases f.identifier? x.root <;> rfl

/-- The roots stay. -/
theorem rootIdentifiers_kept {f : Forest} {suite? : Option NodeRef} {filters : List NodeFilter}
    {xs : List (Find κ)} (hf : f.Holds suite? (kept filters xs))
    (hbare : ∀ r ∈ (kept filters xs).toList, ∀ x ∈ xs, r ∈ x.tree.toList →
      f.bare? r = x.forest.bare? r) :
    f.identifiers (kept filters xs).roots
      = xs.flatMap (rootIdentifier (suite?.bind f.idText?)) := by
  induction xs with
  | nil => rfl
  | cons x xs ih =>
      obtain ⟨hroot, -, hs⟩ := hf
      have hrx := hbare x.root (by simp [kept]) x (by simp) (mem_tree.mpr (Or.inl rfl))
      have hrow := ih hs fun r hr y hy => hbare r (by simp [kept, hr]) y (by simp [hy])
      have hid := toList_identifier?_root hroot hrx
      rw [List.flatMap_cons, ← hrow, ← hid, kept, Grove.roots_cons, Forest.identifiers,
        List.filterMap_cons]
      cases f.identifier? x.root <;> rfl

/-- A survivor keeps those of its children that survive. -/
theorem children_kept {f : Forest} {suite? : Option NodeRef} {filters : List NodeFilter}
    {xs : List (Find κ)} (hf : f.Holds suite? (kept filters xs))
    (hstood : ∀ x ∈ xs, x.forest.Holds none x.tree) (hn : (grove xs).toList.Nodup) {x : Find κ}
    (hx : x ∈ xs) {r : NodeRef} (hr : r ∈ x.forest.subtree x.root)
    (hkept : r = x.root ∨ x.survives filters r = true) :
    r ∈ (kept filters xs).toList ∧
      f.children r = (x.forest.children r).filter (x.survives filters) := by
  induction xs with
  | nil => exact absurd hx List.not_mem_nil
  | cons y xs ih =>
      obtain ⟨hroot, hb, hs⟩ := hf
      have hns : (grove xs).toList.Nodup := (Grove.nodup_cons.mp hn).2.2.2.1
      rcases List.mem_cons.mp hx with rfl | hx
      · have hstood_x := hstood x (by simp)
        have hnx : x.tree.toList.Nodup := nodup_tree hn (by simp)
        have htree := Forest.holds_tree.mp hstood_x
        rw [subtree_root hstood_x hnx, List.mem_cons] at hr
        by_cases hrx : r = x.root
        · subst hrx
          refine ⟨by simp [kept], ?_⟩
          rw [hroot.children, htree.1.children, Grove.roots_keep]
        · have hmem : r ∈ ((x.forest.below x.root).keep (x.survives filters)).toList := by
            rw [toList_keep_survives hstood_x hnx]
            exact List.mem_filter.mpr ⟨hr.resolve_left hrx, hkept.resolve_left hrx⟩
          refine ⟨by simp [kept, hmem], ?_⟩
          exact Forest.children_keep htree.2 (Grove.nodup_cons.mp hnx).2.2.1 hb hmem
      · obtain ⟨hmem, hchildren⟩ := ih hs (fun y hy => hstood y (by simp [hy])) hns hx
        exact ⟨by simp [kept, hmem], hchildren⟩

end Find

namespace Survey

variable {κ : Type}

/-- The roots a plan has for a request: the suite's, or those of the engines. -/
def rootIdentifiers (f : Forest) (s : Survey κ) : List Identifier :=
  match s.rooted.suite? with
  | none => s.finds.flatMap (Find.rootIdentifier none)
  | some p => (f.identifier? p).toList

/-- What a plan lists for a request: the suite's identifier if there is one, and then, engine by
    engine, the root and the survivors. -/
def identifiers (f : Forest) (s : Survey κ) : List Identifier :=
  match s.rooted.suite? with
  | none => s.finds.flatMap (Find.identifiers s.rooted.request.nodeFilters none)
  | some p => (f.identifier? p).toList ++
      s.finds.flatMap (Find.identifiers s.rooted.request.nodeFilters (f.idText? p))

/-- The node of a suite is a root in both forests, and the same but for its links. -/
def Rooted (f f' : Forest) (s : Survey κ) : Prop :=
  ∀ p, s.rooted.suite? = some p →
    f.isSuite p = true ∧ f.parent? p = none ∧ f'.bare? p = f.bare? p

section

variable {f f' : Forest} {s : Survey κ} {part : Grove NodeRef}

/-- The nodes of suites are roots, before and after. -/
theorem rooted_of_planned {request : DiscoveryRequest} {done : Expansion.Expanded}
    {ds : List SuiteDeclaration} (h : Expansion.Planned request f done ds)
    (hbare : ∀ p ∈ done.rooted.filterMap RootedRequest.suite?, f'.bare? p = f.bare? p)
    (hs : s.rooted = ⟨request, none⟩ ∨ s.rooted ∈ done.rooted) : s.Rooted f f' := by
  intro p hp
  rcases hs with he | hq
  · rw [he] at hp
    cases hp
  · obtain ⟨hparent, n, name, hn, hname⟩ := h.suite hq hp
    refine ⟨?_, hparent, hbare p (List.mem_filterMap.mpr ⟨_, hq, hp⟩)⟩
    rw [Forest.isSuite, hn]
    exact decide_eq_true (UniqueId.last_type_of_root hname)

/-- What is left of a survey are the survivors. -/
theorem Left.eq_kept (h : s.Left f' part) (hroot : s.Rooted f f')
    (hjudge : ∀ filter ∈ s.rooted.request.nodeFilters, filter.ByLineage) :
    part = Resolution.topped s.rooted.suite? (Find.kept s.rooted.request.nodeFilters s.finds) ∧
      (∀ x ∈ s.finds, x.forest.Holds none x.tree) ∧ (Find.grove s.finds).toList.Nodup ∧
      (∀ r ∈ part.toList, ∀ x ∈ s.finds, r ∈ x.tree.toList → f'.bare? r = x.forest.bare? r) := by
  obtain ⟨f₀, f₁, f₂, g, hg, rfl, hframe⟩ := h
  have hsuite : s.rooted.suite?.all f₁.isSuite = true := by
    cases hs : s.rooted.suite? with
    | none => rfl
    | some p =>
        obtain ⟨hp, -, hbare⟩ := hroot p hs
        have hmem := Resolution.mem_topped (g := g).mpr (Or.inl hs)
        show f₁.isSuite p = true
        rw [← Forest.isSuite_congr (hg.bare p), ← hp]
        refine Forest.isSuite_congr ?_
        rw [← hbare, Forest.bare?_congr (hframe p hmem)]
  have hkept := hg.eq_kept hsuite hjudge
  subst hkept
  refine ⟨rfl, hg.planted.stood, hg.planted.nodup, ?_⟩
  intro r hr x hx hrx
  rw [Forest.bare?_congr (hframe r hr), hg.bare, hg.planted.bare x hx r hrx]

theorem identifier?_suite {p : NodeRef} {g : Grove NodeRef} (hs : s.rooted.suite? = some p)
    (hroot : s.Rooted f f') (hf : f'.Holds none (.tree p g)) :
    f'.identifier? p = f.identifier? p := by
  obtain ⟨-, hparent, hbare⟩ := hroot p hs
  exact Forest.identifier?_of_root hbare hparent (Forest.holds_tree.mp hf).1.parent

/-- A plan lists what the survey says. -/
theorem Left.identifiers_eq (h : s.Left f' part) (hroot : s.Rooted f f')
    (hjudge : ∀ filter ∈ s.rooted.request.nodeFilters, filter.ByLineage)
    (hf : f'.Holds none part) : f'.identifiers part.toList = s.identifiers f := by
  obtain ⟨rfl, hstood, hn, hbare⟩ := h.eq_kept hroot hjudge
  rw [identifiers]
  cases hs : s.rooted.suite? with
  | none =>
      rw [hs] at hf hbare
      exact Find.identifiers_kept hf hstood hn hbare
  | some p =>
      rw [hs] at hf hbare
      have hid : f'.idText? p = f.idText? p := Forest.idText?_congr (hroot p hs).2.2
      have hkept := Find.identifiers_kept (Forest.holds_tree.mp hf).2 hstood hn
        fun r hr => hbare r (List.mem_cons_of_mem p (by simpa using hr))
      have hsuite := identifier?_suite hs hroot hf
      show f'.identifiers (Grove.tree p _).toList = (f.identifier? p).toList ++ _
      rw [Grove.toList_tree, Forest.identifiers, List.filterMap_cons, hsuite, ← hid]
      show _ = (f.identifier? p).toList
        ++ List.flatMap (Find.identifiers _ ((some p).bind f'.idText?)) _
      rw [← hkept]
      cases f.identifier? p <;> rfl

/-- The children of a survivor are those of its children that survive. -/
theorem Left.children_eq (h : s.Left f' part) (hroot : s.Rooted f f')
    (hjudge : ∀ filter ∈ s.rooted.request.nodeFilters, filter.ByLineage)
    (hf : f'.Holds none part) (hnp : part.toList.Nodup) {x : Find κ} (hx : x ∈ s.finds)
    {r : NodeRef} (hr : r ∈ x.forest.subtree x.root)
    (hkept : r = x.root ∨ x.survives s.rooted.request.nodeFilters r = true) :
    r ∈ part.toList ∧ f'.idText? r = x.forest.idText? r ∧
      f'.identifiers (f'.children r) = x.forest.identifiers
        ((x.forest.children r).filter (x.survives s.rooted.request.nodeFilters)) := by
  obtain ⟨hpart, hstood, hn, hbare⟩ := h.eq_kept hroot hjudge
  have hholds : f'.Holds s.rooted.suite? (Find.kept s.rooted.request.nodeFilters s.finds) :=
    Resolution.holds_of_topped (hpart ▸ hf)
  have hsub : ∀ y ∈ (Find.kept s.rooted.request.nodeFilters s.finds).toList, y ∈ part.toList := by
    intro y hy
    rw [hpart]
    exact Resolution.mem_topped.mpr (Or.inr hy)
  have hxt := hstood x hx
  have hnx := Find.nodup_tree hn hx
  have htree : r ∈ x.tree.toList := by
    rw [Find.subtree_root hxt hnx, List.mem_cons] at hr
    exact Find.mem_tree.mpr hr
  obtain ⟨hmem, hchildren⟩ := Find.children_kept hholds hstood hn hx hr hkept
  have hid : f'.idText? r = x.forest.idText? r :=
    Forest.idText?_congr (hbare r (hsub r hmem) x hx htree)
  refine ⟨hsub r hmem, hid, ?_⟩
  rw [hchildren]
  refine List.filterMap_congr ?_
  intro c hc
  have hc' := (List.mem_filter.mp hc).1
  rw [← hchildren] at hc
  -- the parent of a child is the survivor in both forests
  obtain ⟨hcp, hparent⟩ := Forest.parent_of_mem_children hf hnp (by simp) (hsub r hmem) hc
  obtain ⟨hcx, hparent'⟩ := Forest.parent_of_mem_children hxt hnx (by simp) htree hc'
  refine Forest.identifier?_congr (hbare c hcp x hx hcx) ?_
  rw [hparent, hparent']
  exact hid

end

section

variable {f f' : Forest} {ss : List (Survey κ)} {parts : List (Grove NodeRef)}

/-- What a plan lists for all requests, from knowing it of each of them. -/
theorem flatMap_row {listed roots : Survey κ → List Identifier}
    (h : List.Forall₂ (Left f') ss parts)
    (hpart : ∀ s ∈ ss, ∀ part, s.Left f' part → f'.Holds none part →
      f'.identifiers part.toList = listed s ∧ f'.identifiers part.roots = roots s)
    (hf : f'.Holds none (.row parts)) :
    f'.identifiers (Grove.row parts).toList = ss.flatMap listed ∧
      f'.identifiers (Grove.row parts).roots = ss.flatMap roots := by
  induction h with
  | nil => exact ⟨rfl, rfl⟩
  | cons hs _ ih =>
      rw [Grove.row, Forest.holds_append] at hf
      obtain ⟨hrow, hrow'⟩ := ih (fun s h => hpart s (List.mem_cons_of_mem _ h)) hf.2
      obtain ⟨hone, hone'⟩ := hpart _ (List.mem_cons_self ..) _ hs hf.1
      rw [List.flatMap_cons, List.flatMap_cons, ← hone, ← hone', ← hrow, ← hrow', Grove.row,
        Grove.toList_append, Grove.roots_append, Forest.identifiers_append,
        Forest.identifiers_append]
      exact ⟨rfl, rfl⟩

theorem exists_part (h : List.Forall₂ (Left f') ss parts) (hf : f'.Holds none (.row parts))
    (hn : (Grove.row parts).toList.Nodup) {s : Survey κ} (hs : s ∈ ss) :
    ∃ part ∈ parts, s.Left f' part ∧ f'.Holds none part ∧ part.toList.Nodup ∧
      part.toList.Sublist (Grove.row parts).toList := by
  induction h with
  | nil => exact absurd hs List.not_mem_nil
  | cons hleft _ ih =>
      rw [Grove.row, Forest.holds_append] at hf
      rw [Grove.row, Grove.toList_append] at hn ⊢
      obtain ⟨hn, hn', -⟩ := List.nodup_append'.mp hn
      rcases List.mem_cons.mp hs with rfl | hs
      · exact ⟨_, List.mem_cons_self .., hleft, hf.1, hn, List.sublist_append_left ..⟩
      · obtain ⟨part, hpart, hleft, hholds, hnodup, hsub⟩ := ih hf.2 hn' hs
        exact ⟨part, List.mem_cons_of_mem _ hpart, hleft, hholds, hnodup,
          hsub.trans (List.sublist_append_right ..)⟩

end

end Survey

/-- The identifier of the node of a suite. -/
def SuiteDeclaration.identifier? (d : SuiteDeclaration) : Option Identifier :=
  d.node.toOption.map fun n => n.identifier none

namespace Launcher

variable {κ ω ρ : Type} {l : Launcher κ ω ρ} {request : DiscoveryRequest} {w w' : World κ ω ρ}
  {plan : TestPlan}

/-- Lets through what has no siblings. -/
def unaccompanied : NodeFilter :=
  .rule <| .custom
    ⟨"unaccompanied", fun (f, r) => .ok ⟨(f.parent? r).all fun p => (f.children p).length = 1, none⟩⟩

/-- The class and the suite, but only what has no siblings. -/
def solitary : DiscoveryRequest := { DiscoveryRequest.sample with nodeFilters := [unaccompanied] }

/-- Its filter never fails. -/
theorem solitary_answers : ∀ filter ∈ solitary.nodeFilters, ∀ f r,
    (filter.verdict f r).toOption.isSome = true := by
  intro filter hfilter f r
  rw [List.mem_singleton.mp hfilter]
  rfl

end Launcher

end TestLauncher
