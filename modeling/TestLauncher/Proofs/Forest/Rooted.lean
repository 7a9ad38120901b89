import TestLauncher.Proofs.Forest.Links
import TestLauncher.Proofs.Forest.Subtree

/-! # Going down from nodes whose way up ends

    A node has one way up.  Where each link down is met by a link up and the way up from
    some nodes ends (`Hung`), everything below them has a depth (`Deep`), no two nodes on a
    way up are the same, and a forest with finitely many nodes cannot be gone down for ever:
    what is below is a tree that stands (`Hung.holds_below`) and holds each of its nodes once
    (`Hung.nodup_below`).  Nodes without parents are the plainest case: below them are trees
    side by side (`Rooted.holds_grove`), and this needs no more than that the links along the
    way agree (`Rooted`). -/

namespace TestLauncher.Forest

variable {f : Forest} {roots : List NodeRef} {r p c : NodeRef} {k n : Nat}

/-- The nodes reached from some nodes along child links. -/
inductive Reached (f : Forest) (roots : List NodeRef) : NodeRef → Prop where
  | root {r : NodeRef} (hr : r ∈ roots) : Reached f roots r
  | child {p c : NodeRef} (hp : Reached f roots p) (hc : c ∈ f.children p) : Reached f roots c

/-- The number of steps up from a node to one without a parent. -/
inductive Deep (f : Forest) : Nat → NodeRef → Prop where
  | top {r : NodeRef} {n : Node} (hn : f.node? r = some n) (hp : n.parent = none) : Deep f 0 r
  | under {k : Nat} {p c : NodeRef} (hc : f.parent? c = some p) (hp : Deep f k p) :
      Deep f (k + 1) c

/-- Nodes without parents, below which every node is kept under its own id by its parent. -/
structure Rooted (f : Forest) (roots : List NodeRef) : Prop where
  parentless : ∀ r ∈ roots, ∃ n, f.node? r = some n ∧ n.parent = none
  kept : ∀ p, f.Reached roots p → ∀ id c, f.child? p id = some c →
    f.id? c = some id ∧ f.parent? c = some p

/-- Nodes from which the way up ends, and below which every node is kept under its own id by its
    parent. -/
structure Hung (f : Forest) (roots : List NodeRef) : Prop where
  up : ∀ r ∈ roots, ∃ k, f.Deep k r
  kept : ∀ p, f.Reached roots p → ∀ id c, f.child? p id = some c →
    f.id? c = some id ∧ f.parent? c = some p

/-- Roots without parents hang at a depth of zero. -/
theorem Rooted.hung (h : f.Rooted roots) : f.Hung roots where
  up := by
    intro r hr
    obtain ⟨n, hn, hp⟩ := h.parentless r hr
    exact ⟨0, .top hn hp⟩
  kept := h.kept

/-- In a linked forest nodes hang as soon as the way up from each ends. -/
theorem Linked.hung (hf : f.Linked) (hroots : ∀ r ∈ roots, ∃ k, f.Deep k r) : f.Hung roots where
  up := hroots
  kept := fun p _ id c hc => (hf.kept_iff p id c).mp hc

/-- Where all links agree, it is enough that the roots have no parents. -/
theorem Linked.rooted (hf : f.Linked)
    (hroots : ∀ r ∈ roots, ∃ n, f.node? r = some n ∧ n.parent = none) : f.Rooted roots where
  parentless := hroots
  kept := fun p _ id c hc => (hf.kept_iff p id c).mp hc

/-- That the roots have no parents can be computed. -/
theorem Linked.rooted_of_all (hf : f.Linked)
    (h : (roots.all fun r => (f.node? r).any fun n => n.parent = none) = true) :
    f.Rooted roots := by
  refine hf.rooted fun r hr => ?_
  obtain ⟨n, hn, hnone⟩ := (Option.any_eq_true ..).mp (List.all_eq_true.mp h r hr)
  exact ⟨n, hn, of_decide_eq_true hnone⟩

/-! ## The depth of a node -/

/-- The way up from a node has one length. -/
theorem Deep.unique {j : Nat} (hk : f.Deep k r) (hj : f.Deep j r) : k = j := by
  have htop : ∀ {r : NodeRef} {n : Node} {p : NodeRef}, f.node? r = some n → n.parent = none →
      f.parent? r ≠ some p := by
    intro r n p hn hp h
    rw [parent?_of_node? hn, hp] at h
    cases h
  induction hk generalizing j with
  | top hn hp =>
      cases hj with
      | top => rfl
      | under hc => exact absurd hc (htop hn hp)
  | under hc _ ih =>
      cases hj with
      | top hn hp => exact absurd hc (htop hn hp)
      | under hc' hp' =>
          rw [hc] at hc'
          cases hc'
          rw [ih hp']

/-- On the way up every node is met once. -/
theorem Deep.exists_path (h : f.Deep k r) :
    ∃ path : List NodeRef, path.length = k + 1 ∧ path.Nodup ∧
      ∀ x ∈ path, x.index < f.size ∧ ∃ j ≤ k, f.Deep j x := by
  induction h with
  | @top r n hn hp =>
      refine ⟨[r], rfl, List.nodup_singleton r, ?_⟩
      intro x hx
      rw [List.mem_singleton.mp hx]
      refine ⟨(f.node?_isSome_iff r).mp ?_, 0, Nat.le_refl 0, .top hn hp⟩
      rw [hn]
      rfl
  | @under k p c hc hp ih =>
      obtain ⟨path, hlen, hnodup, hpath⟩ := ih
      have hdeep : f.Deep (k + 1) c := .under hc hp
      refine ⟨c :: path, by rw [List.length_cons, hlen], List.nodup_cons.mpr ⟨?_, hnodup⟩, ?_⟩
      · -- a node further up is less deep, so it is another one
        intro hmem
        obtain ⟨-, j, hj, hdeep'⟩ := hpath c hmem
        have hkj := hdeep.unique hdeep'
        omega
      · intro x hx
        rcases List.mem_cons.mp hx with rfl | hx
        · refine ⟨(f.node?_isSome_iff x).mp ?_, k + 1, Nat.le_refl _, hdeep⟩
          obtain ⟨m, hm, -⟩ := Option.bind_eq_some_iff.mp hc
          rw [hm]
          rfl
        · obtain ⟨hlt, j, hj, hdeep'⟩ := hpath x hx
          exact ⟨hlt, j, Nat.le_succ_of_le hj, hdeep'⟩

/-- A node is less deep than the forest has nodes. -/
theorem Deep.lt_size (h : f.Deep k r) : k < f.size := by
  obtain ⟨path, hlen, hnodup, hpath⟩ := h.exists_path
  have hle := length_le_size hnodup fun x hx => (hpath x hx).1
  omega

/-! ## Nodes that stand once -/

/-- The node so many steps up from a node. -/
def climb (f : Forest) : Nat → NodeRef → Option NodeRef
  | 0, r => some r
  | n + 1, r => (f.climb n r).bind f.parent?

/-- From every node of trees whose roots are equally deep the way up passes a root, as many steps
    up as the node is deeper. -/
theorem exists_climb {g : Grove NodeRef} {pp : Option NodeRef} {x : NodeRef} (hg : f.Holds pp g)
    (hdeep : ∀ r ∈ g.roots, f.Deep k r) (hx : x ∈ g.toList) :
    ∃ i, f.Deep (k + i) x ∧ ∃ r ∈ g.roots, f.climb i x = some r := by
  induction g generalizing pp k with
  | nil => exact absurd hx List.not_mem_nil
  | cons a b s ihb ihs =>
      obtain ⟨-, hb, hs⟩ := hg
      have ha : f.Deep k a := hdeep a (by simp)
      rw [Grove.toList_cons, List.mem_cons, List.mem_append] at hx
      rcases hx with rfl | hx | hx
      · exact ⟨0, ha, x, by simp, rfl⟩
      · have hparent : ∀ c ∈ b.roots, f.parent? c = some a := fun c hc =>
          parent_of_mem_roots hb hc
        obtain ⟨i, hi, c, hc, hclimb⟩ := ihb hb (fun c hc => .under (hparent c hc) ha) hx
        refine ⟨i + 1, ?_, a, by simp, ?_⟩
        · rwa [Nat.add_comm i 1, ← Nat.add_assoc]
        · rw [climb, hclimb]
          exact hparent c hc
      · obtain ⟨i, hi, r, hr, hclimb⟩ := ihs hs (fun r hr => hdeep r (by simp [hr])) hx
        exact ⟨i, hi, r, by simp [hr], hclimb⟩

/-- The children of a node have different ids. -/
theorem Stands.nodup_ids {pp : Option NodeRef} {cs : List NodeRef} (h : f.Stands r pp cs) :
    (cs.map f.id?).Nodup := by
  obtain ⟨n, -, -, hv, hk⟩ := h
  have hids : n.children.values.map f.id? = n.children.keys.map some := by
    show (n.children.toList.map Prod.snd).map f.id? = (n.children.toList.map Prod.fst).map some
    rw [List.map_map, List.map_map]
    exact List.map_congr_left hk
  rw [← hv, hids]
  exact n.children.nodup.map fun _ _ => Option.some.inj

/-- No child stands twice below a node. -/
theorem Stands.nodup {pp : Option NodeRef} {cs : List NodeRef} (h : f.Stands r pp cs) :
    cs.Nodup := List.Nodup.of_map f.id? h.nodup_ids

/-- Trees whose roots are different and equally deep hold each of their nodes once. -/
theorem nodup_of_holds {g : Grove NodeRef} {pp : Option NodeRef} (hg : f.Holds pp g)
    (hroots : g.roots.Nodup) (hdeep : ∀ r ∈ g.roots, f.Deep k r) : g.toList.Nodup := by
  induction g generalizing pp k with
  | nil => exact List.nodup_nil
  | cons a b s ihb ihs =>
      obtain ⟨ha, hb, hs⟩ := hg
      obtain ⟨has, hsroots⟩ := List.nodup_cons.mp hroots
      have hka : f.Deep k a := hdeep a (by simp)
      have hks : ∀ r ∈ s.roots, f.Deep k r := fun r hr => hdeep r (by simp [hr])
      have hkb : ∀ c ∈ b.roots, f.Deep (k + 1) c := fun c hc =>
        .under (parent_of_mem_roots hb hc) hka
      -- from a node below the first root the way up passes that root, and no other as deep
      have hbelow : ∀ x ∈ b.toList, ∃ i, f.Deep (k + (i + 1)) x ∧ f.climb (i + 1) x = some a := by
        intro x hx
        obtain ⟨i, hi, c, hc, hclimb⟩ := exists_climb hb hkb hx
        refine ⟨i, ?_, ?_⟩
        · rwa [Nat.add_comm i 1, ← Nat.add_assoc]
        · rw [climb, hclimb]
          exact parent_of_mem_roots hb hc
      refine Grove.nodup_cons.mpr ⟨?_, ?_, ihb hb ha.nodup hkb, ihs hs hsroots hks, ?_⟩
      · intro hmem
        obtain ⟨i, hi, -⟩ := hbelow a hmem
        have := hka.unique hi
        omega
      · intro hmem
        obtain ⟨i, hi, r, hr, hclimb⟩ := exists_climb hs hks hmem
        obtain rfl : i = 0 := by
          have := hka.unique hi
          omega
        cases hclimb
        exact has hr
      · intro x hxb hxs
        obtain ⟨i, hi, hclimb⟩ := hbelow x hxb
        obtain ⟨j, hj, r, hr, hclimb'⟩ := exists_climb hs hks hxs
        obtain rfl : j = i + 1 := by
          have := hi.unique hj
          omega
        rw [hclimb] at hclimb'
        cases hclimb'
        exact has hr

/-! ## The trees below nodes -/

/-- Trees side by side, each read along child links down to some depth below its root. -/
def rowFrom (f : Forest) (n : Nat) (rs : List NodeRef) : Grove NodeRef :=
  rs.foldr (fun r beside => .cons r (f.belowFrom n r) beside) .nil

/-- The trees below some nodes. -/
def grove (f : Forest) (roots : List NodeRef) : Grove NodeRef := f.rowFrom f.size roots

theorem belowFrom_succ (n : Nat) (r : NodeRef) :
    f.belowFrom (n + 1) r = f.rowFrom n (f.children r) := rfl

theorem rowFrom_cons (n : Nat) (r : NodeRef) (rs : List NodeRef) :
    f.rowFrom n (r :: rs) = .cons r (f.belowFrom n r) (f.rowFrom n rs) := rfl

theorem roots_rowFrom (n : Nat) (rs : List NodeRef) : (f.rowFrom n rs).roots = rs := by
  induction rs with
  | nil => rfl
  | cons r rs ih => rw [rowFrom_cons, Grove.roots_cons, ih]

/-- Trees side by side list each root and then what is below it. -/
theorem toList_rowFrom (n : Nat) (rs : List NodeRef) :
    (f.rowFrom n rs).toList = rs.flatMap fun r => r :: (f.belowFrom n r).toList := by
  induction rs with
  | nil => rfl
  | cons r rs ih => rw [rowFrom_cons, Grove.toList_cons, ih, List.flatMap_cons, List.cons_append]

/-- A row is read one level further than what is below its roots. -/
theorem height_rowFrom (hn : ∀ r, (f.belowFrom n r).height ≤ n) (rs : List NodeRef) :
    (f.rowFrom n rs).height ≤ n + 1 := by
  induction rs with
  | nil => exact Nat.zero_le _
  | cons r rs ih =>
      have hr := hn r
      simp only [rowFrom_cons, Grove.height]
      omega

/-- Trees that are read to a depth are no higher. -/
theorem height_belowFrom (n : Nat) (r : NodeRef) : (f.belowFrom n r).height ≤ n := by
  induction n generalizing r with
  | zero => exact Nat.le_refl 0
  | succ n ih => exact height_rowFrom ih (f.children r)

/-- The trees of a forest are within its depth bound. -/
theorem height_grove (f : Forest) (roots : List NodeRef) :
    (f.grove roots).height ≤ f.depthBound :=
  height_rowFrom (height_belowFrom f.size) roots

/-- A row is held if each root stands over what is read below it. -/
theorem holds_rowFrom {pp : Option NodeRef} {rs : List NodeRef}
    (h : ∀ r ∈ rs, f.Stands r pp (f.belowFrom n r).roots ∧ f.Holds (some r) (f.belowFrom n r)) :
    f.Holds pp (f.rowFrom n rs) := by
  induction rs with
  | nil => trivial
  | cons r rs ih =>
      obtain ⟨hr, hbelow⟩ := h r (by simp)
      exact ⟨hr, hbelow, ih fun x hx => h x (by simp [hx])⟩

/-- Every node of trees that stand below a node that is reached is reached as well. -/
theorem Reached.of_holds (hr : f.Reached roots r) {g : Grove NodeRef}
    (hg : f.Holds (some r) g) (hroots : ∀ c ∈ g.roots, c ∈ f.children r) {x : NodeRef}
    (hx : x ∈ g.toList) : f.Reached roots x := by
  induction g generalizing r with
  | nil => exact absurd hx List.not_mem_nil
  | cons c b s ihb ihs =>
      obtain ⟨hc, hb, hs⟩ := hg
      have hcr : f.Reached roots c := .child hr (hroots c (by simp))
      rw [Grove.toList_cons, List.mem_cons, List.mem_append] at hx
      rcases hx with rfl | hx | hx
      · exact hcr
      · refine ihb hcr hb ?_ hx
        intro d hd
        rw [hc.children]
        exact hd
      · exact ihs hr hs (fun d hd => hroots d (by simp [hd])) hx

/-- A node at a depth is there. -/
theorem Deep.exists_node (h : f.Deep k r) : ∃ n, f.node? r = some n := by
  cases h with
  | top hn _ => exact ⟨_, hn⟩
  | under hc _ =>
      obtain ⟨n, hn, -⟩ := Option.bind_eq_some_iff.mp hc
      exact ⟨n, hn⟩

/-- A node that keeps its children under their own ids stands with its links. -/
theorem stands_of_kept {x : Node} (hr : f.node? r = some x)
    (hkept : ∀ id c, f.child? r id = some c → f.id? c = some id) :
    f.Stands r (f.parent? r) (f.children r) := by
  refine ⟨x, hr, (parent?_of_node? hr).symm, by rw [children, hr], ?_⟩
  intro e he
  refine hkept e.1 e.2 ?_
  rw [child?_of_node? hr]
  exact (OrderedMap.get?_eq_some_iff ..).mpr he

/-- Going down a tree comes to an end. -/
theorem descendants_of_holds (hroots : (f.below r).roots = f.children r)
    (hbelow : f.Holds (some r) (f.below r)) : f.descendants r = .ok (f.below r).toList := by
  obtain ⟨below, hdown, hflat⟩ := mapM_descendantsFrom hbelow (height_belowFrom f.size r)
  rw [hroots] at hdown
  rw [descendants, depthBound, descendantsFrom, hdown, ← hflat]
  rfl

section

variable (h : f.Hung roots)

include h

/-- Every node that is reached is there. -/
theorem Hung.exists_node (hr : f.Reached roots r) : ∃ n, f.node? r = some n := by
  cases hr with
  | root hr =>
      obtain ⟨k, hk⟩ := h.up r hr
      exact hk.exists_node
  | child hp hc =>
      obtain ⟨id, hid⟩ := mem_children_iff.mp hc
      obtain ⟨n, hn, -⟩ := Option.map_eq_some_iff.mp (h.kept _ hp id r hid).1
      exact ⟨n, hn⟩

/-- A child of a reached node has that node as parent. -/
theorem Hung.parent_of_mem_children (hp : f.Reached roots p) (hc : c ∈ f.children p) :
    f.parent? c = some p := by
  obtain ⟨id, hid⟩ := mem_children_iff.mp hc
  exact (h.kept p hp id c hid).2

/-- A node that is reached has its parent and its children, each child under its own id. -/
theorem Hung.stands (hr : f.Reached roots r) : f.Stands r (f.parent? r) (f.children r) := by
  obtain ⟨n, hn⟩ := h.exists_node hr
  exact stands_of_kept hn fun id c hc => (h.kept r hr id c hc).1

/-- The way up ends from every node that is reached. -/
theorem Hung.exists_deep (hr : f.Reached roots r) : ∃ k, f.Deep k r := by
  induction hr with
  | root hr => exact h.up _ hr
  | child hp hc ih =>
      obtain ⟨k, hk⟩ := ih
      exact ⟨k + 1, .under (h.parent_of_mem_children hp hc) hk⟩

/-- Reading as many levels as may be left below a node reads all of them. -/
theorem Hung.holds_belowFrom (hr : f.Reached roots r) (hk : f.Deep k r)
    (hn : f.size ≤ n + k) :
    (f.belowFrom n r).roots = f.children r ∧ f.Holds (some r) (f.belowFrom n r) := by
  induction n generalizing r k with
  | zero =>
      have hlt := hk.lt_size
      omega
  | succ n ih =>
      rw [belowFrom_succ]
      refine ⟨roots_rowFrom n _, holds_rowFrom ?_⟩
      intro c hc
      have hparent := h.parent_of_mem_children hr hc
      have hcr : f.Reached roots c := .child hr hc
      obtain ⟨hcroots, hbelow⟩ := ih hcr (.under hparent hk) (by omega)
      have hstands := h.stands hcr
      rw [hparent, ← hcroots] at hstands
      exact ⟨hstands, hbelow⟩

/-- **What is below such a node is a tree**, however the forest came about. -/
theorem Hung.holds_below (hr : f.Reached roots r) :
    (f.below r).roots = f.children r ∧ f.Holds (some r) (f.below r) := by
  obtain ⟨k, hk⟩ := h.exists_deep hr
  exact h.holds_belowFrom hr hk (Nat.le_add_right ..)

/-- Each node stands in the tree once. -/
theorem Hung.nodup_below (hr : f.Reached roots r) :
    (Grove.tree r (f.below r)).toList.Nodup := by
  obtain ⟨k, hk⟩ := h.exists_deep hr
  obtain ⟨hroots, hbelow⟩ := h.holds_below hr
  have hstands := h.stands hr
  rw [← hroots] at hstands
  refine nodup_of_holds (k := k) (holds_tree.mpr ⟨hstands, hbelow⟩) (List.nodup_singleton r) ?_
  intro x hx
  rw [List.mem_singleton.mp hx]
  exact hk

/-- Going down from a node that is reached comes to an end. -/
theorem Hung.descendants (hr : f.Reached roots r) :
    f.descendants r = .ok (f.below r).toList := by
  obtain ⟨hroots, hbelow⟩ := h.holds_below hr
  exact descendants_of_holds hroots hbelow

/-- A node's subtree is the node and what is below it. -/
theorem Hung.subtree (hr : f.Reached roots r) : f.subtree r = r :: (f.below r).toList := by
  rw [Forest.subtree, h.descendants hr]
  rfl

/-- What is in the subtree of a root is reached from the roots. -/
theorem Hung.reached_of_mem_subtree {x : NodeRef} (hx : x ∈ roots.flatMap f.subtree) :
    f.Reached roots x := by
  obtain ⟨r, hr, hx⟩ := List.mem_flatMap.mp hx
  rw [h.subtree (.root hr)] at hx
  obtain ⟨hroots, hbelow⟩ := h.holds_below (.root hr)
  rcases List.mem_cons.mp hx with rfl | hx
  · exact .root hr
  · refine Reached.of_holds (.root hr) hbelow ?_ hx
    intro c hc
    rwa [hroots] at hc

end

/-! ## One node and what is below it -/

/-- A node is reached from itself. -/
theorem reached_self : f.Reached [r] r := .root (List.mem_singleton.mpr rfl)

/-- What is reached from a reached node is reached. -/
theorem Reached.trans {x : NodeRef} (h : f.Reached roots r) (hx : f.Reached [r] x) :
    f.Reached roots x := by
  induction hx with
  | root hx => rwa [List.mem_singleton.mp hx]
  | child _ hc ih => exact .child ih hc

section

variable (h : f.Hung roots) (hr : f.Reached roots r)

include h hr

/-- A reached node hangs by itself. -/
theorem Hung.one : f.Hung [r] where
  up := by
    intro x hx
    rw [List.mem_singleton.mp hx]
    exact h.exists_deep hr
  kept := fun p hp => h.kept p (hr.trans hp)

/-- The subtree of a node is what is reached from it. -/
theorem Hung.mem_subtree_iff {x : NodeRef} : x ∈ f.subtree r ↔ f.Reached [r] x := by
  obtain ⟨hroots, hbelow⟩ := h.holds_below hr
  have hn := h.nodup_below hr
  constructor
  · intro hx
    refine (h.one hr).reached_of_mem_subtree ?_
    rwa [List.flatMap_singleton]
  · intro hx
    rw [h.subtree hr]
    induction hx with
    | root hx =>
        rw [List.mem_singleton.mp hx]
        exact List.mem_cons_self ..
    | @child p c _ hc ih =>
        rcases List.mem_cons.mp ih with rfl | hp
        · rw [← hroots] at hc
          exact List.mem_cons_of_mem _ (Grove.mem_toList_of_mem_roots hc)
        · have hpr : some r ≠ some p := fun e =>
            (Grove.nodup_tree.mp hn).1 (Option.some.inj e ▸ hp)
          have hmem :=
            (Forest.parent_of_mem_children hbelow (Grove.nodup_tree.mp hn).2 hpr hp hc).1
          exact List.mem_cons_of_mem _ hmem

end

/-! ## Trees side by side -/

section

variable (h : f.Rooted roots)

include h

/-- **What is below roots are trees** side by side. -/
theorem Rooted.holds_grove : f.Holds none (f.grove roots) := by
  refine holds_rowFrom ?_
  intro r hr
  obtain ⟨n, hn, hp⟩ := h.parentless r hr
  obtain ⟨hroots, hbelow⟩ := h.hung.holds_below (.root hr)
  have hstands := h.hung.stands (.root hr)
  rw [parent?_of_node? hn, hp, ← hroots] at hstands
  exact ⟨hstands, hbelow⟩

/-- The nodes of the trees, in pre-order. -/
theorem Rooted.toList_grove : (f.grove roots).toList = roots.flatMap f.subtree := by
  rw [grove, toList_rowFrom]
  refine List.flatMap_congr ?_
  intro r hr
  rw [h.hung.subtree (.root hr)]
  rfl

end

end TestLauncher.Forest
