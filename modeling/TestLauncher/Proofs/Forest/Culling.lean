import TestLauncher.Proofs.Filter.Ancestry
import TestLauncher.Proofs.Forest.Cutting
import TestLauncher.Proofs.Forest.PostOrder
import Mathlib.Data.List.Pairwise

/-! # Culling trees

    A culler goes through a tree in post-order.  It leaves nodes with children alone, judges
    those that have none left, and takes away the ones that do not pass (`Culler`).  What it
    judges is a node of a tree that has shrunk by then, but the way up from the node is what
    it was, and the verdict may depend on no more than that.

    So the outcome can be told from the tree before the cull.  A node goes when its
    subtree bears no node that passes (`bears`), it is judged when none of its children
    stays (`bereft`), and what is left is the forest with the nodes that go cut out of it
    (`Culler.on_trees`).  A second cull finds nothing to take (`Culler.on_trees_again`). -/

namespace TestLauncher.Forest

variable {τ : Type} {f g : Forest} {root r c x : NodeRef} {roots : List NodeRef}
  {passes : NodeRef → Bool} {note : NodeRef → τ → τ} {visit : NodeRef → Steps (Forest × τ) Unit}

/-- Whether some node of a subtree passes. -/
def bears (f : Forest) (passes : NodeRef → Bool) (r : NodeRef) : Bool := (f.subtree r).any passes

/-- Whether no child of a node bears a node that passes. -/
def bereft (f : Forest) (passes : NodeRef → Bool) (r : NodeRef) : Bool :=
  (f.children r).all fun c => !f.bears passes c

/-- What is gone, and those of some nodes that bear nothing. -/
def withCulled (f : Forest) (passes gone : NodeRef → Bool) (rs : List NodeRef) (x : NodeRef) :
    Bool :=
  gone x || decide (x ∈ rs) && !f.bears passes x

/-- The nodes below some roots that bear nothing. -/
def culled (f : Forest) (passes : NodeRef → Bool) (roots : List NodeRef) : NodeRef → Bool :=
  f.withCulled passes (fun _ => false) (roots.flatMap fun r => (f.below r).toList)

/-- The nodes below some roots in post-order, tree by tree. -/
def postOrders (f : Forest) (roots : List NodeRef) : List NodeRef :=
  roots.flatMap fun r => (f.below r).postOrder

/-- What is noted about nodes one after the other. -/
def noted (note : NodeRef → τ → τ) (rs : List NodeRef) (a : τ) : τ :=
  rs.foldl (fun a x => note x a) a

/-- A visitor that judges the nodes below a root which have no children left and takes away those
    that do not pass.  What it notes about a node depends on nothing else, and the judgement holds
    wherever the way up from the node is what it was. -/
structure Culler (f : Forest) (root : NodeRef) (passes : NodeRef → Bool)
    (note : NodeRef → τ → τ) (visit : NodeRef → Steps (Forest × τ) Unit) : Prop where
  plucks : Plucks Prod.fst visit
  top : ∀ g a, (visit root).on (g, a) = (.ok (), g, a)
  parent : ∀ r g a, g.children r ≠ [] → (visit r).on (g, a) = (.ok (), g, a)
  kept : ∀ r rest g a, r ≠ root → f.WayUp (r :: rest) → f.Along g (r :: rest) →
    g.children r = [] → passes r = true → (visit r).on (g, a) = (.ok (), g, note r a)
  taken : ∀ r rest g g' a, r ≠ root → f.WayUp (r :: rest) → f.Along g (r :: rest) →
    g.children r = [] → passes r = false → g.detach r = .ok g' →
    (visit r).on (g, a) = (.ok (), g', note r a)

/-! ## Ways up -/

/-- A node at the start of a way up is as deep as the way goes on. -/
theorem WayUp.deep {rest : List NodeRef} (h : f.WayUp (r :: rest)) : f.Deep rest.length r := by
  induction rest generalizing r with
  | nil =>
      cases h with
      | top hr hp => exact .top hr hp
  | cons p rest ih =>
      cases h with
      | step hr hp h => exact .under ((parent?_of_node? hr).trans hp) (ih h)

/-- There is a way up from every node at a depth. -/
theorem Deep.wayUp {k : Nat} (h : f.Deep k r) : ∃ rest, f.WayUp (r :: rest) := by
  induction h with
  | top hn hp => exact ⟨[], .top hn hp⟩
  | under hc _ ih =>
      obtain ⟨rest, hup⟩ := ih
      obtain ⟨n, hn, hp⟩ := Option.bind_eq_some_iff.mp hc
      exact ⟨_, .step hn hp hup⟩

/-- Where a way up meets a subtree, all before it is in the subtree. -/
theorem Linked.mem_subtree_of_wayUp (hf : f.Linked) {k : Nat} (hroot : f.Deep k root)
    {path : List NodeRef} (hup : f.WayUp path) (hx : x ∈ path) (hmem : x ∈ f.subtree root) :
    ∀ r ∈ path.head?, r ∈ f.subtree root := by
  induction hup with
  | top _ _ =>
      rintro r ⟨⟩
      rwa [← List.mem_singleton.mp hx]
  | @step r p n rest hr hp _ ih =>
      rintro _ ⟨⟩
      rcases List.mem_cons.mp hx with rfl | hx
      · exact hmem
      · have hpmem := ih hx p rfl
        have hchild : r ∈ f.children p :=
          (hf.mem_children_iff).mpr ((parent?_of_node? hr).trans hp)
        rw [hf.mem_subtree_iff hroot] at hpmem ⊢
        exact .child hpmem hchild

/-- Below a node everything is deeper. -/
theorem Linked.deeper (hf : f.Linked) {k : Nat} (hr : f.Deep k r) (hx : x ∈ f.subtree r) :
    x = r ∨ ∃ i, f.Deep (k + i + 1) x := by
  rw [hf.mem_subtree_iff hr] at hx
  induction hx with
  | root hx => exact Or.inl (List.mem_singleton.mp hx)
  | child _ hc ih =>
      have hparent := hf.mem_children_iff.mp hc
      rcases ih with rfl | ⟨i, hi⟩
      · exact Or.inr ⟨0, .under hparent hr⟩
      · exact Or.inr ⟨i + 1, .under hparent hi⟩

/-- Two nodes are not below each other. -/
theorem Linked.eq_of_mem_subtrees (hf : f.Linked) {k : Nat} (hr : f.Deep k r)
    (hx : x ∈ f.subtree r) (hxr : r ∈ f.subtree x) : x = r := by
  rcases hf.deeper hr hx with h | ⟨i, hi⟩
  · exact h
  · rcases hf.deeper hi hxr with h | ⟨j, hj⟩
    · exact h.symm
    · have hunique := hr.unique hj
      omega

/-- What is above a node is not in its subtree. -/
theorem Linked.not_mem_subtree_of_above (hf : f.Linked) {rest : List NodeRef}
    (hup : f.WayUp (r :: rest)) (hx : x ∈ rest) : x ∉ f.subtree r := by
  intro hmem
  cases hup with
  | top _ _ => exact absurd hx List.not_mem_nil
  | @step _ p _ rest hn hp hup' =>
      have hdeep := (WayUp.step hn hp hup').deep
      -- further up a node is less deep
      obtain ⟨rest', hup'', hlt⟩ := hup'.from_mem hx
      simp only [List.length_cons] at hlt hdeep
      rcases hf.deeper hdeep hmem with rfl | ⟨i, hi⟩
      · have hunique := hup''.deep.unique hdeep
        omega
      · have hunique := hup''.deep.unique hi
        omega

/-- The parent of a node is on the way up from it. -/
theorem WayUp.parent_mem {rest : List NodeRef} {p : NodeRef} (h : f.WayUp (r :: rest))
    (hp : f.parent? r = some p) : p ∈ rest := by
  cases h with
  | top hn hp' =>
      rw [parent?_of_node? hn, hp'] at hp
      cases hp
  | step hn hp' _ =>
      rw [parent?_of_node? hn, hp'] at hp
      cases hp
      exact List.mem_cons_self ..

/-- The children of a node of a subtree are in the subtree, below its root. -/
theorem Linked.child_mem_subtree (hf : f.Linked) {k : Nat} (hr : f.Deep k r)
    (hx : x ∈ f.subtree r) (hc : c ∈ f.children x) : c ∈ f.subtree r ∧ c ≠ r := by
  refine ⟨(hf.mem_subtree_iff hr).mpr (.child ((hf.mem_subtree_iff hr).mp hx) hc), ?_⟩
  rintro rfl
  obtain ⟨rest, hup⟩ := hr.wayUp
  exact hf.not_mem_subtree_of_above hup (hup.parent_mem (hf.mem_children_iff.mp hc)) hx

/-! ## Bearing -/

/-- A node bears what passes when it passes or one of its children bears. -/
theorem Linked.bears_eq (hf : f.Linked) {k : Nat} (hr : f.Deep k r) :
    f.bears passes r = (passes r || (f.children r).any (f.bears passes)) := by
  have hchild : ∀ c ∈ f.children r, f.Deep (k + 1) c := fun c hc =>
    .under (hf.mem_children_iff.mp hc) hr
  rw [Bool.eq_iff_iff, bears, List.any_eq_true, Bool.or_eq_true, List.any_eq_true]
  constructor
  · rintro ⟨x, hx, hpass⟩
    rw [hf.mem_subtree_iff hr] at hx
    rcases hx.cases_head with rfl | ⟨c, hc, hcx⟩
    · exact Or.inl hpass
    · refine Or.inr ⟨c, hc, List.any_eq_true.mpr ⟨x, ?_, hpass⟩⟩
      exact (hf.mem_subtree_iff (hchild c hc)).mpr hcx
  · rintro (hpass | ⟨c, hc, hbears⟩)
    · exact ⟨r, (hf.mem_subtree_iff hr).mpr reached_self, hpass⟩
    · obtain ⟨x, hx, hpass⟩ := List.any_eq_true.mp hbears
      rw [hf.mem_subtree_iff (hchild c hc)] at hx
      exact ⟨x, (hf.mem_subtree_iff hr).mpr (.trans (.child reached_self hc) hx), hpass⟩

/-- A node whose children bear nothing bears something if it passes itself. -/
theorem Linked.bears_of_bereft (hf : f.Linked) {k : Nat} (hr : f.Deep k r)
    (h : f.bereft passes r = true) : f.bears passes r = passes r := by
  have hnone : (f.children r).any (f.bears passes) = false := by
    rw [List.any_eq_false]
    intro c hc
    simpa using List.all_eq_true.mp h c hc
  rw [hf.bears_eq hr, hnone, Bool.or_false]

/-- A node with a child that bears something bears it too. -/
theorem Linked.bears_of_not_bereft (hf : f.Linked) {k : Nat} (hr : f.Deep k r)
    (h : f.bereft passes r = false) : f.bears passes r = true := by
  obtain ⟨c, hc, hbears⟩ := List.all_eq_false.mp h
  rw [hf.bears_eq hr, List.any_eq_true.mpr ⟨c, hc, by simpa using hbears⟩, Bool.or_true]

/-- What bears makes all above it bear. -/
theorem Linked.bears_of_mem_subtree (hf : f.Linked) {k : Nat} (hr : f.Deep k r)
    (hx : x ∈ f.subtree r) (h : f.bears passes x = true) : f.bears passes r = true := by
  obtain ⟨j, hj⟩ := hf.deep_of_mem_subtree hr hx
  obtain ⟨y, hy, hpass⟩ := List.any_eq_true.mp h
  rw [hf.mem_subtree_iff hj] at hy
  rw [hf.mem_subtree_iff hr] at hx
  exact List.any_eq_true.mpr ⟨y, (hf.mem_subtree_iff hr).mpr (hx.trans hy), hpass⟩

/-! ## One tree -/

/-- Nodes are noted one after the other. -/
theorem noted_append (rs ss : List NodeRef) (a : τ) :
    noted note (rs ++ ss) a = noted note ss (noted note rs a) := List.foldl_append

/-- What is not culled is gone if it was gone. -/
theorem withCulled_of_not_mem {gone : NodeRef → Bool} {rs : List NodeRef} (hx : x ∉ rs) :
    f.withCulled passes gone rs x = gone x := by
  rw [withCulled, decide_eq_false hx, Bool.false_and, Bool.or_false]

/-- What is culled is gone if it bears nothing. -/
theorem withCulled_of_mem {gone : NodeRef → Bool} {rs : List NodeRef} (hx : x ∈ rs)
    (hgone : gone x = false) : f.withCulled passes gone rs x = !f.bears passes x := by
  rw [withCulled, hgone, decide_eq_true hx, Bool.true_and, Bool.false_or]

/-- Culling nodes that all bear something takes nothing away. -/
theorem withCulled_of_bears {gone : NodeRef → Bool} {rs : List NodeRef}
    (h : ∀ x ∈ rs, f.bears passes x = true) : f.withCulled passes gone rs = gone := by
  funext x
  by_cases hx : x ∈ rs
  · rw [withCulled, h x hx, Bool.not_true, Bool.and_false, Bool.or_false]
  · exact withCulled_of_not_mem hx

/-- Culling some nodes and then others is culling them all. -/
theorem withCulled_withCulled {gone : NodeRef → Bool} {rs ss : List NodeRef} :
    f.withCulled passes (f.withCulled passes gone rs) ss = f.withCulled passes gone (rs ++ ss) := by
  funext x
  simp only [withCulled, List.mem_append, Bool.decide_or, Bool.and_or_distrib_right,
    Bool.or_assoc]

/-- It does not matter in which order nodes are culled. -/
theorem withCulled_congr {gone : NodeRef → Bool} {rs ss : List NodeRef}
    (h : ∀ x, x ∈ rs ↔ x ∈ ss) : f.withCulled passes gone rs = f.withCulled passes gone ss := by
  funext x
  rw [withCulled, withCulled, decide_eq_decide.mpr (h x)]

/-- A tree is culled below its root, at its root and beside it. -/
theorem withCulled_cons {gone : NodeRef → Bool} {b s : Grove NodeRef} :
    f.withCulled passes (f.withCulled passes (f.withCulled passes gone b.toList) [r]) s.toList
      = f.withCulled passes gone (Grove.cons r b s).toList := by
  rw [withCulled_withCulled, withCulled_withCulled]
  refine withCulled_congr fun x => ?_
  simp only [Grove.toList_cons, List.mem_cons, List.mem_append, List.not_mem_nil, or_false]
  exact or_left_comm

/-- Trees of which nothing is gone, the root of the cull not among them, and nothing of the way up
    from where they hang. -/
structure Whole (f : Forest) (root : NodeRef) (gone : NodeRef → Bool) (path : List NodeRef)
    (t : Grove NodeRef) : Prop where
  wayUp : f.WayUp path
  nodup : t.toList.Nodup
  above : ∀ x ∈ path, gone x = false
  apart : ∀ x ∈ path, x ∉ t.toList
  inside : ∀ x ∈ t.toList, gone x = false
  root : root ∉ t.toList

section

variable {gone gone' : NodeRef → Bool} {p : NodeRef} {rest : List NodeRef} {b s : Grove NodeRef}

/-- Below the root of a whole tree the trees are whole. -/
theorem Whole.below (h : f.Whole root gone (p :: rest) (.cons r b s))
    (hr : f.Stands r (some p) b.roots) : f.Whole root gone (r :: p :: rest) b := by
  obtain ⟨hrb, -, hnb, -⟩ := Grove.nodup_cons.mp h.nodup
  obtain ⟨n, hnode, hparent, -⟩ := hr.exists_node
  refine ⟨.step hnode hparent h.wayUp, hnb, ?_, ?_, fun x hx => h.inside x (by simp [hx]),
    fun hmem => h.root (by simp [hmem])⟩
  · exact List.forall_mem_cons.mpr ⟨h.inside r (by simp), h.above⟩
  · exact List.forall_mem_cons.mpr ⟨hrb, fun x hx hxb => h.apart x hx (by simp [hxb])⟩

/-- The trees beside the first one are whole while nothing goes but what is in that one. -/
theorem Whole.beside (h : f.Whole root gone (p :: rest) (.cons r b s))
    (hsame : ∀ x, x ≠ r → x ∉ b.toList → gone' x = gone x) :
    f.Whole root gone' (p :: rest) s := by
  obtain ⟨-, hrs, -, hns, hbs⟩ := Grove.nodup_cons.mp h.nodup
  refine ⟨h.wayUp, hns, ?_, fun x hx hxs => h.apart x hx (by simp [hxs]), ?_,
    fun hmem => h.root (by simp [hmem])⟩
  · intro x hx
    have hout := h.apart x hx
    rw [Grove.toList_cons, List.mem_cons, List.mem_append, not_or, not_or] at hout
    rw [hsame x hout.1 hout.2.1, h.above x hx]
  · intro x hx
    rw [hsame x (fun e => hrs (e ▸ hx)) fun hxb => hbs x hxb hx]
    exact h.inside x (by simp [hx])

end

section

variable (h : Culler f root passes note visit) (hf : f.Linked)

include h hf

/-- One node, when those below it have had their turn. -/
theorem Culler.on_node {gone : NodeRef → Bool} {rest : List NodeRef} {p : NodeRef} {a : τ}
    (hr : r ≠ root) (hup : f.WayUp (r :: p :: rest)) (hgone : ∀ x ∈ r :: p :: rest, gone x = false)
    (hc : ∀ c ∈ f.children r, gone c = !f.bears passes c) :
    (visit r).on (f.cut gone, a)
      = (.ok (), f.cut (f.withCulled passes gone [r]),
          if f.bereft passes r then note r a else a) := by
  have hk := hup.deep
  have hchildren : (f.cut gone).children r = (f.children r).filter (f.bears passes) := by
    rw [children_cut]
    refine List.filter_congr fun c hcr => ?_
    rw [hc c hcr, Bool.not_not]
  have hstays : f.bears passes r = true → f.withCulled passes gone [r] = gone := fun hbears =>
    withCulled_of_bears fun x hx => by rwa [List.mem_singleton.mp hx]
  cases hbereft : f.bereft passes r with
  | false =>
      obtain ⟨c, hcr, hbears⟩ := List.all_eq_false.mp hbereft
      have hne : (f.cut gone).children r ≠ [] := by
        rw [hchildren]
        exact List.ne_nil_of_mem (List.mem_filter.mpr ⟨hcr, by simpa using hbears⟩)
      rw [h.parent r _ a hne, hstays (hf.bears_of_not_bereft hk hbereft)]
      rfl
  | true =>
      have hempty : (f.cut gone).children r = [] := by
        rw [hchildren, List.filter_eq_nil_iff]
        intro c hcr
        simpa using List.all_eq_true.mp hbereft c hcr
      have halong := along_cut (f := f) hgone
      have hbears := hf.bears_of_bereft hk hbereft
      cases hpass : passes r with
      | true =>
          rw [h.kept r _ _ a hr hup halong hempty hpass, hstays (hbears.trans hpass)]
          rfl
      | false =>
          have hp : f.parent? r = some p := by
            cases hup with
            | step hn hp _ => exact (parent?_of_node? hn).trans hp
          have hdetach := detach_cut_leaf hf hp (hgone r (by simp)) hempty
          have hsame : (fun y => gone y || decide (y = r)) = f.withCulled passes gone [r] := by
            funext y
            rw [withCulled]
            by_cases hy : y = r
            · rw [hy, hbears, hpass]
              simp
            · simp [hy]
          rw [hsame] at hdetach
          rw [h.taken r _ _ _ a hr hup halong hempty hpass hdetach]
          rfl

/-- The trees below a node. -/
theorem Culler.on_grove (t : Grove NodeRef) :
    ∀ {p : NodeRef} {rest : List NodeRef} {gone : NodeRef → Bool} {a : τ},
      f.Holds (some p) t → f.Whole root gone (p :: rest) t →
      (t.postOrder.forM visit).on (f.cut gone, a)
        = (.ok (), f.cut (f.withCulled passes gone t.toList),
            noted note (t.postOrder.filter (f.bereft passes)) a) := by
  induction t with
  | nil =>
      intro p rest gone a _ _
      rw [Grove.toList_nil, withCulled_of_bears (List.forall_mem_nil _)]
      rfl
  | cons r b s ihb ihs =>
      rintro p rest gone a ⟨hr, hb, hs⟩ hwhole
      -- first what is below the root of the first tree
      have hwholeb := hwhole.below hr
      have hbelow := ihb (a := a) hb hwholeb
      generalize hgone₁ : f.withCulled passes gone b.toList = gone₁ at hbelow
      have hout₁ : ∀ x, x ∉ b.toList → gone₁ x = gone x := by
        intro x hx
        rw [← hgone₁, withCulled_of_not_mem hx]
      -- then that root
      have habove₁ : ∀ x ∈ r :: p :: rest, gone₁ x = false := by
        intro x hx
        rw [hout₁ x (hwholeb.apart x hx), hwholeb.above x hx]
      have hchildren₁ : ∀ c ∈ f.children r, gone₁ c = !f.bears passes c := by
        intro c hc
        rw [hr.children] at hc
        have hcb := Grove.mem_toList_of_mem_roots hc
        rw [← hgone₁, withCulled_of_mem hcb (hwholeb.inside c hcb)]
      have hself := h.on_node hf (a := noted note (b.postOrder.filter (f.bereft passes)) a)
        (fun e => hwhole.root (by simp [e])) hwholeb.wayUp habove₁ hchildren₁
      generalize hgone₂ : f.withCulled passes gone₁ [r] = gone₂ at hself
      have hout₂ : ∀ x, x ≠ r → x ∉ b.toList → gone₂ x = gone x := by
        intro x hxr hxb
        rw [← hgone₂, withCulled_of_not_mem (by simpa using hxr), hout₁ x hxb]
      -- and then the trees beside it
      have hbeside := ihs (a := if f.bereft passes r
          then note r (noted note (b.postOrder.filter (f.bereft passes)) a)
          else noted note (b.postOrder.filter (f.bereft passes)) a) hs (hwhole.beside hout₂)
      rw [Grove.postOrder, forM_append, Steps.on_bind_ok hbelow]
      show (visit r >>= fun _ => s.postOrder.forM visit).on _ = _
      rw [Steps.on_bind_ok hself, hbeside, ← hgone₂, ← hgone₁, withCulled_cons,
        List.filter_append, List.filter_cons, noted_append]
      cases f.bereft passes r <;> rfl

end

/-! ## Whole trees -/

/-- A visitor that takes away nothing but the node it visits sees the tree below a root as it
    stood. -/
theorem Plucks.on_tree (h : Plucks Prod.fst visit) (hf : f.Linked) {k : Nat}
    (hroot : f.Deep k root) (a : τ) :
    (visitPostOrder (do return (← get).1) visit root).on (f, a)
      = ((f.below root).postOrder.forM visit >>= fun _ => visit root).on (f, a) := by
  have hhung := hf.hung_one hroot
  obtain ⟨hroots, hbelow⟩ := hhung.holds_below reached_self
  have hstands := hhung.stands reached_self
  rw [← hroots] at hstands
  obtain ⟨rest, hup⟩ := hroot.wayUp
  have hparent : ∀ p, f.parent? root = some p → p ∉ (Grove.tree root (f.below root)).toList := by
    intro p hp
    rw [Grove.toList_tree, ← hhung.subtree reached_self]
    exact hf.not_mem_subtree_of_above hup (hup.parent_mem hp)
  let look : Steps (Forest × τ) Forest := do return (← get).1
  have hlook : ∀ s, look.on s = (.ok s.1, s) := fun _ => rfl
  rw [on_visitPostOrder hlook h (s := (f, a)) hstands hbelow (hhung.nodup_below reached_self)
    hparent, Grove.postOrder_tree, forM_append]
  have hlast : ([root].forM visit : Steps (Forest × τ) Unit) = visit root := bind_pure (visit root)
  rw [hlast]

/-- **A cull of one tree.** -/
theorem Culler.on_tree (h : Culler f root passes note visit) (hf : f.Linked) {k : Nat}
    (hroot : f.Deep k root) {gone : NodeRef → Bool} (hgone : ∀ x ∈ f.subtree root, gone x = false)
    (habove : ∀ rest, f.WayUp (root :: rest) → ∀ x ∈ rest, gone x = false) (a : τ) :
    (visitPostOrder (do return (← get).1) visit root).on (f.cut gone, a)
      = (.ok (), f.cut (f.withCulled passes gone (f.below root).toList),
          noted note ((f.below root).postOrder.filter (f.bereft passes)) a) := by
  have hhung := hf.hung_one hroot
  obtain ⟨-, hbelow⟩ := hhung.holds_below reached_self
  obtain ⟨hself, hnb⟩ := Grove.nodup_tree.mp (hhung.nodup_below reached_self)
  have hsubtree := hhung.subtree reached_self
  rw [hsubtree] at hgone
  obtain ⟨hroot', hinside⟩ := List.forall_mem_cons.mp hgone
  obtain ⟨rest, hup⟩ := hroot.wayUp
  have hapart : ∀ x ∈ rest, x ∉ (f.below root).toList := by
    intro x hx hmem
    refine hf.not_mem_subtree_of_above hup hx ?_
    rw [hsubtree]
    exact List.mem_cons_of_mem root hmem
  have hwhole : f.Whole root gone (root :: rest) (f.below root) :=
    ⟨hup, hnb, List.forall_mem_cons.mpr ⟨hroot', habove rest hup⟩,
      List.forall_mem_cons.mpr ⟨hself, hapart⟩, hinside, hself⟩
  have hsame : (f.cut gone).below root = f.below root := by
    rw [hf.below_cut hroot]
    exact Grove.keep_of_forall fun x hx => by rw [hinside x hx, Bool.not_false]
  have hgrove := h.on_grove hf (f.below root) (a := a) hbelow hwhole
  obtain ⟨j, hj⟩ := (f.loosened_cut gone).deep hroot
  rw [h.plucks.on_tree hf.cut hj, hsame, Steps.on_bind_ok hgrove, h.top]

/-! ## Several trees -/

/-- A node that is not below the roots is not culled. -/
theorem culled_of_not_below {rs : List NodeRef}
    (hx : x ∉ rs.flatMap fun r => (f.below r).toList) : f.culled passes rs x = false :=
  withCulled_of_not_mem hx

/-- Neither is a node outside of the trees of the roots. -/
theorem culled_of_not_mem {rs : List NodeRef} (hf : f.Linked) (hrs : ∀ r ∈ rs, ∃ k, f.Deep k r)
    (hx : x ∉ rs.flatMap f.subtree) : f.culled passes rs x = false := by
  refine culled_of_not_below fun hmem => hx ?_
  obtain ⟨r, hr, hmem⟩ := List.mem_flatMap.mp hmem
  obtain ⟨k, hk⟩ := hrs r hr
  refine List.mem_flatMap.mpr ⟨r, hr, ?_⟩
  rw [(hf.hung_one hk).subtree reached_self]
  exact List.mem_cons_of_mem r hmem

/-- From what is left of trees the way up is whole. -/
theorem wayUp_of_mem_keep {gone : NodeRef → Bool} {t : Grove NodeRef} {p : NodeRef}
    {rest : List NodeRef} (ht : f.Holds (some p) t) (hup : f.WayUp (p :: rest))
    (habove : ∀ x ∈ p :: rest, gone x = false) (hx : x ∈ (t.keep fun x => !gone x).toList) :
    ∃ rest', f.WayUp (x :: rest') ∧ ∀ y ∈ x :: rest', gone y = false := by
  induction t generalizing p rest with
  | nil => exact absurd hx List.not_mem_nil
  | cons r b s ihb ihs =>
      obtain ⟨hr, hb, hs⟩ := ht
      rw [Grove.keep] at hx
      cases hgone : gone r with
      | true =>
          rw [hgone] at hx
          exact ihs hs hup habove hx
      | false =>
          rw [hgone, Bool.not_false, if_pos rfl, Grove.toList_cons, List.mem_cons,
            List.mem_append] at hx
          obtain ⟨n, hn, hp, -⟩ := hr.exists_node
          have hupr : f.WayUp (r :: p :: rest) := .step hn hp hup
          have hwhole : ∀ y ∈ r :: p :: rest, gone y = false :=
            List.forall_mem_cons.mpr ⟨hgone, habove⟩
          rcases hx with rfl | hx | hx
          · exact ⟨_, hupr, hwhole⟩
          · exact ihb hb hupr hwhole hx
          · exact ihs hs hup habove hx

section

variable {cull : NodeRef → NodeRef → Steps (Forest × τ) Unit} (hf : f.Linked)
  (hroots : ∀ r ∈ roots, ∃ k, f.Deep k r) (hn : (roots.flatMap f.subtree).Nodup)
  (hcull : ∀ r ∈ roots, Culler f r passes note (cull r))

/-- The trees below some roots, culled one after the other. -/
def cullAll (cull : NodeRef → NodeRef → Steps (Forest × τ) Unit) (roots : List NodeRef) :
    Steps (Forest × τ) Unit :=
  roots.forM fun r => visitPostOrder (do return (← get).1) (cull r) r

include hroots in
/-- Below a root the nodes that bear nothing are culled. -/
theorem culled_eq (hf : f.Linked) (hr : r ∈ roots) (hx : x ∈ f.subtree r) (hxr : x ≠ r) :
    f.culled passes roots x = !f.bears passes x := by
  obtain ⟨k, hk⟩ := hroots r hr
  rw [(hf.hung_one hk).subtree reached_self] at hx
  refine withCulled_of_mem (List.mem_flatMap.mpr ⟨r, hr, ?_⟩) rfl
  exact (List.mem_cons.mp hx).resolve_left hxr

include hn in
/-- The trees have no node in common. -/
theorem eq_of_mem_subtrees {s : NodeRef} (hr : r ∈ roots) (hs : s ∈ roots)
    (hxr : x ∈ f.subtree r) (hxs : x ∈ f.subtree s) : r = s := by
  by_contra hrs
  have hsymm : Std.Symm (Function.onFun List.Disjoint f.subtree) :=
    ⟨fun _ _ => List.disjoint_symm⟩
  exact (List.nodup_flatMap.mp hn).2.forall hr hs hrs hxr hxs

include hf hroots hn in
/-- Nothing is culled on the way up from a root, the root included. -/
theorem not_culled_above (hr : r ∈ roots) {rest : List NodeRef} (hup : f.WayUp (r :: rest)) :
    ∀ x ∈ r :: rest, f.culled passes roots x = false := by
  intro x hx
  refine culled_of_not_below fun hmem => ?_
  obtain ⟨s, hs, hxs⟩ := List.mem_flatMap.mp hmem
  obtain ⟨k, hk⟩ := hroots s hs
  have hhung := hf.hung_one hk
  have hxsub : x ∈ f.subtree s := by
    rw [hhung.subtree reached_self]
    exact List.mem_cons_of_mem s hxs
  -- the tree would be that of the root itself
  have hrs := hf.mem_subtree_of_wayUp hk hup hx hxsub r rfl
  obtain rfl := eq_of_mem_subtrees hn hr hs (List.mem_cons_self ..) hrs
  rcases List.mem_cons.mp hx with rfl | hx
  · exact (Grove.nodup_tree.mp (hhung.nodup_below reached_self)).1 hxs
  · exact hf.not_mem_subtree_of_above hup hx hxsub

section

include hf hroots hn hcull

/-- The next tree, when some were culled before it. -/
theorem Culler.on_next {done todo : List NodeRef} (hdone : done ++ r :: todo = roots) (a : τ) :
    (visitPostOrder (do return (← get).1) (cull r) r).on (f.cut (f.culled passes done), a)
      = (.ok (), f.cut (f.culled passes (done ++ [r])),
          noted note ((f.below r).postOrder.filter (f.bereft passes)) a) := by
  have hmem : ∀ x ∈ done ++ r :: todo, x ∈ roots := fun x hx => hdone ▸ hx
  have hdeep : ∀ x ∈ done, ∃ k, f.Deep k x := fun x hx => hroots x (hmem x (by simp [hx]))
  obtain ⟨k, hk⟩ := hroots r (hmem r (by simp))
  rw [← hdone, List.flatMap_append, List.flatMap_cons] at hn
  have hapart : ∀ x ∈ f.subtree r, x ∉ done.flatMap f.subtree := by
    intro x hx hxd
    exact (List.nodup_append'.mp hn).2.2 hxd (List.mem_append_left _ hx)
  have hself : r ∈ f.subtree r := List.mem_cons_self ..
  have habove : ∀ rest, f.WayUp (r :: rest) → ∀ x ∈ rest, f.culled passes done x = false := by
    intro rest hup x hx
    refine culled_of_not_mem hf hdeep fun hxd => hapart r hself ?_
    obtain ⟨d, hd, hxd⟩ := List.mem_flatMap.mp hxd
    obtain ⟨j, hj⟩ := hdeep d hd
    have hrd := hf.mem_subtree_of_wayUp hj hup (List.mem_cons_of_mem r hx) hxd r rfl
    exact List.mem_flatMap.mpr ⟨d, hd, hrd⟩
  have hfree : ∀ x ∈ f.subtree r, f.culled passes done x = false :=
    fun x hx => culled_of_not_mem hf hdeep (hapart x hx)
  have hnext : f.withCulled passes (f.culled passes done) (f.below r).toList
      = f.culled passes (done ++ [r]) := by
    rw [culled, withCulled_withCulled, culled, List.flatMap_append, List.flatMap_singleton]
  rw [(hcull r (hmem r (by simp))).on_tree hf hk hfree habove a, hnext]

/-- **What a cull does.**  Exactly the nodes that bear nothing are cut out of the forest, and
    exactly those of which no child stays are judged, in post-order, tree by tree. -/
theorem Culler.on_trees (a : τ) :
    (cullAll cull roots).on (f, a)
      = (.ok (), f.cut (f.culled passes roots),
          noted note ((f.postOrders roots).filter (f.bereft passes)) a) := by
  have hsuffix : ∀ (todo done : List NodeRef) (a : τ), done ++ todo = roots →
      (cullAll cull todo).on (f.cut (f.culled passes done), a)
        = (.ok (), f.cut (f.culled passes roots),
            noted note ((f.postOrders todo).filter (f.bereft passes)) a) := by
    intro todo
    induction todo with
    | nil =>
        intro done a hdone
        rw [← hdone, List.append_nil]
        rfl
    | cons r todo ih =>
        intro done a hdone
        have hfirst := Culler.on_next hf hroots hn hcull hdone a
        have hrest := ih (done ++ [r])
          (noted note ((f.below r).postOrder.filter (f.bereft passes)) a) (by simpa using hdone)
        show (visitPostOrder _ (cull r) r >>= fun _ => cullAll cull todo).on _ = _
        rw [Steps.on_bind_ok hfirst, hrest, ← noted_append, ← List.filter_append]
        rfl
  have hstart := hsuffix roots [] a rfl
  rwa [cut_of_forall fun x => withCulled_of_not_mem List.not_mem_nil] at hstart

/-- **A second cull takes nothing**, and notes nothing as long as there is nothing to note about
    nodes that pass. -/
theorem Culler.on_trees_again (hnote : ∀ r a, passes r = true → note r a = a) (a : τ) :
    (cullAll cull roots).on (f.cut (f.culled passes roots), a)
      = (.ok (), f.cut (f.culled passes roots), a) := by
  refine Steps.forM_idle fun r hr => ?_
  obtain ⟨k, hk⟩ := hroots r hr
  obtain ⟨rest, hup⟩ := hk.wayUp
  have hhung := hf.hung_one hk
  obtain ⟨-, hbelow⟩ := hhung.holds_below reached_self
  obtain ⟨hrb, -⟩ := Grove.nodup_tree.mp (hhung.nodup_below reached_self)
  obtain ⟨j, hj⟩ := (f.loosened_cut (f.culled passes roots)).deep hk
  rw [(hcull r hr).plucks.on_tree hf.cut hj, Steps.on_bind_ok, (hcull r hr).top]
  refine Steps.forM_idle fun x hx => ?_
  rw [Grove.mem_postOrder, hf.below_cut hk] at hx
  obtain ⟨restx, hupx, hwhole⟩ :=
    wayUp_of_mem_keep hbelow hup (not_culled_above hf hroots hn hr hup) hx
  have hxb := (Grove.sublist_keep _ _).mem hx
  have hxr : x ≠ r := fun e => hrb (e ▸ hxb)
  have hsub : ∀ y ∈ (f.below r).toList, y ∈ f.subtree r := by
    intro y hy
    rw [hhung.subtree reached_self]
    exact List.mem_cons_of_mem r hy
  by_cases hchildren : (f.cut (f.culled passes roots)).children x = []
  · -- a node that stays without children passes
    have hbears : f.bears passes x = true := by
      have hkept := hwhole x (by simp)
      rw [culled_eq hroots hf hr (hsub x hxb) hxr] at hkept
      simpa using hkept
    have hbereft : f.bereft passes x = true := by
      rw [children_cut, List.filter_eq_nil_iff] at hchildren
      refine List.all_eq_true.mpr fun c hc => ?_
      obtain ⟨hcsub, hcr⟩ := hf.child_mem_subtree hk (hsub x hxb) hc
      have hcut := hchildren c hc
      rw [culled_eq hroots hf hr hcsub hcr] at hcut
      simpa using hcut
    have hpass : passes x = true := by
      rw [← hf.bears_of_bereft hupx.deep hbereft, hbears]
    rw [(hcull r hr).kept x restx _ a hxr hupx (along_cut hwhole) hchildren hpass,
      hnote x a hpass]
  · exact (hcull r hr).parent x _ a hchildren

end

end

end TestLauncher.Forest
