import TestLauncher.Proofs.Forest.Cycles
import TestLauncher.Proofs.Forest.PreOrder
import TestLauncher.Proofs.Plan.Faithful

/-! # One tree, several walks

    Listing what is below a node, the two walks with a visitor, the searches and the plan each
    go down the child links by themselves.  Below a node that is not above itself they all
    describe one tree (`Linked.traversals_agree`): the nodes of the tree in pre-order are what
    the others visit, search and index, and post-order is a rearrangement of them in which
    nodes come after what is below them while branches keep their order. -/

namespace TestLauncher

namespace Grove

variable {α : Type} {t b s : Grove α} {c d x y : α} {l : List α}

theorem pair_sublist_append {l m : List α} (hx : x ∈ l) (hy : y ∈ m) :
    [x, y].Sublist (l ++ m) :=
  (List.singleton_sublist.mpr hx).append (List.singleton_sublist.mpr hy)

theorem sublist_of_below (h : l.Sublist b.toList ∧ l.Sublist b.postOrder) :
    l.Sublist (cons c b s).toList ∧ l.Sublist (cons c b s).postOrder :=
  ⟨(h.1.trans (List.sublist_append_left ..)).cons c, h.2.trans (List.sublist_append_left ..)⟩

theorem sublist_of_beside (h : l.Sublist s.toList ∧ l.Sublist s.postOrder) :
    l.Sublist (cons c b s).toList ∧ l.Sublist (cons c b s).postOrder :=
  ⟨(h.1.trans (List.sublist_append_right ..)).cons c,
    (h.2.cons c).trans (List.sublist_append_right ..)⟩

variable [DecidableEq α]

/-- A node comes before what is below it in pre-order, and after it in post-order. -/
theorem pair_sublist_of_under (hx : x ∈ t.toList) (hy : y ∈ t.under x) (hne : y ≠ x) :
    [x, y].Sublist t.toList ∧ [y, x].Sublist t.postOrder := by
  induction t with
  | nil => exact absurd hx List.not_mem_nil
  | cons c b s ihb ihs =>
      by_cases hc : c = x
      · subst hc
        rw [under_cons_self] at hy
        have hyb := (List.mem_cons.mp hy).resolve_left hne
        refine ⟨(List.singleton_sublist.mpr (List.mem_append_left _ hyb)).cons_cons c, ?_⟩
        exact pair_sublist_append (mem_postOrder.mpr hyb) (List.mem_cons_self ..)
      · rw [under_cons_ne hc, List.mem_append] at hy
        rcases hy with hy | hy
        · obtain ⟨hpre, hpost⟩ := ihb (mem_of_mem_under hy) hy
          exact ⟨(hpre.trans (List.sublist_append_left ..)).cons c,
            hpost.trans (List.sublist_append_left ..)⟩
        · obtain ⟨hpre, hpost⟩ := ihs (mem_of_mem_under hy) hy
          exact ⟨(hpre.trans (List.sublist_append_right ..)).cons c,
            (hpost.cons c).trans (List.sublist_append_right ..)⟩

/-- Trees side by side come one after the other, in pre-order and in post-order. -/
theorem pair_sublist_of_roots (hn : t.toList.Nodup) (hcd : [c, d].Sublist t.roots)
    (hx : x ∈ t.under c) (hy : y ∈ t.under d) :
    [x, y].Sublist t.toList ∧ [x, y].Sublist t.postOrder := by
  induction t with
  | nil => cases hcd
  | cons e b s _ ihs =>
      obtain ⟨-, -, -, hns, -⟩ := nodup_cons.mp hn
      have hbeside : ∀ z, z ∈ s.roots → (cons e b s).under z = s.under z := fun z hz =>
        under_cons_of_mem_beside hn (mem_toList_of_mem_roots hz)
      rw [roots_cons] at hcd
      cases hcd with
      | cons _ hcd =>
          rw [hbeside c (hcd.mem (by simp))] at hx
          rw [hbeside d (hcd.mem (by simp))] at hy
          exact sublist_of_beside (ihs hns hcd hx hy)
      | cons_cons _ hd =>
          rw [under_cons_self] at hx
          rw [hbeside d (hd.mem (by simp))] at hy
          have hys := under_subset hy
          rw [toList_cons, postOrder, ← List.cons_append, List.append_cons]
          refine ⟨pair_sublist_append hx hys, pair_sublist_append ?_ (mem_postOrder.mpr hys)⟩
          rw [List.mem_append, mem_postOrder, List.mem_singleton]
          exact (List.mem_cons.mp hx).symm

end Grove

namespace Forest

variable {f : Forest} {r p c d x y : NodeRef} {n : Node} {t b : Grove NodeRef}
  {pp : Option NodeRef}

/-- The branches below a node come one after the other, in pre-order and in post-order. -/
theorem pair_sublist_of_children (ht : f.Holds pp t) (hn : t.toList.Nodup)
    (hpp : ∀ q, pp = some q → q ∉ t.toList) (hp : p ∈ t.toList)
    (hcd : [c, d].Sublist (f.children p)) (hx : x ∈ t.under c) (hy : y ∈ t.under d) :
    [x, y].Sublist t.toList ∧ [x, y].Sublist t.postOrder := by
  induction t generalizing pp with
  | nil => exact absurd hp List.not_mem_nil
  | cons e b s ihb ihs =>
      obtain ⟨he, hb, hs⟩ := ht
      obtain ⟨heb, -, hnb, hns, -⟩ := Grove.nodup_cons.mp hn
      have hc : c ∈ f.children p := hcd.mem (by simp)
      have hd : d ∈ f.children p := hcd.mem (by simp)
      have hbelow : ∀ z ∈ b.toList, (Grove.cons e b s).under z = b.under z := fun z hz =>
        Grove.under_cons_of_mem_below hn hz
      have hbeside : ∀ z ∈ s.toList, (Grove.cons e b s).under z = s.under z := fun z hz =>
        Grove.under_cons_of_mem_beside hn hz
      rw [Grove.toList_cons, List.mem_cons, List.mem_append] at hp
      rcases hp with rfl | hp | hp
      · rw [he.children] at hc hd hcd
        rw [hbelow c (Grove.mem_toList_of_mem_roots hc)] at hx
        rw [hbelow d (Grove.mem_toList_of_mem_roots hd)] at hy
        exact Grove.sublist_of_below (Grove.pair_sublist_of_roots hnb hcd hx hy)
      · have hne : some e ≠ some p := fun h => heb (Option.some.inj h ▸ hp)
        rw [hbelow c (parent_of_mem_children hb hnb hne hp hc).1] at hx
        rw [hbelow d (parent_of_mem_children hb hnb hne hp hd).1] at hy
        refine Grove.sublist_of_below (ihb hb hnb ?_ hp hx hy)
        rintro q ⟨⟩
        exact heb
      · have hpp' : ∀ q, pp = some q → q ∉ s.toList := fun q hq h => hpp q hq (by simp [h])
        have hne : pp ≠ some p := fun h => hpp' p h hp
        rw [hbeside c (parent_of_mem_children hs hns hne hp hc).1] at hx
        rw [hbeside d (parent_of_mem_children hs hns hne hp hd).1] at hy
        exact Grove.sublist_of_beside (ihs hs hns hpp' hp hx hy)

/-- The walks from a node describe one tree, of which these are the nodes in pre-order and in
    post-order. -/
structure WalkedAlike (f : Forest) (r : NodeRef) (pre post : List NodeRef) : Prop where
  nodup : pre.Nodup
  mem_iff : ∀ x, x ∈ pre ↔ f.AtOrAbove x r
  /-- A visitor that leaves the nodes where they are is called for one node of the first list after
      the other, up to where it fails. -/
  accept : ∀ {σ : Type} {φ : σ → Forest} {look : Steps σ Forest} {visit : NodeRef → Steps σ Unit},
    (∀ s, look.on s = (.ok (φ s), s)) → (∀ x s, φ ((visit x).on s).2 = φ s) →
    ∀ s, φ s = f → (accept look visit r).on s = (pre.forM visit).on s
  /-- In post-order it is called for the nodes of the second. -/
  visitPostOrder : ∀ {σ : Type} {φ : σ → Forest} {look : Steps σ Forest}
    {visit : NodeRef → Steps σ Unit},
    (∀ s, look.on s = (.ok (φ s), s)) → (∀ x s, φ ((visit x).on s).2 = φ s) →
    ∀ s, φ s = f → (visitPostOrder look visit r).on s = (post.forM visit).on s
  perm : post.Perm pre
  /-- What is above comes before what is below, and in post-order after it. -/
  below : ∀ x ∈ pre, ∀ y, f.Above y x → [x, y].Sublist pre ∧ [y, x].Sublist post
  /-- What is below one child comes before all that is below a later one. -/
  siblings : ∀ p ∈ pre, ∀ c d, [c, d].Sublist (f.children p) → ∀ x y, f.AtOrAbove x c →
    f.AtOrAbove y d → [x, y].Sublist pre ∧ [x, y].Sublist post
  hasTests : f.hasTests r = .ok (pre.any f.isTest)
  find? : ∀ id, f.find? id r = .ok (pre.find? fun x => f.id? x = some id)
  /-- A plan of a node at the top lists the written ids. -/
  plan : f.parent? r = none → ∀ plan, TestPlan.ofRoots f [r] = .ok plan →
    plan.identifiers.keys.map some = pre.map f.idText?

section

variable (hw : f.WalksOver r (Grove.tree r b))

include hw

theorem WalksOver.subtree_eq (hx : x ∈ (Grove.tree r b).toList) :
    f.subtree x = (Grove.tree r b).under x :=
  Forest.subtree_eq hw.stands hw.nodup hx

theorem WalksOver.subtree_root : f.subtree r = (Grove.tree r b).toList := by
  rw [hw.subtree_eq (Grove.mem_tree.mpr (Or.inl rfl)), Grove.tree, Grove.under_cons_self,
    Grove.toList_cons, Grove.toList_nil, List.append_nil]

/-- All nodes of a tree but its root have their parents in it. -/
theorem WalksOver.exists_parent (hx : x ∈ (Grove.tree r b).toList) (hne : x ≠ r) :
    ∃ p ∈ (Grove.tree r b).toList, f.parent? x = some p := by
  rcases Relation.ReflTransGen.cases_head ((hw.mem_iff x).mp hx) with h | ⟨p, hp, h⟩
  · exact absurd h hne
  · exact ⟨p, (hw.mem_iff p).mpr h, hp⟩

/-- A node is in a tree with its parent. -/
theorem WalksOver.mem_of_parent (hp : p ∈ (Grove.tree r b).toList) (hx : f.parent? x = some p) :
    x ∈ (Grove.tree r b).toList :=
  (hw.mem_iff x).mpr (.head hx ((hw.mem_iff p).mp hp))

theorem WalksOver.not_mem_of_parent_root (hfin : ¬ f.Above r r) :
    ∀ p, f.parent? r = some p → p ∉ (Grove.tree r b).toList :=
  fun p hp hmem => hfin (.head' hp ((hw.mem_iff p).mp hmem))

variable (hf : f.Linked) (hfin : ¬ f.Above r r)

include hf hfin

/-- What is at or below a node of the tree. -/
theorem WalksOver.mem_under_iff (hx : x ∈ (Grove.tree r b).toList) :
    y ∈ (Grove.tree r b).under x ↔ f.AtOrAbove y x := by
  obtain ⟨n, hn⟩ := exists_node_of_holds hw.stands hx
  have hx' : ¬ f.Above x x := fun h => hfin (h.of_atOrAbove ((hw.mem_iff x).mp hx))
  have hwx := hf.walksOver hn hx'
  rw [← hw.subtree_eq hx, hwx.subtree_root, hwx.mem_iff]

end

/-- **All walks describe one tree.**  The nodes at or below a node that is not above itself, listed
    in pre-order, are what a visitor comes to; the list in post-order has the same nodes, each
    after those below it, branches as they were; the searches look through them, and so do plans
    of a node at the top.  Ids may repeat: the search finds the first in pre-order. -/
theorem Linked.traversals_agree (hf : f.Linked) (hr : f.node? r = some n)
    (hfin : ¬ f.Above r r) :
    ∃ below post, f.descendants r = .ok below ∧ f.postOrder r = .ok post ∧
      f.WalkedAlike r (r :: below) post := by
  have hw := hf.walksOver hr hfin
  obtain ⟨hstands, hholds⟩ := holds_tree.mp hw.stands
  have hpp := hw.not_mem_of_parent_root hfin
  have hlist : r :: (f.below r).toList = (Grove.tree r (f.below r)).toList :=
    (Grove.toList_tree ..).symm
  refine ⟨_, _, hw.descendants, hw.postOrder, ?_⟩
  rw [Grove.toList_tree, List.tail_cons, hlist]
  refine ⟨hw.nodup, hw.mem_iff, ?_, ?_, Grove.perm_postOrder _, ?_, ?_, hw.hasTests, hw.find?, ?_⟩
  · rintro σ φ look visit hlook hvisit s rfl
    have hplucks : PlucksMarked φ (fun _ => false) visit :=
      ⟨fun x s => Or.inl (hvisit x s), fun x s _ => hvisit x s, fun _ _ _ h => by cases h⟩
    rw [on_accept hlook hplucks hf hstands hholds hw.nodup hpp, Grove.crop_of_forall fun _ => rfl]
  · rintro σ φ look visit hlook hvisit s rfl
    exact on_visitPostOrder hlook (fun x s => Or.inl (hvisit x s)) hstands hholds hw.nodup hpp
  · intro x hx y hyx
    refine Grove.pair_sublist_of_under hx ((hw.mem_under_iff hf hfin hx).mpr hyx.to_reflTransGen) ?_
    rintro rfl
    exact hfin (hyx.of_atOrAbove ((hw.mem_iff y).mp hx))
  · intro p hp c d hcd x y hx hy
    have hmem : ∀ z ∈ f.children p, z ∈ (Grove.tree r (f.below r)).toList := fun z hz =>
      hw.mem_of_parent hp (hf.mem_children_iff.mp hz)
    have hc := hmem c (hcd.mem (by simp))
    have hd := hmem d (hcd.mem (by simp))
    exact pair_sublist_of_children hw.stands hw.nodup hpp hp hcd
      ((hw.mem_under_iff hf hfin hc).mpr hx) ((hw.mem_under_iff hf hfin hd).mpr hy)
  · intro htop plan hplan
    have hindexes := TestPlan.indexes_of_ofRoots hw.stands hw.nodup hplan
    rw [hindexes.lists.keys, ← map_idText? fun x hx => exists_node_of_holds hw.stands hx]

theorem thicket_root :
    (∃ n, thicket.node? ⟨0⟩ = some n) ∧ ¬ thicket.Above ⟨0⟩ ⟨0⟩ := by
  have htop : thicket.parent? ⟨0⟩ = none := by decide +kernel
  have hnode : (thicket.node? ⟨0⟩).isSome = true := by decide +kernel
  refine ⟨Option.isSome_iff_exists.mp hnode, fun h => ?_⟩
  obtain ⟨p, hp, -⟩ := Relation.TransGen.head'_iff.mp h
  rw [htop] at hp
  cases hp

/-- The walks over the sample, and the plan of it. -/
theorem traversals_agree_thicket :
    (thicket.Linked ∧ ¬ thicket.Above ⟨0⟩ ⟨0⟩) ∧
    thicket.WalkedAlike ⟨0⟩ [⟨0⟩, ⟨1⟩, ⟨2⟩, ⟨3⟩, ⟨4⟩, ⟨5⟩] [⟨2⟩, ⟨1⟩, ⟨4⟩, ⟨5⟩, ⟨3⟩, ⟨0⟩] ∧
    ∃ plan, TestPlan.ofRoots thicket [⟨0⟩] = .ok plan ∧
      plan.identifiers.keys = ["[engine:e]", "[engine:e]/[part:a]", "[engine:e]/[part:a]/[part:b]",
        "[engine:e]/[part:c]", "[engine:e]/[part:c]/[part:t]", "[engine:e]/[part:c]/[part:d]"] := by
  obtain ⟨⟨n, hn⟩, hfin⟩ := thicket_root
  obtain ⟨below, post, hbelow, hpost, hwalks⟩ := linked_thicket.traversals_agree hn hfin
  have hbelow' : thicket.descendants ⟨0⟩ = .ok [⟨1⟩, ⟨2⟩, ⟨3⟩, ⟨4⟩, ⟨5⟩] := by decide +kernel
  have hpost' : thicket.postOrder ⟨0⟩ = .ok [⟨2⟩, ⟨1⟩, ⟨4⟩, ⟨5⟩, ⟨3⟩, ⟨0⟩] := by decide +kernel
  cases hbelow.symm.trans hbelow'
  cases hpost.symm.trans hpost'
  have hkeys : ((TestPlan.ofRoots thicket [⟨0⟩]).toOption.map fun p => p.identifiers.keys)
      = some ["[engine:e]", "[engine:e]/[part:a]", "[engine:e]/[part:a]/[part:b]",
        "[engine:e]/[part:c]", "[engine:e]/[part:c]/[part:t]", "[engine:e]/[part:c]/[part:d]"] := by
    decide +kernel
  refine ⟨⟨linked_thicket, hfin⟩, hwalks, ?_⟩
  cases hplan : TestPlan.ofRoots thicket [⟨0⟩] with
  | error e =>
      rw [hplan] at hkeys
      cases hkeys
  | ok plan =>
      rw [hplan] at hkeys
      exact ⟨plan, rfl, Option.some.inj hkeys⟩

end Forest

end TestLauncher
