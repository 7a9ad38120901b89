import TestLauncher.Proofs.Forest.Traversals

/-! # Walks that take nodes away

    A visitor may take marked nodes away while it walks a tree.  Taking a node away cuts it
    from its parent and its children from it, so a node is gone when it was taken or when its
    parent was (`taken`), and no node is taken that has lost its parent before
    (`on_forM_pluck`): in post-order a parent has its turn after its children, and in
    pre-order nothing below a node that was taken has a turn at all.

    So either walk comes to its end and visits what it is to visit as the tree stood, and
    what is left below the root is the tree without the subtrees of the marked nodes
    (`Linked.walks_survive_uprooting`). -/

namespace TestLauncher.Forest

variable {f g : Forest} {r p c x y : NodeRef} {n : Node} {marked gone : NodeRef → Bool}
  {b t : Grove NodeRef} {pp : Option NodeRef} {seen rs : List NodeRef}

/-- Notes a node, and takes it away if it is marked. -/
def pluck (marked : NodeRef → Bool) (r : NodeRef) : Steps (Forest × List NodeRef) Unit := do
  modifyGet fun (forest, visited) => ((), forest, visited ++ [r])
  if marked r then (uproot r).first

/-- The nodes that are cut off when the marked ones among some nodes are taken away: these, and
    their children. -/
def taken (f : Forest) (marked : NodeRef → Bool) (rs : List NodeRef) (y : NodeRef) : Bool :=
  rs.any fun x => marked x && (decide (y = x) || decide (y ∈ f.children x))

theorem taken_iff : f.taken marked rs y = true ↔
    ∃ x ∈ rs, marked x = true ∧ (y = x ∨ y ∈ f.children x) := by
  simp [taken]

/-! ## One node after the other -/

theorem on_pluck_unmarked (hx : marked x = false) (s : Forest × List NodeRef) :
    (pluck marked x).on s = (.ok (), s.1, s.2 ++ [x]) := by
  rw [pluck, hx]
  rfl

theorem on_pluck_marked (hx : marked x = true) (s : Forest × List NodeRef) :
    (pluck marked x).on s = (((uproot x).on s.1).1, ((uproot x).on s.1).2, s.2 ++ [x]) := by
  rw [pluck, hx]
  rfl

theorem plucksMarked_pluck (marked : NodeRef → Bool) :
    PlucksMarked Prod.fst marked (pluck marked) where
  plucks := by
    intro x s
    cases hx : marked x with
    | false =>
        rw [on_pluck_unmarked hx]
        exact Or.inl rfl
    | true =>
        rw [on_pluck_marked hx, on_uproot]
        cases hd : s.1.detach x with
        | error e => exact Or.inl rfl
        | ok g => exact Or.inr rfl
  unmarked := by
    intro x s hx
    rw [on_pluck_unmarked hx]
  taken := by
    intro x s s' hx h
    rw [on_pluck_marked hx, on_uproot] at h
    cases hd : s.1.detach x with
    | error e =>
        rw [hd] at h
        cases h
    | ok g =>
        rw [hd] at h
        cases h
        rfl

/-- Visiting a node that has not been cut off. -/
theorem on_pluck_cut (hf : f.Linked) (hp : marked x = true → ∃ p, f.parent? x = some p)
    (hx : marked x = true → gone x = false) :
    (pluck marked x).on (f.cut gone, seen)
      = (.ok (), f.cut fun y => gone y || f.taken marked [x] y, seen ++ [x]) := by
  cases hm : marked x with
  | false =>
      rw [on_pluck_unmarked hm]
      refine congrArg (fun gone => (Except.ok (), f.cut gone, seen ++ [x])) (funext fun y => ?_)
      simp [taken, hm]
  | true =>
      obtain ⟨p, hp⟩ := hp hm
      rw [on_pluck_marked hm, on_uproot, detach_cut hf hp (hx hm)]
      dsimp only
      refine congrArg (fun gone => (Except.ok (), f.cut gone, seen ++ [x])) (funext fun y => ?_)
      simp [taken, hm]

/-- Visiting nodes of which none is cut off before its turn. -/
theorem on_forM_pluck (hf : f.Linked) (hrs : ∀ x ∈ rs, marked x = true → ∃ p, f.parent? x = some p)
    (hgone : ∀ x ∈ rs, marked x = true → gone x = false)
    (hpair : rs.Pairwise fun a b => marked a = true → b ≠ a ∧ b ∉ f.children a) :
    (rs.forM (pluck marked)).on (f.cut gone, seen)
      = (.ok (), f.cut fun y => gone y || f.taken marked rs y, seen ++ rs) := by
  induction rs generalizing gone seen with
  | nil => simp [taken]
  | cons x rs ih =>
      obtain ⟨hx, hpair⟩ := List.pairwise_cons.mp hpair
      have hcons : (x :: rs).forM (pluck marked)
          = (pluck marked x >>= fun _ => rs.forM (pluck marked)) := rfl
      have hrest : ∀ y ∈ rs, marked y = true → (gone y || f.taken marked [x] y) = false := by
        intro y hy hm
        rw [hgone y (by simp [hy]) hm, Bool.false_or]
        by_contra hcut
        obtain ⟨x', hx', hm', hcases⟩ := taken_iff.mp (Bool.not_eq_false _ ▸ hcut)
        obtain rfl := List.mem_singleton.mp hx'
        obtain ⟨hne, hchild⟩ := hx y hy hm'
        exact hcases.elim hne hchild
      rw [hcons, Steps.on_bind_ok (on_pluck_cut hf (hrs x (by simp)) (hgone x (by simp))),
        ih (fun y hy => hrs y (by simp [hy])) hrest hpair, List.append_assoc]
      refine congrArg (fun gone => (Except.ok (), f.cut gone, seen ++ ([x] ++ rs)))
        (funext fun y => ?_)
      simp [taken, Bool.or_assoc]

/-- In post-order no node comes after its parent. -/
theorem pairwise_postOrder (ht : f.Holds pp t) (hn : t.toList.Nodup)
    (hpp : ∀ p, pp = some p → p ∉ t.toList) :
    t.postOrder.Pairwise fun a b => f.parent? b ≠ some a := by
  induction t generalizing pp with
  | nil => exact .nil
  | cons r b s ihb ihs =>
      obtain ⟨hr, hb, hs⟩ := ht
      obtain ⟨hrb, hrs, hnb, hns, hbs⟩ := Grove.nodup_cons.mp hn
      -- what is beside the first tree has its parent there, or above all trees
      have hbeside : ∀ y ∈ s.toList, ∀ x, x = r ∨ x ∈ b.toList → f.parent? y ≠ some x := by
        intro y hy x hx he
        rcases parent_mem_of_holds hs hy he with hxs | hxpp
        · rcases hx with rfl | hx
          · exact hrs hxs
          · exact hbs x hx hxs
        · refine hpp x hxpp (Grove.toList_cons .. ▸ ?_)
          exact hx.elim (fun e => e ▸ List.mem_cons_self ..) fun hx => by simp [hx]
      rw [Grove.postOrder, List.pairwise_append, List.pairwise_cons]
      refine ⟨ihb hb hnb ?_, ⟨?_, ihs hs hns fun p hp h => hpp p hp (by simp [h])⟩, ?_⟩
      · rintro p ⟨⟩
        exact hrb
      · intro y hy
        exact hbeside y (Grove.mem_postOrder.mp hy) r (Or.inl rfl)
      · intro x hx y hy he
        have hxb := Grove.mem_postOrder.mp hx
        rcases List.mem_cons.mp hy with rfl | hy
        · rw [hr.parent] at he
          exact hpp x he (by simp [hxb])
        · exact hbeside y (Grove.mem_postOrder.mp hy) x (Or.inr hxb) he

/-! ## The tree that is left -/

/-- The tree below a node has lost the marked nodes and all that was below them; the rest of it is
    as it was, and so is what is not in it. -/
structure Shorn (f g : Forest) (r : NodeRef) (marked : NodeRef → Bool) : Prop where
  /-- What is left is in the order it had. -/
  subtree : g.subtree r = (f.subtree r).filter fun x =>
    decide (∀ d ∈ f.subtree r, marked d = true → x ∉ f.subtree d)
  children : ∀ x ∈ g.subtree r, g.children x = (f.children x).filter fun c => !marked c
  parent : ∀ x ∈ g.subtree r, g.parent? x = f.parent? x
  bare : ∀ x, g.bare? x = f.bare? x
  outside : ∀ x, x ∉ f.subtree r → g.node? x = f.node? x

section

variable (hf : f.Linked) (hw : f.WalksOver r (Grove.tree r b)) (hfin : ¬ f.Above r r)
  (hm : marked r = false)

include hw

/-- A node of the tree is left when no marked node is above it and it is not marked itself. -/
theorem WalksOver.toList_keep : ((Grove.tree r b).keep fun x => !marked x).toList
    = (f.subtree r).filter fun x =>
        decide (∀ d ∈ f.subtree r, marked d = true → x ∉ f.subtree d) := by
  rw [Grove.toList_keep_unmarked, Grove.toList_crop hw.nodup, List.filter_filter, hw.subtree_root]
  refine List.filter_congr fun x hx => ?_
  rw [Bool.eq_iff_iff, Bool.and_eq_true, Bool.not_eq_true', decide_eq_true_iff, decide_eq_true_iff]
  constructor
  · rintro ⟨hunmarked, hunc⟩ d hd hmd hxd
    obtain rfl := hunc d hd hmd (hw.subtree_eq hd ▸ hxd)
    rw [hunmarked] at hmd
    cases hmd
  · intro h
    refine ⟨?_, fun d hd hmd hxd => absurd (hw.subtree_eq hd ▸ hxd) (h d hd hmd)⟩
    by_contra hmarked
    refine h x hx (Bool.not_eq_false _ ▸ hmarked) ?_
    rw [hw.subtree_eq hx]
    exact Grove.mem_under_self hx

include hf hm

/-- Cutting out, of the nodes that are not below a marked one, just the marked ones, and nothing
    but nodes with parents in the tree. -/
theorem WalksOver.shorn_cut
    (hgone : ∀ x ∈ ((Grove.tree r b).crop marked).toList, gone x = marked x)
    (hin : ∀ x, gone x = true → ∃ p ∈ (Grove.tree r b).toList, f.parent? x = some p) :
    f.Shorn (f.cut gone) r marked := by
  have hkeep : (Grove.tree r b).keep (fun x => !gone x) = (Grove.tree r b).keep fun x => !marked x :=
    Grove.keep_of_crop fun x hx => congrArg not (hgone x hx)
  have hstands : (f.cut gone).Holds (f.parent? r) ((Grove.tree r b).keep fun x => !gone x) :=
    holds_cut hw.stands
  rw [hkeep] at hstands
  have hroot : (Grove.tree r b).keep (fun x => !marked x)
      = Grove.tree r (b.keep fun x => !marked x) := by
    rw [Grove.tree, Grove.keep, hm]
    rfl
  have hleft : (f.cut gone).subtree r = ((Grove.tree r b).keep fun x => !marked x).toList := by
    have hnodup := hw.nodup.sublist (Grove.sublist_keep (fun x => !marked x) _)
    rw [hroot] at hstands hnodup ⊢
    rw [Forest.subtree_eq hstands hnodup (by simp), Grove.tree, Grove.under_cons_self]
    simp
  have hunmarked : ∀ x ∈ (f.cut gone).subtree r, gone x = false := by
    intro x hx
    rw [hleft] at hx
    have hcrop := (Grove.sublist_keep_crop _).mem hx
    rw [Grove.toList_keep_unmarked, List.mem_filter] at hx
    rw [hgone x hcrop]
    simpa using hx.2
  refine ⟨hleft.trans hw.toList_keep, ?_, ?_, fun x => bare?_cut, ?_⟩
  · intro x hx
    rw [children_cut]
    refine List.filter_congr fun c hc => congrArg not (hgone c ?_)
    exact child_mem_crop hw.stands (hleft ▸ hx) hc
  · intro x hx
    rw [parent?_cut, hunmarked x hx]
    rfl
  · intro x hx
    rw [hw.subtree_root] at hx
    refine node?_cut_of_kept ?_ fun c hc => ?_
    · by_contra hcut
      obtain ⟨p, hp, hxp⟩ := hin x (Bool.not_eq_false _ ▸ hcut)
      exact hx (hw.mem_of_parent hp hxp)
    · by_contra hcut
      obtain ⟨p, hp, hcp⟩ := hin c (Bool.not_eq_false _ ▸ hcut)
      have hpx : p = x := Option.some.inj (hcp.symm.trans (hf.mem_children_iff.mp hc))
      exact hx (hpx ▸ hp)

/-- Visiting nodes of the tree in an order in which no node comes after its parent if that one is
    marked. -/
theorem WalksOver.on_forM_pluck (hrs : ∀ x ∈ rs, x ∈ (Grove.tree r b).toList) (hnodup : rs.Nodup)
    (hpair : rs.Pairwise fun a b => marked a = true → f.parent? b ≠ some a) :
    (rs.forM (pluck marked)).on (f, []) = (.ok (), f.cut (f.taken marked rs), rs) := by
  have hparent : ∀ x ∈ rs, marked x = true → ∃ p, f.parent? x = some p := by
    intro x hx hmx
    obtain ⟨p, -, hp⟩ := hw.exists_parent (hrs x hx) fun e => by simp [e, hm] at hmx
    exact ⟨p, hp⟩
  have hapart : rs.Pairwise fun a b => marked a = true → b ≠ a ∧ b ∉ f.children a :=
    hnodup.imp₂ (fun a c hne hc hma =>
      ⟨Ne.symm hne, fun hca => hc hma (hf.mem_children_iff.mp hca)⟩) hpair
  have hon : (rs.forM (pluck marked)).on (f.cut fun _ => false, [])
      = (.ok (), f.cut fun y => false || f.taken marked rs y, [] ++ rs) :=
    Forest.on_forM_pluck hf hparent (fun _ _ _ => rfl) hapart
  rw [cut_of_forall fun _ => rfl, List.nil_append] at hon
  exact hon

include hfin

/-- Taking away the marked ones among some nodes of the tree, with all that are not below a marked
    one among them. -/
theorem WalksOver.shorn_taken
    (hcrop : ∀ x ∈ ((Grove.tree r b).crop marked).toList, x ∈ rs)
    (hrs : ∀ x ∈ rs, x ∈ (Grove.tree r b).toList) : f.Shorn (f.cut (f.taken marked rs)) r marked := by
  refine hw.shorn_cut hf hm (fun x hx => ?_) fun x hx => ?_
  · rw [Bool.eq_iff_iff, taken_iff]
    constructor
    · rintro ⟨d, hd, hmd, rfl | hxd⟩
      · exact hmd
      · rcases parent_of_mem_crop hw.stands hx (hf.mem_children_iff.mp hxd) with h | ⟨-, hmd'⟩
        · exact absurd (hrs d hd) (hw.not_mem_of_parent_root hfin d h)
        · rw [hmd] at hmd'
          cases hmd'
    · exact fun hmx => ⟨x, hcrop x hx, hmx, Or.inl rfl⟩
  · obtain ⟨d, hd, hmd, rfl | hxd⟩ := taken_iff.mp hx
    · refine hw.exists_parent (hrs x hd) ?_
      rintro rfl
      rw [hm] at hmd
      cases hmd
    · exact ⟨d, hrs d hd, hf.mem_children_iff.mp hxd⟩

end

/-! ## The walks -/

/-- **Walks survive removals.**  Whatever nodes below the root of a finite tree are marked, walks
    whose visitor takes the marked nodes away as it comes to them end without a fault.  In
    pre-order the nodes without a marked node above them are visited, in the order they had; in
    post-order all nodes are, in the order in which they are listed.  Either way what is left is
    the tree without the subtrees of the marked nodes, and each node of it was visited once. -/
theorem Linked.walks_survive_uprooting (hf : f.Linked) (hr : f.node? r = some n)
    (hfin : ¬ f.Above r r) (hm : marked r = false) :
    ((f.subtree r).Nodup ∧ ∀ x, x ∈ f.subtree r ↔ f.AtOrAbove x r) ∧
    (∃ g seen, (accept (do return (← get).1) (pluck marked) r).on (f, []) = (.ok (), g, seen) ∧
      (seen = (f.subtree r).filter fun x =>
        decide (∀ d ∈ f.subtree r, marked d = true → x ∈ f.subtree d → x = d)) ∧
      f.Shorn g r marked ∧ ∀ x ∈ g.subtree r, seen.count x = 1) ∧
    ∃ g post, (visitPostOrder (do return (← get).1) (pluck marked) r).on (f, [])
        = (.ok (), g, post) ∧
      f.postOrder r = .ok post ∧ post.Perm (f.subtree r) ∧
      f.Shorn g r marked ∧ ∀ x ∈ g.subtree r, post.count x = 1 := by
  have hw := hf.walksOver hr hfin
  obtain ⟨hstands, hholds⟩ := holds_tree.mp hw.stands
  have hpp := hw.not_mem_of_parent_root hfin
  have hlook : ∀ s : Forest × List NodeRef,
      (do return (← get).1 : Steps (Forest × List NodeRef) Forest).on s = (.ok s.1, s) :=
    fun _ => rfl
  have hleft : ∀ {g}, f.Shorn g r marked → ∀ x ∈ g.subtree r,
      x ∈ ((Grove.tree r (f.below r)).crop marked).toList := by
    intro g hg x hx
    rw [hg.subtree, ← hw.toList_keep] at hx
    exact (Grove.sublist_keep_crop _).mem hx
  refine ⟨⟨hw.subtree_root ▸ hw.nodup, fun x => hw.subtree_root ▸ hw.mem_iff x⟩, ?_, ?_⟩
  · have hcrop : ((Grove.tree r (f.below r)).crop marked).toList.Sublist _ :=
      Grove.sublist_crop _
    have hnodup := hw.nodup.sublist hcrop
    have hshorn := hw.shorn_taken hf hfin hm (fun _ hx => hx) fun _ => hcrop.mem
    refine ⟨_, _, ?_, ?_, hshorn, fun x hx => List.count_eq_one_of_mem hnodup (hleft hshorn x hx)⟩
    · rw [on_accept hlook (plucksMarked_pluck marked) hf hstands hholds hw.nodup hpp]
      refine hw.on_forM_pluck hf hm (fun _ => hcrop.mem) hnodup ?_
      refine List.pairwise_of_forall_mem_list fun a ha c hc hma hparent => ?_
      rcases parent_of_mem_crop hw.stands hc hparent with h | ⟨-, hma'⟩
      · exact hpp a h (hcrop.mem ha)
      · rw [hma] at hma'
        cases hma'
    · rw [Grove.toList_crop hw.nodup, hw.subtree_root]
      refine List.filter_congr fun x _ => decide_eq_decide.mpr (forall₂_congr fun d hd => ?_)
      rw [hw.subtree_eq hd]
  · have hperm := Grove.perm_postOrder (Grove.tree r (f.below r))
    have hnodup := hperm.nodup_iff.mpr hw.nodup
    have hshorn := hw.shorn_taken hf hfin hm
      (fun x hx => hperm.mem_iff.mpr ((Grove.sublist_crop _).mem hx)) fun _ => hperm.mem_iff.mp
    refine ⟨_, _, ?_, hw.postOrder, hw.subtree_root ▸ hperm, hshorn, fun x hx => ?_⟩
    · rw [on_visitPostOrder hlook (plucksMarked_pluck marked).plucks hstands hholds hw.nodup hpp]
      refine hw.on_forM_pluck hf hm (fun _ => hperm.mem_iff.mp) hnodup ?_
      exact (pairwise_postOrder hw.stands hw.nodup hpp).imp fun {a c} h (_ : marked a = true) => h
    · exact List.count_eq_one_of_mem hnodup
        (hperm.mem_iff.mpr ((Grove.sublist_crop _).mem (hleft hshorn x hx)))

/-- Of the sample, an empty container in a container is marked with the one that holds it, and a
    test: the walk in pre-order does not come to the inner container. -/
theorem walks_survive_uprooting_thicket :
    let marked : NodeRef → Bool := fun x => decide (x ∈ [⟨1⟩, ⟨2⟩, ⟨4⟩])
    (thicket.Linked ∧ ¬ thicket.Above ⟨0⟩ ⟨0⟩ ∧ marked ⟨0⟩ = false) ∧
    (∃ g, (accept (do return (← get).1) (pluck marked) ⟨0⟩).on (thicket, [])
        = (.ok (), g, [⟨0⟩, ⟨1⟩, ⟨3⟩, ⟨4⟩, ⟨5⟩]) ∧
      thicket.Shorn g ⟨0⟩ marked ∧ g.subtree ⟨0⟩ = [⟨0⟩, ⟨3⟩, ⟨5⟩]) ∧
    ∃ g, (visitPostOrder (do return (← get).1) (pluck marked) ⟨0⟩).on (thicket, [])
        = (.ok (), g, [⟨2⟩, ⟨1⟩, ⟨4⟩, ⟨5⟩, ⟨3⟩, ⟨0⟩]) ∧
      thicket.Shorn g ⟨0⟩ marked ∧ g.subtree ⟨0⟩ = [⟨0⟩, ⟨3⟩, ⟨5⟩] := by
  intro marked
  obtain ⟨⟨n, hn⟩, hfin⟩ := thicket_root
  have hsub : ((thicket.subtree ⟨0⟩).filter fun x => decide
      (∀ d ∈ thicket.subtree ⟨0⟩, marked d = true → x ∉ thicket.subtree d)) = [⟨0⟩, ⟨3⟩, ⟨5⟩] := by
    decide +kernel
  have hseen : ((thicket.subtree ⟨0⟩).filter fun x => decide
      (∀ d ∈ thicket.subtree ⟨0⟩, marked d = true → x ∈ thicket.subtree d → x = d))
      = [⟨0⟩, ⟨1⟩, ⟨3⟩, ⟨4⟩, ⟨5⟩] := by
    decide +kernel
  have hpost : thicket.postOrder ⟨0⟩ = .ok [⟨2⟩, ⟨1⟩, ⟨4⟩, ⟨5⟩, ⟨3⟩, ⟨0⟩] := by decide +kernel
  obtain ⟨-, ⟨g, seen, hon, rfl, hg, -⟩, ⟨g', post, hon', hlist, -, hg', -⟩⟩ :=
    linked_thicket.walks_survive_uprooting hn hfin (show marked ⟨0⟩ = false from rfl)
  rw [hpost] at hlist
  cases hlist
  rw [hseen] at hon
  exact ⟨⟨linked_thicket, hfin, rfl⟩, ⟨g, hon, hg, hg.subtree.trans hsub⟩,
    g', hon', hg', hg'.subtree.trans hsub⟩

end TestLauncher.Forest
