import TestLauncher.Proofs.Forest.Culling

/-! # What a cull leaves of trees

    Trees are winnowed when exactly those branches are gone that bear no node that passes
    (`Winnowed`): the roots stay in any case, and everything that is left has the place it
    had.  A cull winnows (`Linked.winnowed`).

    Pruning is the cull in which tests pass (`pruneNode_culls`), so one pass takes away a
    chain of containers that hold nothing but each other, and whether a tree holds a test
    is the same before and after (`prune_winnows`). -/

namespace TestLauncher.Forest

variable {τ : Type} {f g : Forest} {root r c x n : NodeRef} {roots : List NodeRef}
  {passes : NodeRef → Bool} {k : Nat}

/-- The second forest is the first one without the branches below some roots that bear no node
    that passes. -/
structure Winnowed (f g : Forest) (roots : List NodeRef) (passes : NodeRef → Bool) : Prop where
  /-- A node below a root stays attached exactly when its subtree bears a node that passes. -/
  attached : ∀ root ∈ roots, ∀ n ∈ f.subtree root, n ≠ root →
    (n ∈ g.subtree root ↔ ∃ k ∈ f.subtree n, passes k = true)
  /-- Nothing is added, and pre-order is kept. -/
  order : ∀ root ∈ roots, (g.subtree root).Sublist (f.subtree root)
  /-- A node that stays has its children that stay, in the order they had. -/
  children : ∀ root ∈ roots, ∀ n ∈ g.subtree root,
    g.children n = (f.children n).filter fun c => decide (c ∈ g.subtree root)
  /-- A node that stays, the root included, has the parent it had. -/
  parent : ∀ root ∈ roots, ∀ n ∈ g.subtree root, g.parent? n = f.parent? n
  /-- A node that goes has no parent any more. -/
  gone : ∀ root ∈ roots, ∀ n ∈ f.subtree root, n ∉ g.subtree root → g.parent? n = none
  /-- No node has another description. -/
  bare : ∀ n, g.bare? n = f.bare? n
  /-- What is outside of the trees is as it was. -/
  outside : ∀ n, n ∉ roots.flatMap f.subtree → g.node? n = f.node? n

/-- A subtree of a subtree is part of it. -/
theorem Linked.mem_subtree_trans (hf : f.Linked) (hr : f.Deep k r) (hx : x ∈ f.subtree r)
    (hc : c ∈ f.subtree x) : c ∈ f.subtree r := by
  obtain ⟨j, hj⟩ := hf.deep_of_mem_subtree hr hx
  exact (hf.mem_subtree_iff hr).mpr
    (.trans ((hf.mem_subtree_iff hr).mp hx) ((hf.mem_subtree_iff hj).mp hc))

section

variable (hf : f.Linked) (hroots : ∀ r ∈ roots, ∃ k, f.Deep k r)
  (hn : (roots.flatMap f.subtree).Nodup)

include hf hroots

/-- The nodes that are left in the tree below a root. -/
theorem Linked.subtree_culled (hr : r ∈ roots) :
    (f.cut (f.culled passes roots)).subtree r
      = r :: (f.below r).toList.filter (f.bears passes) := by
  obtain ⟨k, hk⟩ := hroots r hr
  have hhung := hf.hung_one hk
  have hsubtree := hhung.subtree reached_self
  obtain ⟨hrb, -⟩ := Grove.nodup_tree.mp (hhung.nodup_below reached_self)
  have hculled : ∀ a ∈ (f.below r).toList, f.culled passes roots a = !f.bears passes a := by
    intro a ha
    have hsub : a ∈ f.subtree r := by
      rw [hsubtree]
      exact List.mem_cons_of_mem r ha
    exact culled_eq hroots hf hr hsub fun e => hrb (e ▸ ha)
  rw [hf.subtree_cut hk]
  · refine congrArg (r :: ·) (List.filter_congr fun a ha => ?_)
    rw [hculled a ha, Bool.not_not]
  · intro a ha x hx hkept
    have hasub : a ∈ f.subtree r := by
      rw [hsubtree]
      exact List.mem_cons_of_mem r ha
    obtain ⟨j, hj⟩ := hf.deep_of_mem_subtree hk hasub
    have hxsub := hf.mem_subtree_trans hk hasub hx
    by_cases hxr : x = r
    · subst hxr
      exact absurd (hf.eq_of_mem_subtrees hk hasub hx) fun e => hrb (e ▸ ha)
    · rw [culled_eq hroots hf hr hxsub hxr] at hkept
      have hbears := hf.bears_of_mem_subtree hj hx (by simpa using hkept)
      rw [hculled a ha, hbears, Bool.not_true]

/-- What is left in a tree are its root and the nodes that bear a node that passes. -/
theorem Linked.mem_subtree_culled (hr : r ∈ roots) (hx : x ∈ f.subtree r) :
    x ∈ (f.cut (f.culled passes roots)).subtree r ↔ x = r ∨ f.bears passes x = true := by
  obtain ⟨k, hk⟩ := hroots r hr
  rw [(hf.hung_one hk).subtree reached_self, List.mem_cons] at hx
  rw [hf.subtree_culled hroots hr, List.mem_cons, List.mem_filter]
  constructor
  · exact fun h => h.imp_right And.right
  · rintro (h | h)
    · exact Or.inl h
    · exact hx.imp_right fun hmem => ⟨hmem, h⟩

theorem Linked.sublist_subtree_culled (hr : r ∈ roots) :
    ((f.cut (f.culled passes roots)).subtree r).Sublist (f.subtree r) := by
  obtain ⟨k, hk⟩ := hroots r hr
  rw [hf.subtree_culled hroots hr, (hf.hung_one hk).subtree reached_self]
  exact List.filter_sublist.cons_cons r

/-- What is below a root has its parent in the tree. -/
theorem Linked.mem_trees_of_child (hc : c ∈ f.children x)
    (hmem : c ∈ roots.flatMap fun r => (f.below r).toList) : x ∈ roots.flatMap f.subtree := by
  obtain ⟨r, hr, hcr⟩ := List.mem_flatMap.mp hmem
  obtain ⟨k, hk⟩ := hroots r hr
  have hhung := hf.hung_one hk
  refine List.mem_flatMap.mpr ⟨r, hr, ?_⟩
  rw [hhung.subtree reached_self, List.mem_cons]
  rcases parent_mem_of_holds (hhung.holds_below reached_self).2 hcr
    (hf.mem_children_iff.mp hc) with h | h
  · exact Or.inr h
  · exact Or.inl (Option.some.inj h).symm

include hn

/-- A node that is left is not among those that are cut out. -/
theorem Linked.not_culled_of_left (hr : r ∈ roots)
    (hx : x ∈ (f.cut (f.culled passes roots)).subtree r) : f.culled passes roots x = false := by
  obtain ⟨k, hk⟩ := hroots r hr
  have hsub := (hf.sublist_subtree_culled hroots hr).mem hx
  by_cases hxr : x = r
  · obtain ⟨rest, hup⟩ := hk.wayUp
    exact not_culled_above hf hroots hn hr hup x (by simp [hxr])
  · have hbears := ((hf.mem_subtree_culled hroots hr hsub).mp hx).resolve_left hxr
    rw [culled_eq hroots hf hr hsub hxr, hbears, Bool.not_true]

/-- **A cull winnows.** -/
theorem Linked.winnowed : f.Winnowed (f.cut (f.culled passes roots)) roots passes where
  attached := by
    intro root hroot n hsub hne
    rw [hf.mem_subtree_culled hroots hroot hsub, bears, List.any_eq_true]
    exact or_iff_right hne
  order := fun root hroot => hf.sublist_subtree_culled hroots hroot
  children := by
    intro root hroot n hleft
    obtain ⟨k, hk⟩ := hroots root hroot
    have hsub := (hf.sublist_subtree_culled hroots hroot).mem hleft
    rw [children_cut]
    refine List.filter_congr fun c hc => ?_
    obtain ⟨hcsub, hcr⟩ := hf.child_mem_subtree hk hsub hc
    rw [culled_eq hroots hf hroot hcsub hcr, Bool.not_not, Bool.eq_iff_iff, decide_eq_true_iff,
      hf.mem_subtree_culled hroots hroot hcsub]
    exact (or_iff_right hcr).symm
  parent := by
    intro root hroot n hleft
    rw [parent?_cut, hf.not_culled_of_left hroots hn hroot hleft]
    rfl
  gone := by
    intro root hroot n hsub hgone
    rw [hf.mem_subtree_culled hroots hroot hsub, not_or, Bool.not_eq_true] at hgone
    rw [parent?_cut, culled_eq hroots hf hroot hsub hgone.1, hgone.2]
    rfl
  bare := fun _ => bare?_cut
  outside := by
    intro n hout
    refine node?_cut_of_kept (culled_of_not_mem hf hroots hout) fun c hc => ?_
    exact culled_of_not_below fun hmem => hout (hf.mem_trees_of_child hroots hc hmem)

end

/-! ## What bears a node that passes -/

namespace Winnowed

variable (h : f.Winnowed g roots passes) (hroot : root ∈ roots)

include h hroot

/-- Whatever is above a node that passes stays. -/
theorem mem_of_bears (ha : r ∈ f.subtree root) (hx : x ∈ f.subtree r) (hpass : passes x = true) :
    r ∈ g.subtree root := by
  by_cases hr : r = root
  · rw [hr]
    exact List.mem_cons_self ..
  · exact (h.attached root hroot r ha hr).mpr ⟨x, hx, hpass⟩

variable (hf : f.Linked) (hg : g.Linked) (hk : f.Deep k root)

include hf hg hk

/-- Whatever is above a node that passes keeps it: from the one down to the other every step is
    still there. -/
theorem mem_subtree {j : Nat} (hj : g.Deep j r) (hr : r ∈ f.subtree root) (hx : x ∈ f.subtree r)
    (hpass : passes x = true) : x ∈ g.subtree r := by
  obtain ⟨i, hi⟩ := hf.deep_of_mem_subtree hk hr
  have hsteps : ∀ y, f.Reached [r] y → x ∈ f.subtree y → g.Reached [r] y := by
    intro y hy
    induction hy with
    | root hy => exact fun _ => .root hy
    | @child p c hp hc ih =>
        intro hxc
        have hpsub := hf.mem_subtree_trans hk hr ((hf.mem_subtree_iff hi).mpr hp)
        obtain ⟨m, hm⟩ := hf.deep_of_mem_subtree hk hpsub
        obtain ⟨hcsub, -⟩ := hf.child_mem_subtree hk hpsub hc
        have hcp : c ∈ f.subtree p := (hf.mem_subtree_iff hm).mpr (.child reached_self hc)
        have hxp := hf.mem_subtree_trans hm hcp hxc
        have hpleft := h.mem_of_bears hroot hpsub hxp hpass
        refine .child (ih hxp) ?_
        rw [h.children root hroot p hpleft, List.mem_filter]
        exact ⟨hc, decide_eq_true (h.mem_of_bears hroot hcsub hxc hpass)⟩
  rw [hf.mem_subtree_iff hi] at hx
  exact (hg.mem_subtree_iff hj).mpr (hsteps x hx (List.mem_cons_self ..))

/-- A node bears a node that passes if it did. -/
theorem bears {j : Nat} (hj : g.Deep j r) (hr : r ∈ f.subtree root)
    (hbears : f.bears passes r = true) : g.bears passes r = true := by
  obtain ⟨x, hx, hpass⟩ := List.any_eq_true.mp hbears
  exact List.any_eq_true.mpr ⟨x, h.mem_subtree hroot hf hg hk hj hr hx hpass, hpass⟩

end Winnowed

/-! ## Looking for tests -/

theorem anyM_hasTestsFrom {t : Grove NodeRef} {pp : Option NodeRef} {n : Nat}
    (ht : f.Holds pp t) (hn : t.height ≤ n) :
    t.roots.anyM (f.hasTestsFrom n) = .ok (t.toList.any f.isTest) := by
  induction t generalizing pp n with
  | nil => rfl
  | cons r b s ihb ihs =>
      obtain ⟨hr, hb, hs⟩ := ht
      simp only [Grove.height] at hn
      obtain ⟨m, rfl⟩ : ∃ m, n = m + 1 := by
        cases n with
        | zero => omega
        | succ m => exact ⟨m, rfl⟩
      have hbeside := ihs hs (n := m + 1) (by omega)
      have hfirst : f.hasTestsFrom (m + 1) r = .ok (f.isTest r || b.toList.any f.isTest) := by
        rw [hasTestsFrom, hr.children, ihb hb (by omega)]
        cases f.isTest r <;> rfl
      rw [Grove.roots_cons, List.anyM, hfirst, hbeside, Grove.toList_cons, List.any_cons,
        List.any_append]
      cases f.isTest r <;> cases b.toList.any f.isTest <;> rfl

/-- Looking for a test in a tree comes to an end. -/
theorem hasTests_of_holds (hroots : (f.below r).roots = f.children r)
    (hbelow : f.Holds (some r) (f.below r)) :
    f.hasTests r = .ok ((r :: (f.below r).toList).any f.isTest) := by
  have hany := anyM_hasTestsFrom hbelow (height_belowFrom f.size r)
  rw [hroots] at hany
  rw [hasTests, depthBound, hasTestsFrom, hany, List.any_cons]
  cases f.isTest r <;> rfl

/-- A node has tests when its subtree holds one. -/
theorem Linked.hasTests_eq (hf : f.Linked) (hr : f.Deep k r) :
    f.hasTests r = .ok (f.bears f.isTest r) := by
  have hhung := hf.hung_one hr
  obtain ⟨hroots, hbelow⟩ := hhung.holds_below reached_self
  rw [hasTests_of_holds hroots hbelow, bears, hhung.subtree reached_self]

/-! ## Pruning -/

theorem isEmpty_children {m : Node} (hr : g.node? r = some m) :
    (g.children r).isEmpty = m.children.isEmpty := by
  rw [children, hr]
  exact List.isEmpty_map

/-- Pruning takes away a node that has no children and is not a test, unless it is the root. -/
theorem on_pruneNode (root r : NodeRef) (g : Forest) :
    (pruneNode root r).on g
      = if (r = root || !(g.children r).isEmpty || g.isTest r) = true then (.ok (), g)
        else (uproot r).on g := by
  rw [pruneNode, Steps.on_bind_ok (Steps.on_get g)]
  cases hr : g.node? r with
  | none =>
      have huproot : (uproot r).on g = (.ok (), g) := by
        rw [on_uproot, detach, hr]
      rw [huproot, ite_self]
      rfl
  | some m =>
      have htest : g.isTest r = m.kind.isTest := by
        rw [isTest, hr]
        rfl
      rw [isEmpty_children hr, htest]
      dsimp only
      split <;> rfl

/-- Pruning as a culler: tests pass, and nothing is noted. -/
theorem pruneNode_culls (f : Forest) (root : NodeRef) :
    Culler f root f.isTest (fun _ (j : Journal) => j) fun r => (pruneNode root r).first where
  plucks := by
    rintro r ⟨g, j⟩
    rw [Steps.on_first, on_pruneNode]
    split
    · exact Or.inl rfl
    · rw [on_uproot]
      cases g.detach r with
      | error e => exact Or.inl rfl
      | ok g' => exact Or.inr rfl
  top := by
    intro g j
    rw [Steps.on_first, on_pruneNode, if_pos (by simp)]
  parent := by
    intro r g j hc
    rw [Steps.on_first, on_pruneNode, if_pos (by simp [hc])]
  kept := by
    intro r rest g j _ _ halong _ hpass
    have htest : g.isTest r = f.isTest r := isTest_congr (halong.1 r)
    rw [Steps.on_first, on_pruneNode, if_pos (by simp [htest, hpass])]
  taken := by
    intro r rest g g' j hr _ halong hc hpass hdetach
    have htest : g.isTest r = f.isTest r := isTest_congr (halong.1 r)
    rw [Steps.on_first, on_pruneNode, if_neg (by simp [hr, hc, htest, hpass]), on_uproot, hdetach]

/-- Pruning a tree does to the forest what the cull does. -/
theorem prune_of_cull {j j' : Journal}
    (h : (cullAll (fun root r => (pruneNode root r).first) [root]).on (f, j) = (.ok (), g, j')) :
    (prune root).on f = (.ok (), g) := by
  obtain ⟨j'', hfollows⟩ := follows_visitPostOrder (c := fun r => (pruneNode root r).first)
    (d := pruneNode root) (fun r f j => ⟨j, rfl⟩) root f j
  have hone : (cullAll (fun root r => (pruneNode root r).first) [root]
      : Steps (Forest × Journal) Unit)
      = visitPostOrder (do return (← get).1) (fun r => (pruneNode root r).first) root :=
    bind_pure _
  rw [hone, hfollows] at h
  injection h with hok hforest
  injection hforest with hforest _
  exact Prod.ext hok hforest

/-- **Pruning keeps exactly the branches with tests.**  One pass leaves of a tree, however deep,
    its root and the nodes whose subtrees held tests, each in its place; so every test stays with
    all that is above it, what is left has tests, and the root has tests when it had any.  A
    second pass changes nothing. -/
theorem prune_winnows (hf : f.Linked) (hroot : f.Deep k root) :
    ∃ g, (prune root).on f = (.ok (), g) ∧ f.Winnowed g [root] f.isTest ∧
      (∀ t ∈ f.subtree root, f.isTest t = true → ∀ a ∈ f.subtree root, t ∈ f.subtree a →
        a ∈ g.subtree root ∧ t ∈ g.subtree a) ∧
      (∀ n ∈ g.subtree root, n ≠ root → g.hasTests n = .ok true) ∧
      g.hasTests root = f.hasTests root ∧
      (prune root).on g = (.ok (), g) := by
  have hroots : ∀ r ∈ [root], ∃ k, f.Deep k r := fun r hr => ⟨k, List.mem_singleton.mp hr ▸ hroot⟩
  have hmem : root ∈ [root] := List.mem_singleton.mpr rfl
  have hn : ([root].flatMap f.subtree).Nodup := by
    rw [List.flatMap_singleton, (hf.hung_one hroot).subtree reached_self, ← Grove.toList_tree]
    exact (hf.hung_one hroot).nodup_below reached_self
  have hcull : ∀ r ∈ [root], Culler f r f.isTest (fun _ (j : Journal) => j)
      fun x => (pruneNode r x).first := fun r _ => pruneNode_culls f r
  have hon := prune_of_cull (Culler.on_trees hf hroots hn hcull ∅)
  have hagain := prune_of_cull (Culler.on_trees_again hf hroots hn hcull (fun _ _ _ => rfl) ∅)
  have hwin : f.Winnowed (f.cut (f.culled f.isTest [root])) [root] f.isTest :=
    hf.winnowed hroots hn
  generalize hg : f.cut (f.culled f.isTest [root]) = g at hon hagain hwin
  have hlinked : g.Linked := hg ▸ hf.cut
  have htest : g.isTest = f.isTest := funext fun r => isTest_congr (hwin.bare r)
  have hdeep : ∀ a ∈ f.subtree root, ∃ j, g.Deep j a := by
    intro a ha
    obtain ⟨j, hj⟩ := hf.deep_of_mem_subtree hroot ha
    exact hg ▸ (f.loosened_cut _).deep hj
  refine ⟨g, hon, hwin, ?_, ?_, ?_, hagain⟩
  · intro t _ hpass a ha hta
    obtain ⟨j, hj⟩ := hdeep a ha
    exact ⟨hwin.mem_of_bears hmem ha hta hpass,
      hwin.mem_subtree hmem hf hlinked hroot hj ha hta hpass⟩
  · intro n hleft hne
    have hsub := (hwin.order root hmem).mem hleft
    obtain ⟨j, hj⟩ := hdeep n hsub
    have hbears : f.bears f.isTest n = true :=
      List.any_eq_true.mpr ((hwin.attached root hmem n hsub hne).mp hleft)
    rw [hlinked.hasTests_eq hj, htest, hwin.bears hmem hf hlinked hroot hj hsub hbears]
  · have hself : root ∈ f.subtree root := List.mem_cons_self ..
    obtain ⟨j, hj⟩ := hdeep root hself
    rw [hlinked.hasTests_eq hj, hf.hasTests_eq hroot, htest]
    refine congrArg Except.ok (Bool.eq_iff_iff.mpr ⟨?_, ?_⟩)
    · intro h
      obtain ⟨t, ht, hpass⟩ := List.any_eq_true.mp h
      exact List.any_eq_true.mpr ⟨t, (hwin.order root hmem).mem ht, hpass⟩
    · exact hwin.bears hmem hf hlinked hroot hj hself

/-- A tree with a container that holds an empty one, and a container that holds an empty one
    beside a test. -/
def thicket : Forest :=
  let id (names : List String) : Option UniqueId :=
    (UniqueId.forEngine "e" >>= names.foldlM fun id name => id.append "part" name).toOption
  Edit.outcome [
    .build (id []) "e" .container ∅ none,
    .build (id ["a"]) "a" .container ∅ none, .addChild ⟨0⟩ (some ⟨1⟩),
    .build (id ["a", "b"]) "b" .container ∅ none, .addChild ⟨1⟩ (some ⟨2⟩),
    .build (id ["c"]) "c" .container ∅ none, .addChild ⟨0⟩ (some ⟨3⟩),
    .build (id ["c", "t"]) "t" .test (StringSet.ofList ["fast"]) none, .addChild ⟨3⟩ (some ⟨4⟩),
    .build (id ["c", "d"]) "d" .container ∅ none, .addChild ⟨3⟩ (some ⟨5⟩)]

theorem linked_thicket : thicket.Linked := linked_outcome _

theorem deep_thicket : thicket.Deep 0 ⟨0⟩ := by
  have hrooted : thicket.Rooted [⟨0⟩] := linked_thicket.rooted_of_all (by decide +kernel)
  obtain ⟨n, hn, hparent⟩ := hrooted.parentless ⟨0⟩ (List.mem_singleton_self _)
  exact .top hn hparent

/-- Of the sample, the container with the test stays, and in it the test. -/
theorem prune_winnows_thicket :
    (thicket.Linked ∧ thicket.Deep 0 ⟨0⟩) ∧
    thicket.subtree ⟨0⟩ = [⟨0⟩, ⟨1⟩, ⟨2⟩, ⟨3⟩, ⟨4⟩, ⟨5⟩] ∧
    ∃ g, (prune ⟨0⟩).on thicket = (.ok (), g) ∧ g.subtree ⟨0⟩ = [⟨0⟩, ⟨3⟩, ⟨4⟩] ∧
      thicket.Winnowed g [⟨0⟩] thicket.isTest ∧ g.hasTests ⟨0⟩ = .ok true ∧
      (prune ⟨0⟩).on g = (.ok (), g) := by
  obtain ⟨g, hprune, hwin, -, -, hroot, hagain⟩ := prune_winnows linked_thicket deep_thicket
  have hleft : ((prune ⟨0⟩).on thicket).2.subtree ⟨0⟩ = [⟨0⟩, ⟨3⟩, ⟨4⟩] := by decide +kernel
  have htests : thicket.hasTests ⟨0⟩ = .ok true := by decide +kernel
  rw [hprune] at hleft
  exact ⟨⟨linked_thicket, deep_thicket⟩, by decide +kernel, g, hprune, hleft, hwin,
    hroot.trans htests, hagain⟩

end TestLauncher.Forest
