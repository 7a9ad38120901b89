import TestLauncher.Proofs.Forest.Loosening

/-! # Cutting nodes out of a forest

    A forest in which some nodes were taken away is described by the forest it was and the
    nodes that are gone: these have no parents, and no node keeps them (`cut`).  Each look at
    it is a look at the forest it was.  Where links agree, taking away one more node cuts out
    that node and, each by itself, its children (`detach_cut`), so that a row of removals is
    known by the nodes it took and not by the edits it consisted of. -/

namespace TestLauncher

namespace OrderedMap

variable {κ α : Type}

/-- The entries whose values have a property. -/
def restrict (m : OrderedMap κ α) (p : α → Bool) : OrderedMap κ α :=
  ⟨m.toList.filter fun e => p e.2, m.nodup.sublist (List.filter_sublist.map _)⟩

/-- The values that are left are those with the property, in their order. -/
theorem values_restrict (m : OrderedMap κ α) (p : α → Bool) :
    (m.restrict p).values = m.values.filter p := by
  rw [values, values, restrict, List.filter_map]
  rfl

/-- A map whose values all have the property is left as it is. -/
theorem restrict_of_forall {m : OrderedMap κ α} {p : α → Bool} (h : ∀ a ∈ m.values, p a = true) :
    m.restrict p = m := by
  refine ext_toList (List.filter_eq_self.mpr ?_)
  intro e he
  exact h e.2 (List.mem_map_of_mem he)

/-- One restriction after the other keeps what has both properties. -/
theorem restrict_restrict (m : OrderedMap κ α) (p q : α → Bool) :
    (m.restrict p).restrict q = m.restrict fun a => p a && q a := by
  refine ext_toList ?_
  show (m.toList.filter _).filter _ = m.toList.filter _
  rw [List.filter_filter]
  exact List.filter_congr fun e _ => Bool.and_comm ..

variable [DecidableEq κ]

/-- A key has its value if that has the property. -/
theorem get?_restrict (m : OrderedMap κ α) (p : α → Bool) (k : κ) :
    (m.restrict p).get? k = (m.get? k).filter p := by
  refine Option.ext fun a => ?_
  rw [get?_eq_some_iff, Option.filter_eq_some_iff, get?_eq_some_iff, restrict, List.mem_filter]

/-- Erasing the key of a value drops the value where it stands under that key alone. -/
theorem erase_eq_restrict [DecidableEq α] {m : OrderedMap κ α} {k : κ} {a : α}
    (hk : ∀ e ∈ m.toList, e.1 = k ↔ e.2 = a) :
    m.erase k = m.restrict fun b => !decide (b = a) := by
  refine ext_toList ?_
  rw [toList_erase, restrict]
  refine List.filter_congr ?_
  intro e he
  rw [decide_not, decide_eq_decide.mpr (hk e he)]

end OrderedMap

namespace Forest

variable {f : Forest} {gone : NodeRef → Bool} {r p c x : NodeRef} {n : Node}

/-- The forest in which the given nodes have no parents and are kept by none. -/
def cut (f : Forest) (gone : NodeRef → Bool) : Forest :=
  ⟨f.nodes.mapIdx fun i n => { n with
    parent := if gone ⟨i⟩ then none else n.parent
    children := n.children.restrict fun c => !gone c }⟩

/-- A cut node is there without its parent, and every node without the cut ones among its
    children. -/
theorem node?_cut (f : Forest) (gone : NodeRef → Bool) (r : NodeRef) :
    (f.cut gone).node? r = (f.node? r).map fun n => { n with
      parent := if gone r then none else n.parent
      children := n.children.restrict fun c => !gone c } := by
  rw [node?, cut, Array.getElem?_mapIdx]
  rfl

@[simp] theorem size_cut : (f.cut gone).size = f.size := by
  rw [size, cut, Array.size_mapIdx, size]

/-- A filter sees of a node what it saw before the cut. -/
@[simp] theorem bare?_cut : (f.cut gone).bare? r = f.bare? r := by
  rw [bare?, node?_cut, Option.map_map]
  rfl

@[simp] theorem id?_cut : (f.cut gone).id? r = f.id? r := by
  rw [id?, node?_cut, Option.map_map]
  rfl

@[simp] theorem isTest_cut : (f.cut gone).isTest r = f.isTest r := by
  rw [isTest, isTest, node?_cut, Option.any_map]

/-- A cut node has no parent, every other node the one it had. -/
theorem parent?_cut : (f.cut gone).parent? r = if gone r then none else f.parent? r := by
  rw [parent?, node?_cut, parent?]
  cases f.node? r with
  | none => simp
  | some n => rfl

/-- The children that are not cut are left, in their order. -/
theorem children_cut : (f.cut gone).children r = (f.children r).filter fun c => !gone c := by
  rw [children, node?_cut, children]
  cases f.node? r with
  | none => rfl
  | some n => exact n.children.values_restrict _

/-- A child that is not cut is found as before. -/
theorem child?_cut (k : UniqueId) :
    (f.cut gone).child? r k = (f.child? r k).filter fun c => !gone c := by
  rw [child?, node?_cut, child?]
  cases f.node? r with
  | none => rfl
  | some n => exact n.children.get?_restrict _ k

/-- A node is what it was unless it is gone or one of its children is. -/
theorem node?_cut_of_kept (hr : gone r = false) (hc : ∀ c ∈ f.children r, gone c = false) :
    (f.cut gone).node? r = f.node? r := by
  rw [node?_cut]
  cases hn : f.node? r with
  | none => rfl
  | some n =>
      have hkept : (n.children.restrict fun c => !gone c) = n.children := by
        refine OrderedMap.restrict_of_forall fun c hmem => ?_
        rw [hc c (by rwa [children, hn]), Bool.not_false]
      rw [Option.map_some, hr, hkept]
      rfl

/-- One cut after the other is one cut. -/
theorem cut_cut (f : Forest) (gone gone' : NodeRef → Bool) :
    (f.cut gone).cut gone' = f.cut fun x => gone x || gone' x := by
  refine ext_node? fun r => ?_
  rw [node?_cut, node?_cut, node?_cut, Option.map_map]
  refine congrArg (Option.map · (f.node? r)) (funext fun n => ?_)
  simp only [Function.comp_apply, OrderedMap.restrict_restrict, Bool.not_or]
  cases gone r <;> cases gone' r <;> rfl

/-- A cut of no node changes nothing. -/
theorem cut_of_forall (h : ∀ x, gone x = false) : f.cut gone = f :=
  ext_node? fun r => node?_cut_of_kept (h r) fun c _ => h c

/-- A cut only undoes links. -/
theorem loosened_cut (f : Forest) (gone : NodeRef → Bool) : f.Loosened (f.cut gone) where
  bare := fun _ => bare?_cut
  parent := by
    intro x
    rw [parent?_cut]
    split
    · exact Or.inr rfl
    · exact Or.inl rfl
  children := by
    intro x
    rw [children_cut]
    exact List.filter_subset_self _
  size := size_cut

/-- The way up from a node is what it was while no node on it is gone. -/
theorem along_cut {path : List NodeRef} (h : ∀ x ∈ path, gone x = false) :
    f.Along (f.cut gone) path := by
  refine ⟨fun _ => bare?_cut, fun x hx => ?_⟩
  rw [parent?_cut, h x hx]
  rfl

/-- Cutting nodes out of trees leaves the trees without what is gone and all below it. -/
theorem holds_cut {t : Grove NodeRef} {pp : Option NodeRef} (ht : f.Holds pp t) :
    (f.cut gone).Holds pp (t.keep fun x => !gone x) := by
  induction t generalizing pp with
  | nil => trivial
  | cons r b s ihb ihs =>
      obtain ⟨⟨n, hn, hp, hv, hk⟩, hb, hs⟩ := ht
      rw [Grove.keep]
      cases hr : gone r with
      | true => exact ihs hs
      | false =>
          refine ⟨⟨_, by rw [node?_cut, hn]; rfl, ?_, ?_, ?_⟩, ihb hb, ihs hs⟩
          · rw [hr]
            exact hp
          · rw [Grove.roots_keep, ← hv]
            exact n.children.values_restrict _
          · intro e he
            have hid := hk e (List.mem_of_mem_filter he)
            have hcut : (f.cut gone).id? e.2 = f.id? e.2 := id?_cut
            exact hcut.trans hid

/-- A cut leaves a linked forest linked. -/
theorem Linked.cut (hf : f.Linked) : (f.cut gone).Linked where
  kept_iff := by
    intro p id c
    rw [child?_cut, Option.filter_eq_some_iff, hf.kept_iff, id?_cut, parent?_cut]
    cases gone c <;> simp
  apart := by
    intro c
    rw [parent?_cut]
    split
    · exact fun h => by cases h
    · exact hf.apart c

/-- A node that does not keep a node is not changed by dropping that one. -/
theorem restrict_of_not_kept {y : NodeRef} (hy : f.node? y = some n) (hx : x ∉ f.children y) :
    (n.children.restrict fun c => !decide (c = x)) = n.children := by
  refine OrderedMap.restrict_of_forall fun c hc => ?_
  have hcx : c ≠ x := by
    rintro rfl
    exact hx (by rwa [children, hy])
  rw [decide_eq_false hcx, Bool.not_false]

/-- A parent keeps a child under the identifier of the child and under no other. -/
theorem Linked.key_iff {q : Node} {i : UniqueId} (hf : f.Linked) (hp : f.parent? x = some p)
    (hx : f.id? x = some i) (hq : f.node? p = some q) :
    ∀ e ∈ q.children.toList, e.1 = i ↔ e.2 = x := by
  intro e he
  have hchild : f.child? p e.1 = some e.2 := by
    rw [child?_of_node? hq]
    exact (OrderedMap.get?_eq_some_iff ..).mpr he
  constructor
  · intro h
    rw [h, (hf.kept_iff p i x).mpr ⟨hx, hp⟩] at hchild
    exact (Option.some.inj hchild).symm
  · intro h
    have hid := ((hf.kept_iff p e.1 e.2).mp hchild).1
    rw [h, hx] at hid
    exact (Option.some.inj hid).symm

/-! ## Taking nodes away -/

/-- Taking a child out of its place cuts it out. -/
theorem Linked.removeChild_eq_cut (hf : f.Linked) (hp : f.parent? x = some p) :
    f.removeChild p x = f.cut fun y => decide (y = x) := by
  obtain ⟨n, hn, -⟩ := Option.bind_eq_some_iff.mp hp
  have hkept : f.child? p n.id = some x := (hf.kept_iff p n.id x).mpr ⟨id?_of_node? hn, hp⟩
  obtain ⟨q, hq, -⟩ := Option.bind_eq_some_iff.mp hkept
  have hxp : x ≠ p := fun e => hf.apart x (by rw [hp, e])
  -- no node but its parent keeps the node that goes
  have helse : ∀ y, y ≠ p → x ∉ f.children y := by
    intro y hy hmem
    rw [hf.mem_children_iff, hp] at hmem
    exact hy (Option.some.inj hmem).symm
  rw [removeChild_kept hn hkept, Forest.unlink, setParent, dropChild]
  refine ext_node? fun y => ?_
  rw [node?_modify, node?_modify, node?_cut]
  by_cases hyx : y = x
  · subst hyx
    rw [if_pos rfl, if_neg (Ne.symm hxp), hn, Option.map_some, Option.map_some,
      restrict_of_not_kept hn (helse y hxp), decide_eq_true rfl, if_pos rfl]
  · rw [if_neg (Ne.symm hyx), decide_eq_false hyx]
    by_cases hyp : y = p
    · subst hyp
      rw [if_pos rfl, hq, Option.map_some, Option.map_some,
        OrderedMap.erase_eq_restrict (hf.key_iff hp (id?_of_node? hn) hq)]
      rfl
    · rw [if_neg (Ne.symm hyp)]
      cases hm : f.node? y with
      | none => rfl
      | some m =>
          rw [Option.map_some, restrict_of_not_kept hm (helse y hyp)]
          rfl

/-- No child stands twice below a node. -/
theorem Linked.nodup_children (hf : f.Linked) (r : NodeRef) : (f.children r).Nodup :=
  List.Nodup.of_map _ (hf.nodup_map_id_children r)

/-- Taking children out of their places one after the other. -/
theorem Linked.foldl_removeChild (hf : f.Linked) {cs : List NodeRef} (hn : cs.Nodup)
    (hcs : ∀ c ∈ cs, f.parent? c = some r) :
    cs.foldl (fun f c => f.removeChild r c) f = f.cut fun y => decide (y ∈ cs) := by
  induction cs generalizing f with
  | nil => exact (cut_of_forall fun x => decide_eq_false List.not_mem_nil).symm
  | cons c cs ih =>
      obtain ⟨hc, hns⟩ := List.nodup_cons.mp hn
      have hrest : ∀ d ∈ cs, (f.cut fun y => decide (y = c)).parent? d = some r := by
        intro d hd
        have hdc : d ≠ c := fun e => hc (e ▸ hd)
        rw [parent?_cut, decide_eq_false hdc]
        exact hcs d (by simp [hd])
      rw [List.foldl_cons, hf.removeChild_eq_cut (hcs c (by simp)), ih hf.cut hns hrest, cut_cut]
      refine congrArg f.cut (funext fun y => ?_)
      rw [← Bool.decide_or, decide_eq_decide, List.mem_cons]

/-- Taking a node away cuts out the node and its children. -/
theorem Linked.detach_eq_cut (hf : f.Linked) (hp : f.parent? x = some p) :
    f.detach x = .ok (f.cut fun y => decide (y = x) || decide (y ∈ f.children x)) := by
  obtain ⟨n, hn, hnp⟩ := Option.bind_eq_some_iff.mp hp
  have hne : ∀ c ∈ f.children x, c ≠ x := by
    rintro c hc rfl
    exact hf.apart c (hf.mem_children_iff.mp hc)
  have hcut : (f.cut fun y => decide (y = x)).children x = f.children x := by
    rw [children_cut, List.filter_eq_self]
    intro c hc
    rw [decide_eq_false (hne c hc), Bool.not_false]
  have hparents : ∀ c ∈ f.children x, (f.cut fun y => decide (y = x)).parent? c = some x := by
    intro c hc
    rw [parent?_cut, decide_eq_false (hne c hc)]
    exact hf.mem_children_iff.mp hc
  rw [Forest.detach, hn]
  dsimp only
  rw [hnp]
  dsimp only
  rw [hf.removeChild_eq_cut hp, hcut, hf.cut.foldl_removeChild (hf.nodup_children x) hparents,
    cut_cut]

/-- **Taking away one more node** cuts out that node and its children as well. -/
theorem detach_cut (hf : f.Linked) (hp : f.parent? x = some p) (hx : gone x = false) :
    (f.cut gone).detach x
      = .ok (f.cut fun y => gone y || (decide (y = x) || decide (y ∈ f.children x))) := by
  have hparent : (f.cut gone).parent? x = some p := by
    rw [parent?_cut, hx]
    exact hp
  rw [hf.cut.detach_eq_cut hparent, cut_cut, children_cut]
  refine congrArg (fun gone => Except.ok (f.cut gone)) (funext fun y => ?_)
  -- a child that is gone already is cut out in any case
  by_cases hy : gone y = true <;> simp [hy]

/-- A node that has no children left is cut out alone. -/
theorem detach_cut_leaf (hf : f.Linked) (hp : f.parent? x = some p) (hx : gone x = false)
    (hc : (f.cut gone).children x = []) :
    (f.cut gone).detach x = .ok (f.cut fun y => gone y || decide (y = x)) := by
  rw [children_cut, List.filter_eq_nil_iff] at hc
  rw [detach_cut hf hp hx]
  refine congrArg (fun gone => Except.ok (f.cut gone)) (funext fun y => ?_)
  by_cases hy : y ∈ f.children x
  · have hgone : gone y = true := by simpa using hc y hy
    rw [hgone, Bool.true_or, Bool.true_or]
  · rw [decide_eq_false hy, Bool.or_false]

/-! ## Subtrees -/

variable {k : Nat}

/-- A node from which the way up ends hangs by itself. -/
theorem Linked.hung_one (hf : f.Linked) (hr : f.Deep k r) : f.Hung [r] :=
  hf.hung fun x hx => ⟨k, by rwa [List.mem_singleton.mp hx]⟩

/-- What is reached from a node is the node or reached from one of its children. -/
theorem Reached.cases_head (h : f.Reached [r] x) : x = r ∨ ∃ c ∈ f.children r, f.Reached [c] x := by
  induction h with
  | root hx => exact Or.inl (List.mem_singleton.mp hx)
  | child _ hc ih =>
      rcases ih with rfl | ⟨d, hd, hreached⟩
      · exact Or.inr ⟨_, hc, reached_self⟩
      · exact Or.inr ⟨d, hd, .child hreached hc⟩

section

variable (hf : f.Linked) (hr : f.Deep k r)

include hf hr

/-- The subtree of a node is what is reached from it. -/
theorem Linked.mem_subtree_iff : x ∈ f.subtree r ↔ f.Reached [r] x :=
  (hf.hung_one hr).mem_subtree_iff reached_self

/-- The way up ends from every node of a subtree. -/
theorem Linked.deep_of_mem_subtree (hx : x ∈ f.subtree r) : ∃ j, f.Deep j x :=
  (hf.hung_one hr).exists_deep ((hf.mem_subtree_iff hr).mp hx)

/-- Cutting nodes out leaves what is below a node without what is gone and all below that. -/
theorem Linked.below_cut : (f.cut gone).below r = (f.below r).keep fun x => !gone x := by
  have hhung := hf.hung_one hr
  obtain ⟨hroots, hbelow⟩ := hhung.holds_below reached_self
  have hnb := (Grove.nodup_tree.mp (hhung.nodup_below reached_self)).2
  obtain ⟨j, hj⟩ := (f.loosened_cut gone).deep hr
  have hroots' : ((f.below r).keep fun x => !gone x).roots = (f.cut gone).children r := by
    rw [Grove.roots_keep, hroots, children_cut]
  have hcut : (f.cut gone).Linked := hf.cut
  have hstands := (hcut.hung_one hj).stands reached_self
  rw [← hroots'] at hstands
  exact below_eq hstands (holds_cut hbelow) (hnb.sublist (Grove.sublist_keep _ _))

/-- When each node goes with all that is below it, a subtree is left without what is gone. -/
theorem Linked.subtree_cut
    (hclosed : ∀ a ∈ (f.below r).toList, ∀ x ∈ f.subtree a, gone x = false → gone a = false) :
    (f.cut gone).subtree r = r :: (f.below r).toList.filter fun x => !gone x := by
  have hhung := hf.hung_one hr
  obtain ⟨-, hbelow⟩ := hhung.holds_below reached_self
  have hnb := (Grove.nodup_tree.mp (hhung.nodup_below reached_self)).2
  obtain ⟨j, hj⟩ := (f.loosened_cut gone).deep hr
  have hcut : (f.cut gone).Linked := hf.cut
  rw [(hcut.hung_one hj).subtree reached_self, hf.below_cut hr, Grove.toList_keep hnb]
  intro a ha x hx h
  rw [← subtree_eq hbelow hnb ha] at hx
  rw [Bool.not_eq_true'] at h ⊢
  exact hclosed a ha x hx h

end

end Forest

end TestLauncher
