import TestLauncher.Proofs.Plan.Index

/-! # Reading trees off a forest

    What a forest holds can be read back: the trees below a node (`below`), the nodes of its
    subtree in pre-order (`subtree`), and the identifier of each node (`identifier?_eq`).
    When only some nodes of a tree are kept, each of them keeps those of its children that
    are kept (`children_keep`), and the identifiers are those they had in the whole tree
    (`identifiers_keep`).  A plan of the trees is gone down as they are
    (`TestPlan.Indexes.descendantsOf`). -/

namespace TestLauncher

/-- The picture of a node below a parent with the given id. -/
def Node.identifier (n : Node) (parentId : Option String) : Identifier where
  id := n.id.render
  parentId := parentId
  name := n.name
  kind := n.kind
  tags := n.tags
  source := n.source

namespace Forest

variable {f f' : Forest}

/-- What stands below a node, read along child links down to some depth. -/
def belowFrom (f : Forest) : Nat → NodeRef → Grove NodeRef
  | 0, _ => .nil
  | n + 1, r => (f.children r).foldr (fun c beside => .cons c (f.belowFrom n c) beside) .nil

/-- What stands below a node. -/
def below (f : Forest) (r : NodeRef) : Grove NodeRef := f.belowFrom f.size r

/-- The nodes of the tree below a node in pre-order, the node first. -/
def subtree (f : Forest) (r : NodeRef) : List NodeRef := r :: (f.descendants r).toOption.getD []

theorem foldr_belowFrom {g : Grove NodeRef} {pp : Option NodeRef} {n : Nat} (hg : f.Holds pp g)
    (hn : g.height ≤ n + 1) :
    g.roots.foldr (fun c beside => .cons c (f.belowFrom n c) beside) .nil = g := by
  induction g generalizing pp n with
  | nil => rfl
  | cons r b s ihb ihs =>
      obtain ⟨hr, hb, hs⟩ := hg
      simp only [Grove.height] at hn
      have hbelow : f.belowFrom n r = b := by
        cases n with
        | zero =>
            have hzero : b.height = 0 := by omega
            cases b with
            | nil => rfl
            | cons x y z =>
                simp only [Grove.height] at hzero
                omega
        | succ n =>
            rw [belowFrom, hr.children]
            exact ihb hb (by omega)
      rw [Grove.roots_cons, List.foldr_cons, ihs hs (by omega), hbelow]

theorem below_eq {b : Grove NodeRef} {r : NodeRef} {pp : Option NodeRef}
    (hr : f.Stands r pp b.roots) (hb : f.Holds (some r) b) (hn : b.toList.Nodup) :
    f.below r = b := by
  have hsize := height_le_size hb hn
  rw [below]
  cases hs : f.size with
  | zero =>
      obtain ⟨n, hn, -⟩ := hr.exists_node
      have hlt := (f.node?_isSome_iff r).mp (by rw [hn]; rfl)
      omega
  | succ n =>
      rw [belowFrom, hr.children]
      exact foldr_belowFrom hb (by omega)

theorem mapM_descendantsFrom {g : Grove NodeRef} {pp : Option NodeRef} {n : Nat}
    (hg : f.Holds pp g) (hn : g.height ≤ n) :
    ∃ below, (g.roots.mapM fun c => do return c :: (← f.descendantsFrom n c)) = .ok below ∧
      below.flatten = g.toList := by
  induction g generalizing pp n with
  | nil => exact ⟨[], rfl, rfl⟩
  | cons r b s ihb ihs =>
      obtain ⟨hr, hb, hs⟩ := hg
      simp only [Grove.height] at hn
      obtain ⟨m, rfl⟩ : ∃ m, n = m + 1 := by
        cases n with
        | zero => omega
        | succ m => exact ⟨m, rfl⟩
      obtain ⟨below, hbelow, hflat⟩ := ihb hb (n := m) (by omega)
      obtain ⟨beside, hbeside, hflat'⟩ := ihs hs (n := m + 1) (by omega)
      have hdesc : f.descendantsFrom (m + 1) r = .ok below.flatten := by
        rw [descendantsFrom, hr.children, hbelow]
        rfl
      refine ⟨(r :: below.flatten) :: beside, ?_, ?_⟩
      · rw [Grove.roots_cons, List.mapM_cons, hdesc, hbeside]
        rfl
      · rw [List.flatten_cons, hflat, hflat', Grove.toList_cons, List.cons_append]

theorem descendantsFrom_under {g : Grove NodeRef} {pp : Option NodeRef} {r : NodeRef} {n : Nat}
    (hg : f.Holds pp g) (hn : g.height ≤ n) (hnodup : g.toList.Nodup) (hr : r ∈ g.toList) :
    ∃ ds, f.descendantsFrom n r = .ok ds ∧ g.under r = r :: ds := by
  induction g generalizing pp n with
  | nil => exact absurd hr List.not_mem_nil
  | cons c b s ihb ihs =>
      have hg' := hg
      obtain ⟨hc, hb, hs⟩ := hg
      obtain ⟨-, -, hnb, hns, -⟩ := Grove.nodup_cons.mp hnodup
      simp only [Grove.height] at hn
      rw [Grove.toList_cons, List.mem_cons, List.mem_append] at hr
      rcases hr with rfl | hr | hr
      · obtain ⟨m, rfl⟩ : ∃ m, n = m + 1 := by
          cases n with
          | zero => omega
          | succ m => exact ⟨m, rfl⟩
        obtain ⟨below, hbelow, hflat⟩ := mapM_descendantsFrom hb (n := m) (by omega)
        refine ⟨below.flatten, ?_, ?_⟩
        · rw [descendantsFrom, hc.children, hbelow]
          rfl
        · rw [Grove.under_cons_self, hflat]
      · rw [Grove.under_cons_of_mem_below hnodup hr]
        exact ihb hb (by omega) hnb hr
      · rw [Grove.under_cons_of_mem_beside hnodup hr]
        exact ihs hs (by omega) hns hr

/-- The subtree of a node of trees that stand. -/
theorem subtree_eq {g : Grove NodeRef} {pp : Option NodeRef} {r : NodeRef} (hg : f.Holds pp g)
    (hn : g.toList.Nodup) (hr : r ∈ g.toList) : f.subtree r = g.under r := by
  have hle : g.height ≤ f.depthBound := Nat.le_succ_of_le (height_le_size hg hn)
  obtain ⟨ds, hds, hunder⟩ := descendantsFrom_under hg hle hn hr
  rw [subtree, descendants, hds, hunder]
  rfl

/-- The subtree of a node is the node and the subtrees of its children. -/
theorem under_eq_cons_flatMap {g : Grove NodeRef} {pp : Option NodeRef} {r : NodeRef}
    (hg : f.Holds pp g) (hn : g.toList.Nodup) (hpp : pp ≠ some r) (hr : r ∈ g.toList) :
    g.under r = r :: (f.children r).flatMap g.under := by
  induction g generalizing pp with
  | nil => exact absurd hr List.not_mem_nil
  | cons c b s ihb ihs =>
      obtain ⟨hc, hb, hs⟩ := hg
      obtain ⟨hcb, -, hnb, hns, -⟩ := Grove.nodup_cons.mp hn
      rw [Grove.toList_cons, List.mem_cons, List.mem_append] at hr
      rcases hr with rfl | hr | hr
      · have hroots : b.roots.flatMap (Grove.cons r b s).under = b.roots.flatMap b.under := by
          refine List.flatMap_congr fun a ha => ?_
          exact Grove.under_cons_of_mem_below hn (Grove.mem_toList_of_mem_roots ha)
        rw [Grove.under_cons_self, hc.children, hroots, Grove.flatMap_under_roots hnb]
      · have hcr : some c ≠ some r := fun e => hcb (Option.some.inj e ▸ hr)
        rw [Grove.under_cons_of_mem_below hn hr, ihb hb hnb hcr hr]
        refine congrArg (r :: ·) (List.flatMap_congr fun a ha => ?_)
        have hmem := (parent_of_mem_children hb hnb hcr hr ha).1
        exact (Grove.under_cons_of_mem_below hn hmem).symm
      · rw [Grove.under_cons_of_mem_beside hn hr, ihs hs hns hpp hr]
        refine congrArg (r :: ·) (List.flatMap_congr fun a ha => ?_)
        have hmem := (parent_of_mem_children hs hns hpp hr ha).1
        exact (Grove.under_cons_of_mem_beside hn hmem).symm

/-! ## Identifiers -/

theorem idText?_eq (r : NodeRef) : f.idText? r = (f.bare? r).map fun n => n.id.render := by
  rw [idText?, bare?, Option.map_map]
  rfl

theorem idText?_congr {r : NodeRef} (hr : f'.bare? r = f.bare? r) :
    f'.idText? r = f.idText? r := by
  rw [idText?_eq, idText?_eq, hr]

theorem identifier?_eq (r : NodeRef) :
    f.identifier? r
      = (f.bare? r).map fun n => n.identifier ((f.parent? r).bind f.idText?) := by
  rw [bare?, parent?]
  cases hr : f.node? r with
  | none =>
      rw [identifier?, hr]
      rfl
  | some n =>
      obtain ⟨i, hi, hid, hpar, -⟩ := identifier?_of_node? hr
      rw [identifier?, hr] at hi ⊢
      show some _ = some _
      congr 1
      show Identifier.mk _ _ _ _ _ _ = Identifier.mk _ _ _ _ _ _
      congr 1
      show (n.parent.bind f.node?).map (fun p => p.id.render) = n.parent.bind f.idText?
      cases n.parent <;> rfl

/-- The identifier of a node depends on what it is and on the id of its parent. -/
theorem identifier?_congr {r : NodeRef} (hr : f'.bare? r = f.bare? r)
    (hp : (f'.parent? r).bind f'.idText? = (f.parent? r).bind f.idText?) :
    f'.identifier? r = f.identifier? r := by
  rw [identifier?_eq, identifier?_eq, hr, hp]

theorem identifier?_of_root {r : NodeRef} (hr : f'.bare? r = f.bare? r)
    (hp : f.parent? r = none) (hp' : f'.parent? r = none) : f'.identifier? r = f.identifier? r := by
  refine identifier?_congr hr ?_
  rw [hp, hp']
  rfl

/-! ## Keeping some nodes -/

section

variable {g : Grove NodeRef} {p : NodeRef → Bool} {pp pp' : Option NodeRef} {r : NodeRef}

theorem children_keep (hg : f.Holds pp g) (hn : g.toList.Nodup) (hg' : f'.Holds pp' (g.keep p))
    (hr : r ∈ (g.keep p).toList) : f'.children r = (f.children r).filter p := by
  induction g generalizing pp pp' with
  | nil => exact absurd hr List.not_mem_nil
  | cons c b s ihb ihs =>
      obtain ⟨hc, hb, hs⟩ := hg
      obtain ⟨-, -, hnb, hns, -⟩ := Grove.nodup_cons.mp hn
      rw [Grove.keep] at hg' hr
      cases hpc : p c with
      | false =>
          rw [hpc, if_neg Bool.false_ne_true] at hg' hr
          exact ihs hs hns hg' hr
      | true =>
          rw [hpc, if_pos rfl] at hg' hr
          obtain ⟨hc', hb', hs'⟩ := hg'
          rw [Grove.toList_cons, List.mem_cons, List.mem_append] at hr
          rcases hr with rfl | hr | hr
          · rw [hc'.children, hc.children, Grove.roots_keep]
          · exact ihb hb hnb hb' hr
          · exact ihs hs hns hs' hr

theorem identifiers_keep (hg : f.Holds pp g) (hg' : f'.Holds pp' (g.keep p))
    (hbare : ∀ x ∈ (g.keep p).toList, f'.bare? x = f.bare? x)
    (hpp : pp'.bind f'.idText? = pp.bind f.idText?) :
    f'.identifiers (g.keep p).toList = f.identifiers (g.keep p).toList := by
  induction g generalizing pp pp' with
  | nil => rfl
  | cons c b s ihb ihs =>
      obtain ⟨hc, hb, hs⟩ := hg
      rw [Grove.keep] at hg' hbare ⊢
      cases hpc : p c with
      | false =>
          rw [hpc, if_neg Bool.false_ne_true] at hg' hbare
          rw [if_neg Bool.false_ne_true]
          exact ihs hs hg' hbare hpp
      | true =>
          rw [hpc, if_pos rfl] at hg' hbare
          obtain ⟨hc', hb', hs'⟩ := hg'
          have hbare_c := hbare c (by simp)
          have hid : f'.identifier? c = f.identifier? c := by
            refine identifier?_congr hbare_c ?_
            rw [hc'.parent, hc.parent, hpp]
          have hidc : (some c).bind f'.idText? = (some c).bind f.idText? := by
            show f'.idText? c = f.idText? c
            exact idText?_congr hbare_c
          have ihb' := ihb hb hb' (fun x hx => hbare x (by simp [hx])) hidc
          have ihs' := ihs hs hs' (fun x hx => hbare x (by simp [hx])) hpp
          rw [if_pos rfl, Grove.toList_cons]
          simp only [identifiers, List.filterMap_cons, List.filterMap_append] at ihb' ihs' ⊢
          rw [hid, ihb', ihs']

end

/-! ## The descendants a plan tells -/

theorem exists_identifier {g : Grove NodeRef} {pp : Option NodeRef} {r : NodeRef}
    (hg : f.Holds pp g) (hr : r ∈ g.toList) :
    ∃ i, f.identifier? r = some i ∧ f.idText? r = some i.id := by
  obtain ⟨n, hn⟩ := exists_node_of_holds hg hr
  obtain ⟨i, hi, -⟩ := identifier?_of_node? hn
  exact ⟨i, hi, (id_of_identifier? hi).1⟩

theorem length_identifiers {g : Grove NodeRef} {pp : Option NodeRef} (hg : f.Holds pp g) :
    (f.identifiers g.toList).length = g.toList.length := by
  refine List.filterMap_length_eq_length.mpr ?_
  intro r hr
  obtain ⟨i, hi, -⟩ := exists_identifier hg hr
  rw [hi]
  rfl

end Forest

namespace TestPlan

variable {plan : TestPlan} {f : Forest} {g : Grove NodeRef}

/-- Going down a plan from the id of a node reaches the identifiers of the nodes below it, step by
    step as going down the forest does. -/
theorem Indexes.descendantsFrom (h : plan.Indexes f g) (hg : f.Holds none g)
    (hn : g.toList.Nodup) (n : Nat) {r : NodeRef} {t : String} (hr : r ∈ g.toList)
    (ht : f.idText? r = some t) :
    plan.descendantsFrom n t = (f.descendantsFrom n r).map f.identifiers := by
  induction n generalizing r t with
  | zero => rfl
  | succ n ih =>
      have hloop : ∀ cs : List NodeRef, (∀ c ∈ cs, c ∈ g.toList) →
          ((f.identifiers cs).mapM fun i => do return i :: (← plan.descendantsFrom n i.id))
            = (cs.mapM fun c => do return c :: (← f.descendantsFrom n c)).map
                (List.map f.identifiers) := by
        intro cs hcs
        induction cs with
        | nil => rfl
        | cons c cs ihc =>
            obtain ⟨i, hi, hid⟩ := Forest.exists_identifier hg (hcs c (by simp))
            rw [Forest.identifiers_cons hi, List.mapM_cons, List.mapM_cons,
              ihc fun d hd => hcs d (by simp [hd]), ih (hcs c (by simp)) hid]
            cases f.descendantsFrom n c with
            | error e => rfl
            | ok ds =>
                cases cs.mapM fun c => do return c :: (← f.descendantsFrom n c) with
                | error e => rfl
                | ok below =>
                    show Except.ok ((i :: f.identifiers ds) :: below.map f.identifiers)
                      = .ok (f.identifiers (c :: ds) :: below.map f.identifiers)
                    rw [Forest.identifiers_cons hi]
      have hpp : (none : Option NodeRef) ≠ some r := fun e => by cases e
      rw [TestPlan.descendantsFrom, Forest.descendantsFrom, h.childrenOf hg hn hr ht,
        hloop _ fun c hc => (Forest.parent_of_mem_children hg hn hpp hr hc).1]
      cases (f.children r).mapM fun c => do return c :: (← f.descendantsFrom n c) with
      | error e => rfl
      | ok below => exact congrArg Except.ok List.filterMap_flatten.symm

/-- The descendants a plan tells are the nodes of the subtree, in pre-order. -/
theorem Indexes.descendantsOf (h : plan.Indexes f g) (hg : f.Holds none g) (hn : g.toList.Nodup)
    {r : NodeRef} {i : Identifier} {ds : List NodeRef} (hi : f.identifier? r = some i)
    (hr : r ∈ g.toList) (hunder : g.under r = r :: ds) :
    plan.descendantsOf i = .ok (f.identifiers ds) := by
  have hsize : plan.size = g.toList.length := by
    rw [TestPlan.size, OrderedMap.size, h.lists.identifiers, List.length_map,
      Forest.length_identifiers hg]
  have hdeep : g.height ≤ plan.size + 2 := by
    have hle := g.height_le_length
    omega
  obtain ⟨ds', hds, hunder'⟩ := Forest.descendantsFrom_under hg hdeep hn hr
  rw [hunder] at hunder'
  cases hunder'
  rw [TestPlan.descendantsOf, h.descendantsFrom hg hn _ hr (Forest.id_of_identifier? hi).1, hds]
  rfl

end TestPlan

end TestLauncher
