import TestLauncher.Forest.Growth
import TestLauncher.Proofs.Grove
import Mathlib.Data.List.Perm.Subperm

/-! # Trees that stand in a forest

    A forest holds a grove below a node when its links spell the grove out: every root of
    the grove has that node as its parent, every node keeps exactly the roots of what
    stands below it as its children, in order and each under its own id, and so on
    downwards.  What a forest holds depends on the nodes of the grove alone
    (`holds_congr`), and the three edits that matter are described node by node: a node
    without links is added, put below another, and, when it has no children, taken away
    again. -/

namespace TestLauncher

/-- The node without its links. -/
def Node.bare (n : Node) : Node := { n with parent := none, children := ∅ }

/-- A node that is made is what was described. -/
theorem Node.make_eq_ok {id : UniqueId} {name : String} {kind : NodeKind} {tags : StringSet}
    {source : Option String} {n : Node} (h : Node.make (some id) name kind tags source = .ok n) :
    n = { id, name, kind, tags, source } := by
  rw [Node.make] at h
  split at h
  · cases h
  · cases h
    rfl

namespace Forest

variable {f f' : Forest}

/-- What a node is, without its links. -/
def bare? (f : Forest) (r : NodeRef) : Option Node := (f.node? r).map Node.bare

/-- A node has the given parent and the given children, each child under its own id. -/
def Stands (f : Forest) (r : NodeRef) (p : Option NodeRef) (cs : List NodeRef) : Prop :=
  ∃ n, f.node? r = some n ∧ n.parent = p ∧ n.children.values = cs ∧
    ∀ e ∈ n.children.toList, (f.node? e.2).map Node.id = some e.1

/-- The links of the forest spell out a grove whose roots have the given parent. -/
def Holds (f : Forest) (p : Option NodeRef) : Grove NodeRef → Prop
  | .nil => True
  | .cons r below beside =>
      f.Stands r p below.roots ∧ f.Holds (some r) below ∧ f.Holds p beside

theorem holds_cons {p : Option NodeRef} {r : NodeRef} {b s : Grove NodeRef} :
    f.Holds p (.cons r b s) ↔ f.Stands r p b.roots ∧ f.Holds (some r) b ∧ f.Holds p s := Iff.rfl

/-- A forest holds two groves side by side when it holds each. -/
theorem holds_append {p : Option NodeRef} {g h : Grove NodeRef} :
    f.Holds p (g ++ h) ↔ f.Holds p g ∧ f.Holds p h := by
  induction g with
  | nil => exact ⟨fun hh => ⟨trivial, hh⟩, fun hh => hh.2⟩
  | cons r b s _ ihs =>
      rw [Grove.cons_append, holds_cons, holds_cons, ihs]
      constructor
      · rintro ⟨hr, hb, hs, hh⟩
        exact ⟨⟨hr, hb, hs⟩, hh⟩
      · rintro ⟨⟨hr, hb, hs⟩, hh⟩
        exact ⟨hr, hb, hs, hh⟩

/-- A forest holds a tree when its root stands there and what is below the root is held. -/
theorem holds_tree {p : Option NodeRef} {r : NodeRef} {b : Grove NodeRef} :
    f.Holds p (.tree r b) ↔ f.Stands r p b.roots ∧ f.Holds (some r) b := by
  rw [Grove.tree, holds_cons]
  constructor
  · rintro ⟨hr, hb, -⟩
    exact ⟨hr, hb⟩
  · rintro ⟨hr, hb⟩
    exact ⟨hr, hb, trivial⟩

/-- A forest holds single trees when each of them stands without children. -/
theorem holds_leaves {p : Option NodeRef} {rs : List NodeRef} :
    f.Holds p (.leaves rs) ↔ ∀ r ∈ rs, f.Stands r p [] := by
  induction rs with
  | nil => exact ⟨fun _ r hr => absurd hr List.not_mem_nil, fun _ => trivial⟩
  | cons r rs ih =>
      rw [Grove.leaves, holds_cons, ih, List.forall_mem_cons]
      constructor
      · rintro ⟨hr, -, hrs⟩
        exact ⟨hr, hrs⟩
      · rintro ⟨hr, hrs⟩
        exact ⟨hr, trivial, hrs⟩

/-- The children of a node that stands are those it stands with. -/
theorem Stands.children {r : NodeRef} {p : Option NodeRef} {cs : List NodeRef}
    (h : f.Stands r p cs) : f.children r = cs := by
  obtain ⟨n, hn, -, hc, -⟩ := h
  rw [Forest.children, hn]
  exact hc

/-- The parent of a node that stands is the one it stands under. -/
theorem Stands.parent {r : NodeRef} {p : Option NodeRef} {cs : List NodeRef}
    (h : f.Stands r p cs) : f.parent? r = p := by
  obtain ⟨n, hn, hp, -, -⟩ := h
  rw [Forest.parent?, hn]
  exact hp

/-- The roots of a grove have the parent under which the grove is held. -/
theorem parent_of_mem_roots {p : Option NodeRef} {g : Grove NodeRef} {r : NodeRef}
    (hg : f.Holds p g) (hr : r ∈ g.roots) : f.parent? r = p := by
  induction g with
  | nil => exact absurd hr List.not_mem_nil
  | cons a b s _ ihs =>
      obtain ⟨ha, -, hs⟩ := hg
      rcases List.mem_cons.mp hr with rfl | hr
      · exact ha.parent
      · exact ihs hs hr

/-- A node that stands is there. -/
theorem Stands.exists_node {r : NodeRef} {p : Option NodeRef} {cs : List NodeRef}
    (h : f.Stands r p cs) : ∃ n, f.node? r = some n ∧ n.parent = p ∧ n.children.values = cs := by
  obtain ⟨n, hn, hp, hc, -⟩ := h
  exact ⟨n, hn, hp, hc⟩

/-- The same node is the same without its links. -/
theorem bare?_congr {r : NodeRef} (h : f'.node? r = f.node? r) : f'.bare? r = f.bare? r := by
  rw [bare?, bare?, h]

/-- Nodes that are the same without their links have one id. -/
theorem map_id_of_bare? {r : NodeRef} (h : f'.bare? r = f.bare? r) :
    (f'.node? r).map Node.id = (f.node? r).map Node.id := by
  have := congrArg (Option.map Node.id) h
  rw [bare?, bare?, Option.map_map, Option.map_map] at this
  exact this

/-- Nodes that are the same without their links are tests alike. -/
theorem isTest_congr {r : NodeRef} (h : f'.bare? r = f.bare? r) : f'.isTest r = f.isTest r := by
  have hbare : ∀ f : Forest, f.isTest r = (f.bare? r).any fun n => n.kind.isTest := by
    intro f
    rw [isTest, bare?]
    cases f.node? r <;> rfl
  rw [hbare, hbare, h]

/-- A node stands as it did when neither it nor what its children are has changed. -/
theorem Stands.congr {r : NodeRef} {p : Option NodeRef} {cs : List NodeRef}
    (h : f.Stands r p cs) (hr : f'.node? r = f.node? r)
    (hcs : ∀ c ∈ cs, f'.bare? c = f.bare? c) : f'.Stands r p cs := by
  obtain ⟨n, hn, hp, hc, hk⟩ := h
  refine ⟨n, hr.trans hn, hp, hc, ?_⟩
  intro e he
  have hmem : e.2 ∈ cs := hc ▸ List.mem_map_of_mem he
  rw [map_id_of_bare? (hcs e.2 hmem)]
  exact hk e he

/-- What a forest holds depends on the nodes of the grove alone. -/
theorem holds_congr {p : Option NodeRef} {g : Grove NodeRef}
    (h : ∀ r ∈ g.toList, f'.node? r = f.node? r) (hg : f.Holds p g) : f'.Holds p g := by
  induction g generalizing p with
  | nil => trivial
  | cons r b s ihb ihs =>
      obtain ⟨hr, hb, hs⟩ := hg
      refine ⟨hr.congr (h r (by simp)) ?_, ihb (fun x hx => h x (by simp [hx])) hb,
        ihs (fun x hx => h x (by simp [hx])) hs⟩
      intro c hc
      exact bare?_congr (h c (by simp [Grove.mem_toList_of_mem_roots hc]))

/-- The nodes of a grove that is held are there. -/
theorem exists_node_of_holds {p : Option NodeRef} {g : Grove NodeRef} {r : NodeRef}
    (hg : f.Holds p g) (hr : r ∈ g.toList) : ∃ n, f.node? r = some n := by
  induction g generalizing p with
  | nil => simp at hr
  | cons a b s ihb ihs =>
      obtain ⟨ha, hb, hs⟩ := hg
      simp only [Grove.toList_cons, List.mem_cons, List.mem_append] at hr
      rcases hr with rfl | hr | hr
      · obtain ⟨n, hn, -⟩ := ha
        exact ⟨n, hn⟩
      · exact ihb hb hr
      · exact ihs hs hr

/-- The nodes of a grove that is held are among those of the forest. -/
theorem index_lt_of_holds {p : Option NodeRef} {g : Grove NodeRef} {r : NodeRef}
    (hg : f.Holds p g) (hr : r ∈ g.toList) : r.index < f.size := by
  obtain ⟨n, hn⟩ := exists_node_of_holds hg hr
  rw [← node?_isSome_iff, hn]
  rfl

/-- Every node of a grove below a node has a parent. -/
theorem exists_parent {q : NodeRef} {m : Node} {g : Grove NodeRef} {r : NodeRef}
    (hg : f.Holds (some q) g) (hq : f.bare? q = some m) (hr : r ∈ g.toList) :
    ∃ p n, f.parent? r = some p ∧ f.bare? p = some n := by
  induction g generalizing q m with
  | nil => exact absurd hr List.not_mem_nil
  | cons c b s ihb ihs =>
      obtain ⟨hc, hb, hs⟩ := hg
      rw [Grove.toList_cons, List.mem_cons, List.mem_append] at hr
      rcases hr with rfl | hr | hr
      · exact ⟨q, m, hc.parent, hq⟩
      · obtain ⟨n, hn, -⟩ := hc.exists_node
        exact ihb hb (m := n.bare) (by rw [bare?, hn]; rfl) hr
      · exact ihs hs hq hr

/-- There are no more different nodes than the forest has. -/
theorem length_le_size {rs : List NodeRef} (hn : rs.Nodup) (h : ∀ r ∈ rs, r.index < f.size) :
    rs.length ≤ f.size := by
  have hinj : (rs.map NodeRef.index).Nodup := by
    refine hn.map ?_
    rintro ⟨i⟩ ⟨j⟩ (rfl : i = j)
    rfl
  have hsub : rs.map NodeRef.index ⊆ List.range f.size := by
    intro i hi
    obtain ⟨r, hr, rfl⟩ := List.mem_map.mp hi
    exact List.mem_range.mpr (h r hr)
  have hlen := (List.subperm_of_subset hinj hsub).length_le
  rwa [List.length_map, List.length_range] at hlen

/-- A forest has no more levels than nodes. -/
theorem height_le_size {p : Option NodeRef} {g : Grove NodeRef} (hg : f.Holds p g)
    (hn : g.toList.Nodup) : g.height ≤ f.size :=
  Nat.le_trans g.height_le_length (length_le_size hn fun _ hr => index_lt_of_holds hg hr)

/-! ## More nodes -/

/-- Every node is still what and where it was; there may be more of them. -/
def Extends (f f' : Forest) : Prop := ∀ r n, f.node? r = some n → f'.node? r = some n

/-- An extension leaves every old node as it is. -/
theorem Extends.node? {r : NodeRef} (h : f.Extends f') (hr : r.index < f.size) :
    f'.node? r = f.node? r := by
  obtain ⟨n, hn⟩ := Option.isSome_iff_exists.mp ((f.node?_isSome_iff r).mpr hr)
  rw [hn, h r n hn]

/-- An extension has no fewer nodes. -/
theorem Extends.size (h : f.Extends f') : f.size ≤ f'.size := by
  cases hs : f.size with
  | zero => exact Nat.zero_le _
  | succ n =>
      have hlt : (NodeRef.mk n).index < f.size := by
        rw [hs]
        exact Nat.lt_succ_self n
      have hsome := (f.node?_isSome_iff ⟨n⟩).mpr hlt
      rw [← h.node? hlt, node?_isSome_iff] at hsome
      exact hsome

/-- What a forest holds its extensions hold. -/
theorem Extends.holds {g : Grove NodeRef} {pp : Option NodeRef} (h : f.Extends f')
    (hg : f.Holds pp g) : f'.Holds pp g :=
  holds_congr (fun _ hr => h.node? (index_lt_of_holds hg hr)) hg

/-- One more node makes an extension. -/
theorem extends_add (f : Forest) (n : Node) : f.Extends (f.add n).2 := by
  intro r m hr
  have hlt := (f.node?_isSome_iff r).mp (by rw [hr]; rfl)
  rw [node?_add, if_neg, hr]
  rintro rfl
  exact Nat.lt_irrefl _ hlt

/-- A node without links stands alone where it is added. -/
theorem stands_add {n : Node} (hp : n.parent = none) (hc : n.children.values = []) :
    (f.add n).2.Stands (f.add n).1 none [] := by
  refine ⟨n, by rw [node?_add, if_pos rfl], hp, hc, fun e he => ?_⟩
  have hmem := List.mem_map_of_mem (f := Prod.snd) he
  rw [← OrderedMap.values, hc] at hmem
  exact absurd hmem List.not_mem_nil

/-! ## Putting a node below another -/

/-- Every node is as it was, except that one got a parent and that parent one more child. -/
structure Grafted (f f' : Forest) (p c : NodeRef) : Prop where
  child : f'.node? c = (f.node? c).map fun n => { n with parent := some p }
  parent : ∀ n, f.node? c = some n →
    f'.node? p = (f.node? p).map fun q => { q with children := q.children.insert n.id c }
  frame : ∀ x, x ≠ c → x ≠ p → f'.node? x = f.node? x

/-- A node without a parent goes below another unless its id is taken there. -/
theorem addChild_free {p c : NodeRef} {n q : Node} (hc : f.node? c = some n)
    (hn : n.parent = none) (hp : f.node? p = some q) (hcp : c ≠ p)
    (hfree : q.children.get? n.id = none) :
    ∃ f', f.addChild p (some c) = .ok f' ∧ f.Grafted f' p c := by
  let f₁ := f.modify c fun n => { n with parent := some p }
  let f₂ := f₁.modify p fun q => { q with children := q.children.insert n.id c }
  have hnode : ∀ x, f₂.node? x
      = if p = x then (f.node? x).map fun q => { q with children := q.children.insert n.id c }
        else if c = x then (f.node? x).map fun n => { n with parent := some p }
        else f.node? x := by
    intro x
    show ((f.modify c _).modify p _).node? x = _
    rw [node?_modify, node?_modify]
    by_cases hx : p = x
    · subst hx
      rw [if_pos rfl, if_pos rfl, if_neg hcp]
    · rw [if_neg hx, if_neg hx]
  refine ⟨f₂, ?_, ?_, ?_, ?_⟩
  · rw [addChild, if_neg hcp, hp, hc]
    simp only [hfree, Option.any_none, Bool.false_eq_true, if_false, hn]
    rfl
  · rw [hnode, if_neg (Ne.symm hcp), if_pos rfl]
  · intro m hm
    rw [hc] at hm
    cases hm
    rw [hnode, if_pos rfl]
  · intro x hxc hxp
    rw [hnode, if_neg (Ne.symm hxp), if_neg (Ne.symm hxc)]

/-- A node whose id another child has is refused. -/
theorem addChild_taken {p c d : NodeRef} {n q : Node} (hc : f.node? c = some n)
    (hp : f.node? p = some q) (hcp : c ≠ p) (htaken : q.children.get? n.id = some d) (hd : d ≠ c) :
    f.addChild p (some c) = refuse (.sharedChildId q.id.render n.id.render) := by
  rw [addChild, if_neg hcp, hp, hc]
  simp [htaken, hd]

/-- Attaching adds a child, or fails and leaves the forest. -/
theorem on_attach (f : Forest) (p c : NodeRef) :
    (attach p c).on f =
      match f.addChild p (some c) with
      | .ok f' => (.ok (), f')
      | .error e => (.error e, f) := by
  rw [attach, Steps.on_bind_ok (Steps.on_get f)]
  cases f.addChild p (some c) <;> rfl

/-- Attaching that succeeds has added a child. -/
theorem addChild_of_attach {p c : NodeRef} (h : (attach p c).on f = (.ok (), f')) :
    f.addChild p (some c) = .ok f' := by
  rw [on_attach] at h
  cases hadd : f.addChild p (some c) with
  | error e =>
      rw [hadd] at h
      cases h
  | ok g =>
      rw [hadd] at h
      cases h
      rfl

/-- Grafting changes nothing but links. -/
theorem Grafted.bare? {p c : NodeRef} (h : f.Grafted f' p c) (hc : ∃ n, f.node? c = some n)
    (x : NodeRef) : f'.bare? x = f.bare? x := by
  obtain ⟨n, hn⟩ := hc
  by_cases hx : x = p
  · rw [hx, Forest.bare?, h.parent n hn, Option.map_map]
    rfl
  · by_cases hxc : x = c
    · rw [hxc, Forest.bare?, h.child, Option.map_map]
      rfl
    · exact bare?_congr (h.frame x hxc hx)

/-- What was there before the two nodes is as it was. -/
theorem Grafted.extends {f₀ : Forest} {p c : NodeRef} (h : f.Grafted f' p c)
    (hf : f₀.Extends f) (hp : f₀.size ≤ p.index) (hc : f₀.size ≤ c.index) : f₀.Extends f' := by
  intro x n hx
  have hlt : x.index < f₀.size := (f₀.node?_isSome_iff x).mp (by rw [hx]; rfl)
  have hxp : x ≠ p := fun e => absurd hp (Nat.not_le_of_lt (e ▸ hlt))
  have hxc : x ≠ c := fun e => absurd hc (Nat.not_le_of_lt (e ▸ hlt))
  rw [h.frame x hxc hxp]
  exact hf x n hx

/-- A node that goes below another for the first time becomes the last of its children. -/
theorem addChild_new {p c : NodeRef} {pp : Option NodeRef} {cs : List NodeRef} {n : Node}
    (h : f.addChild p (some c) = .ok f') (hc : f.node? c = some n) (hn : n.parent = none)
    (hp : f.Stands p pp cs) (hcp : c ≠ p) (hcs : c ∉ cs) :
    f.Grafted f' p c ∧ f'.Stands p pp (cs ++ [c]) := by
  obtain ⟨q, hq, hqp, hqv, hqk⟩ := hp
  -- a child with this id would be refused
  have hfree : q.children.get? n.id = none := by
    cases hd : q.children.get? n.id with
    | none => rfl
    | some d =>
        have hmem : d ∈ cs := by
          have hentry := (q.children.get?_eq_some_iff n.id d).mp hd
          exact hqv ▸ List.mem_map_of_mem hentry
        have hdc : d ≠ c := fun e => hcs (e ▸ hmem)
        rw [addChild_taken hc hq hcp hd hdc] at h
        cases h
  obtain ⟨f'', hadd, hgraft⟩ := addChild_free hc hn hq hcp hfree
  rw [h] at hadd
  cases hadd
  have hnew : n.id ∉ q.children.keys := (OrderedMap.get?_eq_none_iff ..).mp hfree
  have hp' := hgraft.parent n hc
  rw [hq] at hp'
  refine ⟨hgraft, _, hp', hqp, ?_, ?_⟩
  · rw [OrderedMap.values, OrderedMap.toList_insert_of_not_mem hnew, List.map_append, ← hqv]
    rfl
  · intro e he
    rw [OrderedMap.toList_insert_of_not_mem hnew, List.mem_append, List.mem_singleton] at he
    rw [map_id_of_bare? (hgraft.bare? ⟨n, hc⟩ e.2)]
    rcases he with he | rfl
    · exact hqk e he
    · rw [hc]
      rfl

/-- A tree whose root goes below another node stands there. -/
theorem Grafted.holds {p c : NodeRef} {b : Grove NodeRef} (h : f.Grafted f' p c)
    (hg : f.Holds none (.tree c b)) (hn : (Grove.tree c b).toList.Nodup)
    (hp : p ∉ (Grove.tree c b).toList) : f'.Holds (some p) (.tree c b) := by
  rw [Grove.nodup_tree] at hn
  rw [Grove.mem_tree, not_or] at hp
  obtain ⟨hc, hb⟩ := holds_tree.mp hg
  obtain ⟨n, hcn, -, hcv, hck⟩ := hc
  have hc' := h.child
  rw [hcn] at hc'
  refine holds_tree.mpr ⟨⟨_, hc', rfl, hcv, ?_⟩, holds_congr ?_ hb⟩
  · intro e he
    rw [map_id_of_bare? (h.bare? ⟨n, hcn⟩ e.2)]
    exact hck e he
  · intro x hx
    refine h.frame x (fun e => hn.1 (e ▸ hx)) fun e => hp.2 (e ▸ hx)

/-! ## Raising a tree -/

/-- A tree of new nodes stands, the given node at its root, and what was there before is as it
    was. -/
structure Raised (f₀ f : Forest) (r : NodeRef) (n : Node) (b : Grove NodeRef) : Prop where
  leaves : f₀.Extends f
  root : f.bare? r = some n
  holds : f.Holds none (.tree r b)
  nodup : (Grove.tree r b).toList.Nodup
  fresh : ∀ x ∈ (Grove.tree r b).toList, f₀.size ≤ x.index

/-- A node that is planted is a tree of its own. -/
theorem raised_plant {id : UniqueId} {name : String} {kind : NodeKind} {tags : StringSet}
    {source : Option String} {r : NodeRef}
    (h : (plant (Node.make (some id) name kind tags source)).on f = (.ok r, f')) :
    f.Raised f' r { id, name, kind, tags, source } .nil := by
  cases hnode : Node.make (some id) name kind tags source with
  | error e =>
      rw [hnode] at h
      cases h
  | ok n =>
      rw [hnode] at h
      cases h
      have hn := Node.make_eq_ok hnode
      have hp : n.parent = none := by rw [hn]
      have hc : n.children.values = [] := by
        rw [hn]
        rfl
      refine ⟨extends_add f n, ?_, ⟨stands_add hp hc, trivial, trivial⟩,
        List.nodup_singleton _, ?_⟩
      · show ((f.add n).2.node? (f.add n).1).map Node.bare = _
        rw [node?_add, if_pos rfl, hn]
        rfl
      · intro x hx
        rw [List.mem_singleton.mp hx]
        exact Nat.le_refl _

/-- A root is a test when it was planted as one. -/
theorem Raised.isTest {f₀ : Forest} {r : NodeRef} {n : Node} {b : Grove NodeRef}
    (h : f₀.Raised f r n b) : f.isTest r = n.kind.isTest := by
  obtain ⟨m, hm, rfl⟩ := Option.map_eq_some_iff.mp h.root
  rw [Forest.isTest, hm]
  rfl

/-- What was raised later is newer than what was raised before. -/
theorem Raised.apart {f₀ f₁ : Forest} {p c : NodeRef} {n m : Node} {b d : Grove NodeRef}
    (hp : f₀.Raised f p n b) (hc : f.Raised f₁ c m d) :
    ∀ x ∈ (Grove.tree p b).toList, x ∉ (Grove.tree c d).toList := fun x hx hxc =>
  absurd (hc.fresh x hxc) (Nat.not_le_of_lt (index_lt_of_holds hp.holds hx))

/-- A tree that is attached to the root of another is grafted, behind what is there. -/
theorem Raised.grafted {f₀ f₁ : Forest} {p c : NodeRef} {n m : Node} {b d : Grove NodeRef}
    (hp : f₀.Raised f p n b) (hc : f.Raised f₁ c m d) (h : (attach p c).on f₁ = (.ok (), f')) :
    f₁.Grafted f' p c ∧ f'.Stands p none (b.roots ++ [c]) ∧ ∃ k, f₁.node? c = some k := by
  have hold := hp.apart hc
  have hpc : p ∉ (Grove.tree c d).toList := hold p (by simp)
  have hcp : c ≠ p := fun e => hpc (by simp [e])
  obtain ⟨k, hk, hkp, -⟩ := (holds_tree.mp hc.holds).1.exists_node
  have hcb : c ∉ b.toList := fun hmem => hold c (by simp [hmem]) (by simp)
  have hcroots : c ∉ b.roots := fun hmem => hcb (Grove.mem_toList_of_mem_roots hmem)
  obtain ⟨hgraft, hstands⟩ := addChild_new (addChild_of_attach h) hk hkp
    (holds_tree.mp (hc.leaves.holds hp.holds)).1 hcp hcroots
  exact ⟨hgraft, hstands, k, hk⟩

/-- A tree that was raised later goes below the root of one that was raised before. -/
theorem Raised.attach {f₀ f₁ : Forest} {p c : NodeRef} {n m : Node} {b d : Grove NodeRef}
    (hp : f₀.Raised f p n b) (hc : f.Raised f₁ c m d) (h : (attach p c).on f₁ = (.ok (), f')) :
    f₀.Raised f' p n (b ++ .tree c d) := by
  have hold := hp.apart hc
  have hpc : p ∉ (Grove.tree c d).toList := hold p (by simp)
  have hcb : c ∉ b.toList := fun hmem => hold c (by simp [hmem]) (by simp)
  obtain ⟨hgraft, hstands, hk⟩ := hp.grafted hc h
  have hn := Grove.nodup_tree.mp hp.nodup
  refine ⟨?_, ?_, ?_, ?_, ?_⟩
  · refine hgraft.extends (fun x y hx => hc.leaves x y (hp.leaves x y hx)) ?_ ?_
    · exact hp.fresh p (by simp)
    · exact Nat.le_trans hp.leaves.size (hc.fresh c (by simp))
  · rw [hgraft.bare? hk]
    have hlt := index_lt_of_holds hp.holds (r := p) (by simp)
    rw [bare?_congr (hc.leaves.node? hlt), hp.root]
  · refine holds_tree.mpr ⟨?_, holds_append.mpr ⟨?_, hgraft.holds hc.holds hc.nodup hpc⟩⟩
    · rw [Grove.roots_append]
      exact hstands
    · refine holds_congr (fun x hx => hgraft.frame x ?_ ?_)
        (holds_tree.mp (hc.leaves.holds hp.holds)).2
      · exact fun e => hcb (e ▸ hx)
      · exact fun e => hn.1 (e ▸ hx)
  · rw [Grove.toList_tree_append]
    exact List.nodup_append'.mpr ⟨hp.nodup, hc.nodup, fun x hx hxc => hold x hx hxc⟩
  · intro x hx
    rw [Grove.toList_tree_append, List.mem_append] at hx
    rcases hx with hx | hx
    · exact hp.fresh x hx
    · exact Nat.le_trans hp.leaves.size (hc.fresh x hx)

/-- There is nothing below the tests of some trees. -/
def Leafy (f : Forest) : Grove NodeRef → Prop
  | .nil => True
  | .cons r b s => (f.isTest r = true → b = .nil) ∧ f.Leafy b ∧ f.Leafy s

/-- Two groves side by side have tests as leaves only when each has. -/
theorem leafy_append {g h : Grove NodeRef} : f.Leafy (g ++ h) ↔ f.Leafy g ∧ f.Leafy h := by
  induction g with
  | nil => exact ⟨fun h => ⟨trivial, h⟩, And.right⟩
  | cons r b s _ ihs => rw [Grove.cons_append, Leafy, Leafy, ihs, and_assoc, and_assoc]

/-- Whether tests are leaves only does not depend on links. -/
theorem Leafy.congr {g : Grove NodeRef} (h : f.Leafy g)
    (hbare : ∀ r ∈ g.toList, f'.bare? r = f.bare? r) : f'.Leafy g := by
  induction g with
  | nil => exact trivial
  | cons r b s ihb ihs =>
      obtain ⟨hr, hb, hs⟩ := h
      refine ⟨?_, ihb hb fun x hx => hbare x (by simp [hx]),
        ihs hs fun x hx => hbare x (by simp [hx])⟩
      rw [isTest_congr (hbare r (by simp))]
      exact hr

/-- A test has no children in trees that stand. -/
theorem Leafy.children {g : Grove NodeRef} {pp : Option NodeRef} (h : f.Leafy g)
    (hg : f.Holds pp g) {r : NodeRef} (hr : r ∈ g.toList) (htest : f.isTest r = true) :
    f.children r = [] := by
  induction g generalizing pp with
  | nil => exact absurd hr List.not_mem_nil
  | cons c b s ihb ihs =>
      obtain ⟨hc, hb, hs⟩ := h
      obtain ⟨hstands, hgb, hgs⟩ := hg
      rw [Grove.toList_cons, List.mem_cons, List.mem_append] at hr
      rcases hr with rfl | hr | hr
      · rw [hstands.children, hc htest]
        rfl
      · exact ihb hb hgb hr
      · exact ihs hs hgs hr

/-- Attaching a tree leaves the tests as they are, below both roots. -/
theorem Raised.leafy_attach {f₀ f₁ : Forest} {p c : NodeRef} {n m : Node} {b d : Grove NodeRef}
    (hp : f₀.Raised f p n b) (hc : f.Raised f₁ c m d) (h : (Forest.attach p c).on f₁ = (.ok (), f'))
    (hb : f.Leafy b) (hd : f₁.Leafy (.tree c d)) : f'.Leafy (b ++ .tree c d) := by
  obtain ⟨hgraft, -, hk⟩ := hp.grafted hc h
  refine leafy_append.mpr ⟨hb.congr fun x hx => ?_, hd.congr fun x _ => hgraft.bare? hk x⟩
  have hlt := index_lt_of_holds hp.holds (r := x) (by simp [hx])
  rw [hgraft.bare? hk, bare?_congr (hc.leaves.node? hlt)]

/-! ## Taking a leaf away -/

/-- Uprooting detaches a node, or fails and leaves the forest. -/
theorem on_uproot (f : Forest) (r : NodeRef) :
    (uproot r).on f = match f.detach r with
      | .ok f' => (.ok (), f')
      | .error e => (.error e, f) := by
  rw [uproot, Steps.on_bind_ok (Steps.on_get f)]
  cases f.detach r <;> rfl

/-- Every node is as it was, except that one lost its parent and that parent one child. -/
structure Plucked (f f' : Forest) (r p : NodeRef) : Prop where
  leaf : f'.node? r = (f.node? r).map fun n => { n with parent := none }
  parent : ∀ n, f.node? r = some n →
    f'.node? p = (f.node? p).map fun q => { q with children := q.children.erase n.id }
  frame : ∀ x, x ≠ r → x ≠ p → f'.node? x = f.node? x

/-- Detaching a node without children touches the node and its parent only. -/
theorem detach_leaf {r p : NodeRef} {n q : Node} (hr : f.node? r = some n)
    (hp : n.parent = some p) (hc : n.children.values = []) (hq : f.node? p = some q)
    (hk : q.children.get? n.id = some r) (hrp : r ≠ p) :
    ∃ f', f.detach r = .ok f' ∧ f.Plucked f' r p := by
  have hchild : f.child? p n.id = some r := by
    rw [child?, hq]
    exact hk
  have hrem : f.removeChild p r
      = (f.modify p fun p => { p with children := p.children.erase n.id }).modify r
          fun n => { n with parent := none } := by
    rw [removeChild, hr]
    exact if_pos hchild
  have hnode : ∀ x, (f.removeChild p r).node? x
      = if r = x then (f.node? x).map fun n => { n with parent := none }
        else if p = x then (f.node? x).map fun q => { q with children := q.children.erase n.id }
        else f.node? x := by
    intro x
    rw [hrem, node?_modify, node?_modify]
    by_cases hx : r = x
    · subst hx
      rw [if_pos rfl, if_pos rfl, if_neg (Ne.symm hrp)]
    · rw [if_neg hx, if_neg hx]
  have hleaf : (f.removeChild p r).node? r
      = (f.node? r).map fun n => { n with parent := none } := by
    rw [hnode, if_pos rfl]
  -- there is nothing below the leaf to take away
  have hnone : (f.removeChild p r).children r = [] := by
    rw [children, hleaf, hr]
    exact hc
  refine ⟨f.removeChild p r, ?_, hleaf, ?_, ?_⟩
  · rw [detach, hr]
    simp only [hp, hnone, List.foldl_nil]
  · intro m hm
    rw [hr] at hm
    cases hm
    rw [hnode, if_neg hrp, if_pos rfl]
  · intro x hxr hxp
    rw [hnode, if_neg (Ne.symm hxr), if_neg (Ne.symm hxp)]

/-- Plucking changes nothing but links. -/
theorem Plucked.bare? {r p : NodeRef} (h : f.Plucked f' r p) (hr : ∃ n, f.node? r = some n)
    (x : NodeRef) : f'.bare? x = f.bare? x := by
  obtain ⟨n, hn⟩ := hr
  by_cases hx : x = r
  · rw [hx, Forest.bare?, h.leaf, Option.map_map]
    rfl
  · by_cases hp : x = p
    · rw [hp, Forest.bare?, h.parent n hn, Option.map_map]
      rfl
    · exact bare?_congr (h.frame x hx hp)

/-- The children that are left to a node when one of them is taken away. -/
theorem values_erase_child {q : Node} {r : NodeRef} {id : UniqueId} {pre post : List NodeRef}
    (hv : q.children.values = pre ++ r :: post)
    (hk : ∀ e ∈ q.children.toList, (f.node? e.2).map Node.id = some e.1)
    (hid : (f.node? r).map Node.id = some id) (hpre : r ∉ pre) (hpost : r ∉ post) :
    (q.children.erase id).values = pre ++ post := by
  have hkey : ∀ e ∈ q.children.toList, (decide (e.1 ≠ id)) = decide (e.2 ≠ r) := by
    intro e he
    refine decide_eq_decide.mpr (not_congr ⟨?_, ?_⟩)
    · intro h
      -- the entry of the child has the same key, and there is one entry for a key
      have hmem : r ∈ q.children.values := hv ▸ List.mem_append_right _ (List.mem_cons_self ..)
      obtain ⟨e', he', hr'⟩ := List.mem_map.mp hmem
      have hid' := hk e' he'
      rw [hr', hid] at hid'
      have h1 := (q.children.get?_eq_some_iff e.1 e.2).mpr he
      have h2 := (q.children.get?_eq_some_iff e'.1 e'.2).mpr he'
      rw [h, Option.some.inj hid', h2] at h1
      exact (Option.some.inj h1).symm.trans hr'
    · intro h
      have := hk e he
      rw [h, hid] at this
      exact (Option.some.inj this).symm
  rw [OrderedMap.values, OrderedMap.toList_erase, List.filter_congr hkey]
  have hmap : (q.children.toList.filter fun e => decide (e.2 ≠ r)).map Prod.snd
      = q.children.values.filter fun c => decide (c ≠ r) := by
    rw [OrderedMap.values, List.filter_map]
    rfl
  rw [hmap, hv, List.filter_append, List.filter_cons_of_neg (by simp)]
  congr 1
  · exact List.filter_eq_self.mpr fun c hc => decide_eq_true fun e => hpre (e ▸ hc)
  · exact List.filter_eq_self.mpr fun c hc => decide_eq_true fun e => hpost (e ▸ hc)

end Forest

end TestLauncher
