import TestLauncher.Proofs.Forest.Relocation

/-! # The two links of a node

    Every link of a forest is kept twice: a node knows its parent, and the parent keeps
    the node among its children, under the node's id.  `Linked` says in one equivalence
    that the two agree, and every call on nodes preserves it (`Linked.writes`), whatever
    the calls before it were and whether or not it is refused.

    A call makes its writes one by one, and a refusal between two of them would leave the
    first behind.  The writes of each call are spelled out (`Edit.writes`) and come to the
    same as the call (`Edit.on_writes`), so that what a refused call leaves is a statement about
    the order of its checks and its writes. -/

namespace TestLauncher.Forest

variable {f g : Forest} {p c o r x : NodeRef} {id k : UniqueId} {n q : Node}

/-- The id of a node. -/
def id? (f : Forest) (r : NodeRef) : Option UniqueId := (f.node? r).map Node.id

/-- A node that is there has its own id. -/
theorem id?_of_node? (h : f.node? r = some n) : f.id? r = some n.id := by
  rw [id?, h]
  rfl

/-- A node that is there has the parent it names. -/
theorem parent?_of_node? (h : f.node? r = some n) : f.parent? r = n.parent := by
  rw [parent?, h]
  rfl

/-- A node that is there has the children it lists. -/
theorem child?_of_node? (h : f.node? r = some n) (k : UniqueId) :
    f.child? r k = n.children.get? k := by
  rw [child?, h]
  rfl

/-- A child is kept under some id. -/
theorem mem_children_iff : c ∈ f.children p ↔ ∃ id, f.child? p id = some c := by
  cases hp : f.node? p with
  | none => simp [children, child?, hp]
  | some q =>
      simp only [children, hp, child?_of_node? hp, OrderedMap.get?_eq_some_iff]
      show c ∈ q.children.toList.map Prod.snd ↔ _
      simp

/-! ## Single writes -/

/-- Gives a node a parent, or none. -/
def setParent (f : Forest) (c : NodeRef) (p : Option NodeRef) : Forest :=
  f.modify c fun n => { n with parent := p }

/-- Keeps a node under an id among the children of another. -/
def keepChild (f : Forest) (p : NodeRef) (id : UniqueId) (c : NodeRef) : Forest :=
  f.modify p fun n => { n with children := n.children.insert id c }

/-- Keeps no node under an id among the children of another. -/
def dropChild (f : Forest) (p : NodeRef) (id : UniqueId) : Forest :=
  f.modify p fun n => { n with children := n.children.erase id }

section

variable {change : Node → Node}

/-- A change that leaves the id of its node leaves all ids. -/
theorem id?_modify (h : ∀ n, (change n).id = n.id) : (f.modify r change).id? x = f.id? x := by
  rw [id?, id?, node?_modify]
  split
  · rw [Option.map_map]
    exact congrArg (Option.map · (f.node? x)) (funext h)
  · rfl

/-- A change that leaves the parent of its node leaves all parents. -/
theorem parent?_modify (h : ∀ n, (change n).parent = n.parent) :
    (f.modify r change).parent? x = f.parent? x := by
  rw [parent?, parent?, node?_modify]
  split
  · rw [Option.bind_map]
    exact congrArg (Option.bind (f.node? x)) (funext h)
  · rfl

/-- A change that leaves the children of its node leaves them under every id. -/
theorem child?_modify (h : ∀ n, (change n).children = n.children) :
    (f.modify r change).child? x k = f.child? x k := by
  rw [child?, child?, node?_modify]
  split
  · rw [Option.bind_map]
    refine congrArg (Option.bind (f.node? x)) (funext fun n => ?_)
    rw [Function.comp_apply, h]
  · rfl

/-- A change that leaves the children of its node leaves all lists of children. -/
theorem children_modify (h : ∀ n, (change n).children = n.children) :
    (f.modify r change).children x = f.children x := by
  rw [children, node?_modify, children]
  by_cases hx : r = x
  · rw [if_pos hx]
    cases f.node? x with
    | none => rfl
    | some n => exact congrArg OrderedMap.values (h n)
  · rw [if_neg hx]

end

theorem id?_setParent {p : Option NodeRef} : (f.setParent c p).id? x = f.id? x :=
  id?_modify fun _ => rfl

theorem id?_keepChild : (f.keepChild p id c).id? x = f.id? x :=
  id?_modify fun _ => rfl

theorem id?_dropChild : (f.dropChild p id).id? x = f.id? x :=
  id?_modify fun _ => rfl

theorem parent?_keepChild : (f.keepChild p id c).parent? x = f.parent? x :=
  parent?_modify fun _ => rfl

theorem parent?_dropChild : (f.dropChild p id).parent? x = f.parent? x :=
  parent?_modify fun _ => rfl

theorem child?_setParent {p : Option NodeRef} : (f.setParent c p).child? x k = f.child? x k :=
  child?_modify fun _ => rfl

theorem children_setParent {p : Option NodeRef} : (f.setParent c p).children x = f.children x :=
  children_modify fun _ => rfl

/-- Setting a parent sets that one only. -/
theorem parent?_setParent {p : Option NodeRef} (hc : f.node? c = some n) :
    (f.setParent c p).parent? x = if x = c then p else f.parent? x := by
  rw [setParent, parent?, node?_modify]
  by_cases hx : x = c
  · subst hx
    rw [if_pos rfl, if_pos rfl, hc]
    rfl
  · rw [if_neg hx, if_neg (Ne.symm hx)]
    rfl

/-- Keeping a child keeps that one, under its id. -/
theorem child?_keepChild (hp : f.node? p = some q) :
    (f.keepChild p id c).child? x k = if x = p ∧ k = id then some c else f.child? x k := by
  rw [keepChild, child?, node?_modify]
  by_cases hx : x = p
  · subst hx
    rw [if_pos rfl, child?_of_node? hp, hp]
    show (q.children.insert id c).get? k = _
    simp [OrderedMap.get?_insert, eq_comm]
  · rw [if_neg (Ne.symm hx), if_neg fun h => hx h.1]
    rfl

/-- Dropping a child drops what is kept under that id only. -/
theorem child?_dropChild (hp : f.node? p = some q) :
    (f.dropChild p id).child? x k = if x = p ∧ k = id then none else f.child? x k := by
  rw [dropChild, child?, node?_modify]
  by_cases hx : x = p
  · subst hx
    rw [if_pos rfl, child?_of_node? hp, hp]
    show (q.children.erase id).get? k = _
    simp [OrderedMap.get?_erase, eq_comm]
  · rw [if_neg (Ne.symm hx), if_neg fun h => hx h.1]
    rfl

/-- A change leaves every node in place. -/
theorem exists_node_modify {change : Node → Node} (hp : f.node? p = some q) :
    ∃ q', (f.modify r change).node? p = some q' := by
  rw [node?_modify, hp]
  split
  · exact ⟨_, rfl⟩
  · exact ⟨_, rfl⟩

/-! ## Both links at once -/

/-- Cuts the two links between a node and its parent. -/
def unlink (f : Forest) (p c : NodeRef) (id : UniqueId) : Forest :=
  (f.dropChild p id).setParent c none

/-- A link is two writes, the parent first. -/
theorem link_eq : f.link p c id = (f.setParent c (some p)).keepChild p id c := rfl

/-- Linking leaves the ids. -/
theorem id?_link : (f.link p c id).id? x = f.id? x := by
  rw [link_eq, id?_keepChild, id?_setParent]

/-- Linking gives the child its parent. -/
theorem parent?_link (hc : f.node? c = some n) :
    (f.link p c id).parent? x = if x = c then some p else f.parent? x := by
  rw [link_eq, parent?_keepChild, parent?_setParent hc]

/-- Linking keeps the child under its id. -/
theorem child?_link (hp : f.node? p = some q) :
    (f.link p c id).child? x k = if x = p ∧ k = id then some c else f.child? x k := by
  obtain ⟨q', hq'⟩ : ∃ q', (f.setParent c (some p)).node? p = some q' := exists_node_modify hp
  rw [link_eq, child?_keepChild hq', child?_setParent]

/-- Unlinking leaves the ids. -/
theorem id?_unlink : (f.unlink p c id).id? x = f.id? x := by
  rw [unlink, id?_setParent, id?_dropChild]

/-- Unlinking takes the parent from the child. -/
theorem parent?_unlink (hc : f.node? c = some n) :
    (f.unlink p c id).parent? x = if x = c then none else f.parent? x := by
  obtain ⟨n', hn'⟩ : ∃ n', (f.dropChild p id).node? c = some n' := exists_node_modify hc
  rw [unlink, parent?_setParent hn', parent?_dropChild]

/-- Unlinking drops the child from its parent. -/
theorem child?_unlink (hp : f.node? p = some q) :
    (f.unlink p c id).child? x k = if x = p ∧ k = id then none else f.child? x k := by
  rw [unlink, child?_setParent, child?_dropChild hp]

/-! ## What a call does -/

/-- A child that is kept is unlinked when it is removed. -/
theorem removeChild_kept (hc : f.node? c = some n) (hkept : f.child? p n.id = some c) :
    f.removeChild p c = f.unlink p c n.id := by
  rw [removeChild, hc]
  exact if_pos hkept

/-- Taking away a child cuts the two links, if they were there. -/
theorem removeChild_cases (f : Forest) (p c : NodeRef) :
    f.removeChild p c = f ∨
      ∃ n, f.node? c = some n ∧ f.child? p n.id = some c ∧
        f.removeChild p c = f.unlink p c n.id := by
  cases hc : f.node? c with
  | none => exact Or.inl (by rw [removeChild, hc])
  | some n =>
      by_cases hkept : f.child? p n.id = some c
      · exact Or.inr ⟨n, rfl, hkept, removeChild_kept hc hkept⟩
      · exact Or.inl (by rw [removeChild, hc]; exact if_neg hkept)

/-- Putting a node under another makes the two links, once those to another parent are cut. -/
theorem addChild_cases {child : Option NodeRef} (h : f.addChild p child = .ok g) :
    g = f ∨
      ∃ c q n, child = some c ∧ c ≠ p ∧ f.node? p = some q ∧ f.node? c = some n ∧
        (∀ d, f.child? p n.id = some d → d = c) ∧
        ((n.parent = none ∨ n.parent = some p) ∧ g = f.link p c n.id ∨
          ∃ o, o ≠ p ∧ n.parent = some o ∧ g = (f.removeChild o c).link p c n.id) := by
  cases child with
  | none => cases h
  | some c =>
      rw [addChild] at h
      split at h
      · cases h
      · rename_i hcp
        split at h
        · rename_i q n hq hn
          split at h
          · cases h
          · rename_i hfree
            cases h
            refine Or.inr ⟨c, q, n, rfl, hcp, hq, hn, ?_, ?_⟩
            · intro d hd
              rw [child?_of_node? hq] at hd
              rw [hd] at hfree
              simpa using hfree
            · cases ho : n.parent with
              | none => exact Or.inl ⟨Or.inl rfl, rfl⟩
              | some o =>
                  by_cases hop : o = p
                  · subst hop
                    exact Or.inl ⟨Or.inr rfl, by rw [link]; simp only [if_true]⟩
                  · exact Or.inr ⟨o, hop, rfl, by rw [link]; simp only [if_neg hop]⟩
        · cases h
          exact Or.inl rfl

/-! ## Links that agree -/

/-- The two links agree: a node is kept under an id exactly where that is its id and its
parent.  No node is its own parent. -/
structure Linked (f : Forest) : Prop where
  kept_iff : ∀ p id c, f.child? p id = some c ↔ f.id? c = some id ∧ f.parent? c = some p
  apart : ∀ c, f.parent? c ≠ some c

/-- Where there are no nodes the links agree. -/
theorem linked_empty : Linked ∅ :=
  ⟨fun _ _ _ => by simp [child?, id?, parent?], fun _ => by simp [parent?]⟩

/-- A new node without a parent leaves all parents as they were. -/
theorem parent?_add (hp : n.parent = none) (x : NodeRef) :
    (f.add n).2.parent? x = f.parent? x := by
  have hnew : f.node? (f.add n).1 = none := Array.getElem?_size
  rw [parent?, node?_add]
  split
  · rename_i hx
    rw [parent?, hx, hnew]
    exact hp
  · rfl

/-- A node that arrives without links brings none. -/
theorem Linked.add (hf : f.Linked) (hp : n.parent = none) (hc : n.children = ∅) :
    (f.add n).2.Linked := by
  have hnew : f.node? (f.add n).1 = none := Array.getElem?_size
  have hparent := parent?_add (f := f) hp
  have hchild : ∀ x k, (f.add n).2.child? x k = f.child? x k := by
    intro x k
    rw [child?, node?_add]
    split
    · rename_i hx
      rw [child?, hx, hnew, Option.bind_some, hc]
      rfl
    · rfl
  constructor
  · intro p id c
    rw [hchild, hparent, hf.kept_iff]
    by_cases hx : c = (f.add n).1
    · have hnone : f.parent? c = none := by
        rw [parent?, hx, hnew]
        rfl
      simp [hnone]
    · rw [id?, id?, node?_add, if_neg hx]
  · intro c
    rw [hparent]
    exact hf.apart c

/-- Unlinking a child that is kept leaves links that agree. -/
theorem Linked.unlink (hf : f.Linked) (hc : f.node? c = some n)
    (hkept : f.child? p n.id = some c) : (f.unlink p c n.id).Linked := by
  obtain ⟨hid, hparent⟩ := (hf.kept_iff p n.id c).mp hkept
  obtain ⟨q, hq, -⟩ := Option.bind_eq_some_iff.mp hkept
  constructor
  · intro x k d
    rw [child?_unlink hq, id?_unlink, parent?_unlink hc]
    by_cases hd : d = c
    · subst hd
      rw [if_pos rfl]
      constructor
      · intro h
        split at h
        · cases h
        · -- the only place where it was kept is the one it is taken from
          rename_i hplace
          obtain ⟨hid', hparent'⟩ := (hf.kept_iff x k d).mp h
          have hk := Option.some.inj (hid'.symm.trans hid)
          have hx := Option.some.inj (hparent'.symm.trans hparent)
          exact absurd ⟨hx, hk⟩ hplace
      · rintro ⟨-, ⟨⟩⟩
    · rw [if_neg hd, ← hf.kept_iff]
      split
      · rename_i hplace
        rw [hplace.1, hplace.2, hkept]
        simp [Ne.symm hd]
      · rfl
  · intro d
    rw [parent?_unlink hc]
    split
    · exact nofun
    · exact hf.apart d

/-- Removing a child leaves links that agree, whether it is kept or not. -/
theorem Linked.removeChild (hf : f.Linked) (p c : NodeRef) : (f.removeChild p c).Linked := by
  rcases removeChild_cases f p c with h | ⟨n, hc, hkept, h⟩
  · rw [h]
    exact hf
  · rw [h]
    exact hf.unlink hc hkept

/-- A node without another parent can be linked to one where its id is free. -/
theorem Linked.link (hf : f.Linked) (hp : f.node? p = some q) (hid : f.id? c = some id)
    (hcp : c ≠ p) (hfree : ∀ d, f.child? p id = some d → d = c)
    (hold : ∀ o, f.parent? c = some o → o = p) : (f.link p c id).Linked := by
  obtain ⟨n, hc, -⟩ := Option.map_eq_some_iff.mp hid
  constructor
  · intro x k d
    rw [child?_link hp, id?_link, parent?_link hc]
    by_cases hd : d = c
    · subst hd
      rw [if_pos rfl, hid]
      constructor
      · intro h
        split at h
        · rename_i hplace
          exact ⟨congrArg some hplace.2.symm, congrArg some hplace.1.symm⟩
        · obtain ⟨hid', hparent⟩ := (hf.kept_iff x k d).mp h
          rw [hold x hparent]
          exact ⟨hid.symm.trans hid', rfl⟩
      · rintro ⟨⟨⟩, ⟨⟩⟩
        rw [if_pos ⟨rfl, rfl⟩]
    · rw [if_neg hd, ← hf.kept_iff]
      split
      · rename_i hplace
        rw [hplace.1, hplace.2]
        constructor
        · rintro ⟨⟩
          exact absurd rfl hd
        · intro h
          exact absurd (hfree d h) hd
      · rfl
  · intro d
    rw [parent?_link hc]
    split
    · rename_i hd
      rw [hd]
      exact fun h => hcp (Option.some.inj h).symm
    · exact hf.apart d

/-- Links agree after a child has been put under a node, wherever it was before. -/
theorem Linked.addChild {child : Option NodeRef} (hf : f.Linked)
    (h : f.addChild p child = .ok g) : g.Linked := by
  rcases addChild_cases h with rfl | ⟨c, q, n, -, hcp, hq, hn, hfree, hlink⟩
  · exact hf
  · rcases hlink with ⟨hold, rfl⟩ | ⟨o, hop, ho, rfl⟩
    · refine hf.link hq (id?_of_node? hn) hcp hfree ?_
      intro o ho
      rw [parent?_of_node? hn] at ho
      rcases hold with hold | hold
      · rw [hold] at ho
        cases ho
      · exact Option.some.inj (ho.symm.trans hold)
    · -- the former parent kept the node, so its links are cut before it gets new ones
      have hkept : f.child? o n.id = some c := by
        rw [hf.kept_iff, id?_of_node? hn, parent?_of_node? hn]
        exact ⟨rfl, ho⟩
      obtain ⟨q₀, hq₀, -⟩ := Option.bind_eq_some_iff.mp hkept
      obtain ⟨q₁, hq₁⟩ : ∃ q₁, (f.dropChild o n.id).node? p = some q₁ := exists_node_modify hq
      obtain ⟨q₂, hq₂⟩ : ∃ q₂, (f.unlink o c n.id).node? p = some q₂ := exists_node_modify hq₁
      rw [removeChild_kept hn hkept]
      refine (hf.unlink hn hkept).link hq₂ ?_ hcp ?_ ?_
      · rw [id?_unlink, id?_of_node? hn]
      · intro d hd
        rw [child?_unlink hq₀, if_neg fun e => hop e.1.symm] at hd
        exact hfree d hd
      · intro o' ho'
        rw [parent?_unlink hn, if_pos rfl] at ho'
        cases ho'

/-- Links agree after a node has been taken away from its parent and its children. -/
theorem Linked.detach (hf : f.Linked) (h : f.detach r = .ok g) : g.Linked := by
  have hfold : ∀ (cs : List NodeRef) (f : Forest), f.Linked →
      (cs.foldl (fun f c => f.removeChild r c) f).Linked := by
    intro cs
    induction cs with
    | nil => exact fun _ hf => hf
    | cons c cs ih => exact fun f hf => ih _ (hf.removeChild r c)
  rw [Forest.detach] at h
  split at h
  · cases h
    exact hf
  · split at h
    · cases h
    · cases h
      exact hfold _ _ (hf.removeChild _ r)

/-! ## What follows from links that agree -/

section

variable (hf : f.Linked)

include hf

/-- The children of a node are the nodes with it as their parent. -/
theorem Linked.mem_children_iff : c ∈ f.children p ↔ f.parent? c = some p := by
  rw [Forest.mem_children_iff]
  constructor
  · rintro ⟨id, hid⟩
    exact ((hf.kept_iff p id c).mp hid).2
  · intro hparent
    obtain ⟨n, hn, -⟩ := Option.bind_eq_some_iff.mp hparent
    exact ⟨n.id, (hf.kept_iff p n.id c).mpr ⟨id?_of_node? hn, hparent⟩⟩

/-- The ids of the children of a node are the keys under which it keeps them. -/
theorem Linked.map_id_children (hp : f.node? p = some q) :
    (f.children p).map f.id? = q.children.keys.map some := by
  rw [children, hp]
  show (q.children.toList.map Prod.snd).map f.id? = (q.children.toList.map Prod.fst).map some
  rw [List.map_map, List.map_map]
  refine List.map_congr_left fun e he => ?_
  have hkept : f.child? p e.1 = some e.2 := by
    rw [child?_of_node? hp]
    exact (q.children.get?_eq_some_iff ..).mpr he
  exact ((hf.kept_iff p e.1 e.2).mp hkept).1

/-- The children of a node have different ids. -/
theorem Linked.nodup_map_id_children (p : NodeRef) : ((f.children p).map f.id?).Nodup := by
  cases hp : f.node? p with
  | none =>
      rw [children, hp]
      exact List.nodup_nil
  | some q =>
      rw [hf.map_id_children hp]
      exact q.children.nodup.map fun _ _ => Option.some.inj

/-- A child stands once in the list of children, and under its own id only. -/
theorem Linked.kept_once (hc : c ∈ f.children p) :
    (f.children p).count c = 1 ∧ ∀ id, f.child? p id = some c ↔ f.id? c = some id := by
  constructor
  · exact List.count_eq_one_of_mem (List.Nodup.of_map _ (hf.nodup_map_id_children p)) hc
  · intro id
    rw [hf.kept_iff, and_iff_left (hf.mem_children_iff.mp hc)]

/-- Putting a node where it is changes nothing. -/
theorem Linked.addChild_child (hc : c ∈ f.children p) : f.addChild p (some c) = .ok f := by
  have hparent := hf.mem_children_iff.mp hc
  obtain ⟨n, hn, hnp⟩ := Option.bind_eq_some_iff.mp hparent
  have hkept := (hf.kept_iff p n.id c).mpr ⟨id?_of_node? hn, hparent⟩
  obtain ⟨q, hq, hqc⟩ := Option.bind_eq_some_iff.mp hkept
  have hcp : c ≠ p := by
    rintro rfl
    exact hf.apart c hparent
  have hlink : f.link p c n.id = f := by
    refine ext_node? fun x => ?_
    rw [Forest.link, node?_modify, node?_modify]
    by_cases hx : p = x
    · subst hx
      rw [if_pos rfl, if_neg hcp, hq, Option.map_some, OrderedMap.insert_of_get? hqc]
    · rw [if_neg hx]
      by_cases hxc : c = x
      · subst hxc
        rw [if_pos rfl, hn, Option.map_some, ← hnp]
      · rw [if_neg hxc]
  rw [Forest.addChild, if_neg hcp, hq, hn]
  simp only [hqc, Option.any_some, ne_eq, not_true_eq_false, decide_false, Bool.false_eq_true,
    if_false, hnp, if_true]
  exact congrArg Except.ok hlink

end

/-! ## Calls -/

/-- A call on nodes. -/
inductive Edit where
  /-- Builds a node. -/
  | build (id : Option UniqueId) (name : String) (kind : NodeKind) (tags : StringSet)
      (source : Option String)
  /-- Puts a node, if one is given, under another. -/
  | addChild (parent : NodeRef) (child : Option NodeRef)
  /-- Takes a node out of its place among the children of another. -/
  | removeChild (parent child : NodeRef)
  /-- Takes a node away from its parent, and its children away from it. -/
  | detach (r : NodeRef)

namespace Edit

/-- Changes the forest. -/
def change (write : Forest → Forest) : Growing Unit := do set (write (← get))

/-- Makes the call. -/
def perform : Edit → Growing Unit
  | build id name kind tags source => discard (plant (Node.make id name kind tags source))
  | addChild p c => do set (← Steps.ofExcept ((← get).addChild p c))
  | removeChild p c => change fun f => f.removeChild p c
  | detach r => uproot r

/-- The forest after calls, each made whether or not those before it were refused. -/
def outcome (edits : List Edit) : Forest := edits.foldl (fun f e => (e.perform.on f).2) ∅

/-- The writes that take a node out of its place among the children of another. -/
def removeChildWrites (p c : NodeRef) : Growing Unit := do
  let f ← get
  match f.node? c with
  | none => return
  | some n =>
    if f.child? p n.id = some c then
      change fun f => f.dropChild p n.id
      change fun f => f.setParent c none

/-- The writes that take a node away from a parent it has, unless that is the one given. -/
def leaveWrites (p c : NodeRef) : Option NodeRef → Growing Unit
  | none => return
  | some o => if o = p then return else removeChildWrites o c

/-- The checks and writes that put a node under another. -/
def addChildWrites (p : NodeRef) : Option NodeRef → Growing Unit
  | none => throw (.refused .noChild)
  | some c =>
    if c = p then throw (.refused .ownChild)
    else do
      let f ← get
      match f.node? p, f.node? c with
      | some q, some n =>
        if (q.children.get? n.id).any (· ≠ c) then
          throw (.refused (.sharedChildId q.id.render n.id.render))
        else do
          leaveWrites p c n.parent
          change fun f => f.setParent c (some p)
          change fun f => f.keepChild p n.id c
      | _, _ => return

/-- The checks and writes that take a node away from its parent, and its children from it. -/
def detachWrites (r : NodeRef) : Growing Unit := do
  let f ← get
  match f.node? r with
  | none => return
  | some n =>
    match n.parent with
    | none => throw (.refused (.detachedRoot n.id.render))
    | some p =>
      removeChildWrites p r
      let f ← get
      (f.children r).forM fun c => removeChildWrites r c

/-- The checks and the single writes of a call, in order. -/
def writes : Edit → Growing Unit
  | build id name kind tags source => discard (plant (Node.make id name kind tags source))
  | addChild p c => addChildWrites p c
  | removeChild p c => removeChildWrites p c
  | detach r => detachWrites r

/-- Written one by one, the writes remove a child. -/
theorem on_removeChildWrites (p c : NodeRef) (f : Forest) :
    (removeChildWrites p c).on f = (.ok (), f.removeChild p c) := by
  rw [removeChildWrites, Steps.on_bind_ok (Steps.on_get f), Forest.removeChild]
  cases hc : f.node? c with
  | none => rfl
  | some n =>
      by_cases hkept : f.child? p n.id = some c
      · simp only [if_pos hkept]
        rfl
      · simp only [if_neg hkept]
        rfl

/-- How an operation ends that leaves the forest alone when it is refused. -/
def settle (f : Forest) : Except Fault Forest → Except Fault Unit × Forest
  | .ok g => (.ok (), g)
  | .error e => (.error e, f)

/-- Written one by one, the writes take a child away from its former parent, if that is another. -/
theorem on_leaveWrites (p c : NodeRef) (former : Option NodeRef) (f : Forest) :
    (leaveWrites p c former).on f =
      (.ok (), match former with
        | none => f
        | some o => if o = p then f else f.removeChild o c) := by
  cases former with
  | none => rfl
  | some o =>
      rw [leaveWrites]
      by_cases hop : o = p
      · rw [if_pos hop]
        simp only [if_pos hop]
        rfl
      · rw [if_neg hop]
        simp only [if_neg hop]
        exact on_removeChildWrites o c f

/-- Written one by one, the writes add a child, or none is made. -/
theorem on_addChildWrites (p : NodeRef) (c : Option NodeRef) (f : Forest) :
    (addChildWrites p c).on f = settle f (f.addChild p c) := by
  cases c with
  | none => rfl
  | some c =>
      rw [addChildWrites, Forest.addChild]
      by_cases hcp : c = p
      · rw [if_pos hcp, if_pos hcp]
        rfl
      · rw [if_neg hcp, if_neg hcp, Steps.on_bind_ok (Steps.on_get f)]
        cases f.node? p with
        | none => rfl
        | some q =>
            cases f.node? c with
            | none => rfl
            | some n =>
                by_cases htaken : (q.children.get? n.id).any (· ≠ c) = true
                · simp only [if_pos htaken]
                  rfl
                · simp only [if_neg htaken]
                  rw [Steps.on_bind_ok (on_leaveWrites p c n.parent f)]
                  rfl

/-- Written one by one, the writes take a node out, or none is made. -/
theorem on_detachWrites (r : NodeRef) (f : Forest) :
    (detachWrites r).on f = settle f (f.detach r) := by
  have hfold : ∀ (cs : List NodeRef) (f : Forest),
      (cs.forM fun c => removeChildWrites r c).on f =
        (.ok (), cs.foldl (fun f c => f.removeChild r c) f) := by
    intro cs
    induction cs with
    | nil => exact fun _ => rfl
    | cons c cs ih =>
        intro f
        show (removeChildWrites r c >>= fun _ => cs.forM fun c => removeChildWrites r c).on f = _
        rw [Steps.on_bind_ok (on_removeChildWrites r c f)]
        exact ih _
  rw [detachWrites, Steps.on_bind_ok (Steps.on_get f), Forest.detach]
  cases f.node? r with
  | none => rfl
  | some n =>
      cases hp : n.parent with
      | none => simp only [hp]; rfl
      | some p =>
          simp only [hp]
          rw [Steps.on_bind_ok (on_removeChildWrites p r f), Steps.on_bind_ok (Steps.on_get _)]
          exact hfold _ _

/-- The single writes of a call come to what the call does, refusals included. -/
theorem on_writes (e : Edit) (f : Forest) : e.writes.on f = e.perform.on f := by
  have hset : ∀ r : Except Fault Forest,
      (do set (← Steps.ofExcept r) : Growing Unit).on f = settle f r := by
    intro r
    cases r with
    | error e => rfl
    | ok g => rfl
  cases e with
  | build id name kind tags source => rfl
  | addChild p c =>
      rw [perform, Steps.on_bind_ok (Steps.on_get f), hset]
      exact on_addChildWrites p c f
  | removeChild p c => exact on_removeChildWrites p c f
  | detach r =>
      rw [perform, uproot, Steps.on_bind_ok (Steps.on_get f), hset]
      exact on_detachWrites r f

/-- A call that is refused writes nothing. -/
theorem on_writes_refused {e : Edit} {fault : Fault} (h : (e.writes.on f).1 = .error fault) :
    (e.writes.on f).2 = f := by
  have hsettle : ∀ r : Except Fault Forest, (settle f r).1 = .error fault →
      (settle f r).2 = f := by
    rintro (e | g) h
    · rfl
    · cases h
  cases e with
  | build id name kind tags source =>
      cases hn : Node.make id name kind tags source with
      | error e =>
          rw [writes, hn]
          rfl
      | ok n =>
          rw [writes, hn] at h
          cases h
  | addChild p c =>
      rw [writes, on_addChildWrites] at h ⊢
      exact hsettle _ h
  | removeChild p c =>
      rw [writes, on_removeChildWrites] at h
      cases h
  | detach r =>
      rw [writes, on_detachWrites] at h ⊢
      exact hsettle _ h

end Edit

/-- Every call keeps the links in agreement, also when it is refused. -/
theorem Linked.writes (hf : f.Linked) (e : Edit) : (e.writes.on f).2.Linked := by
  have hsettle : ∀ r : Except Fault Forest, (∀ g, r = .ok g → g.Linked) →
      (Edit.settle f r).2.Linked := by
    rintro (e | g) h
    · exact hf
    · exact h g rfl
  cases e with
  | build id name kind tags source =>
      cases hn : Node.make id name kind tags source with
      | error e =>
          rw [Edit.writes, hn]
          exact hf
      | ok n =>
          rw [Edit.writes, hn]
          cases id with
          | none => cases hn
          | some id =>
              rw [Node.make_eq_ok hn]
              exact hf.add rfl rfl
  | addChild p c =>
      rw [Edit.writes, Edit.on_addChildWrites]
      exact hsettle _ fun g hg => hf.addChild hg
  | removeChild p c =>
      rw [Edit.writes, Edit.on_removeChildWrites]
      exact hf.removeChild p c
  | detach r =>
      rw [Edit.writes, Edit.on_detachWrites]
      exact hsettle _ fun g hg => hf.detach hg

/-- **The links agree after any edits.** -/
theorem linked_outcome (edits : List Edit) : (Edit.outcome edits).Linked := by
  have hrun : ∀ (edits : List Edit) (f : Forest), f.Linked →
      (edits.foldl (fun f e => (e.perform.on f).2) f).Linked := by
    intro edits
    induction edits with
    | nil => exact fun _ hf => hf
    | cons e edits ih =>
        intro f hf
        refine ih _ ?_
        show (e.perform.on f).2.Linked
        rw [← Edit.on_writes]
        exact hf.writes e
  exact hrun edits ∅ linked_empty

/-- What the links of a forest promise, and what the next call keeps of them. -/
structure Coherent (f : Forest) : Prop where
  /-- A node is among the children of another exactly when that is its parent. -/
  mem_children_iff : ∀ p c, c ∈ f.children p ↔ f.parent? c = some p
  /-- It is there once, and kept under its own id. -/
  kept_once : ∀ p c, c ∈ f.children p →
    (f.children p).count c = 1 ∧ ∀ id, f.child? p id = some c ↔ f.id? c = some id
  /-- It is among the children of no other node. -/
  one_parent : ∀ p p' c, c ∈ f.children p → c ∈ f.children p' → p = p'
  /-- Siblings have different ids. -/
  siblings : ∀ p, ((f.children p).map f.id?).Nodup
  /-- A call that is refused changes nothing. -/
  refused : ∀ (e : Edit) (fault : Fault),
    (e.writes.on f).1 = .error fault → (e.writes.on f).2 = f
  /-- Nor does putting a node where it is. -/
  again : ∀ p c, c ∈ f.children p → (Edit.addChild p (some c)).writes.on f = (.ok (), f)

/-- **The two links of a node agree** after any calls, refused or not, and so does what the
    calls write one by one with what they do. -/
theorem coherent_outcome (edits : List Edit) :
    (Edit.outcome edits).Coherent ∧
      ∀ (e : Edit) (f : Forest), e.writes.on f = e.perform.on f := by
  have hf := linked_outcome edits
  refine ⟨⟨?_, ?_, ?_, ?_, ?_, ?_⟩, fun e f => e.on_writes f⟩
  · intro p c
    exact hf.mem_children_iff
  · intro p c hc
    exact hf.kept_once hc
  · intro p p' c hc hc'
    rw [hf.mem_children_iff] at hc hc'
    exact Option.some.inj (hc.symm.trans hc')
  · exact hf.nodup_map_id_children
  · intro e fault h
    exact Edit.on_writes_refused h
  · intro p c hc
    show (Edit.addChildWrites p (some c)).on _ = _
    rw [Edit.on_addChildWrites, hf.addChild_child hc]
    rfl

end TestLauncher.Forest
