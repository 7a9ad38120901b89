import TestLauncher.Forest.Growth
import TestLauncher.Proofs.Forest.Thinning

/-! # Forests behind other forests

    A forest may stand behind another: its nodes come after those of the other one, and all
    links between them point as many places further (`after`).  The operations on forests do
    behind another forest what they do alone, and so do the walks, although they may go
    deeper there: in an `Ordered` forest links lead from earlier to later nodes, and no walk
    is longer than there are nodes. -/

namespace TestLauncher

/-- The reference with so many nodes before it. -/
def NodeRef.shift (n : Nat) (r : NodeRef) : NodeRef := ⟨n + r.index⟩

/-- Shifted references differ where the references differ. -/
theorem NodeRef.shift_inj {n : Nat} {r s : NodeRef} : r.shift n = s.shift n ↔ r = s := by
  obtain ⟨i⟩ := r
  obtain ⟨j⟩ := s
  simp only [shift, NodeRef.mk.injEq]
  omega

/-- The node with so many nodes before those it is linked to. -/
def Node.shift (n : Nat) (x : Node) : Node :=
  { x with parent := x.parent.map (NodeRef.shift n), children := x.children.map (NodeRef.shift n) }

namespace Forest

/-- A forest behind another. -/
def after (f₀ g : Forest) : Forest := ⟨f₀.nodes ++ g.nodes.map (Node.shift f₀.size)⟩

/-- Forests with the same node in every place are equal. -/
theorem ext_node? {f g : Forest} (h : ∀ r, f.node? r = g.node? r) : f = g := by
  obtain ⟨xs⟩ := f
  obtain ⟨ys⟩ := g
  congr 1
  exact Array.ext_getElem? fun i => h ⟨i⟩

section

variable (f₀ g : Forest)

/-- The nodes of both forests are counted. -/
theorem size_after : (f₀.after g).size = f₀.size + g.size := by
  simp [after, size]

/-- A node of the second forest is found behind the first. -/
theorem node?_after (r : NodeRef) :
    (f₀.after g).node? (r.shift f₀.size) = (g.node? r).map (Node.shift f₀.size) := by
  simp only [after, node?, NodeRef.shift, size]
  rw [Array.getElem?_append_right (by omega), Array.getElem?_map]
  congr 2
  omega

/-- A node of the first forest is found where it was. -/
theorem node?_after_old {r : NodeRef} (h : r.index < f₀.size) :
    (f₀.after g).node? r = f₀.node? r := by
  simp only [after, node?]
  exact Array.getElem?_append_left h

/-- The first forest is still there. -/
theorem extends_after : f₀.Extends (f₀.after g) := by
  intro r n hr
  have hlt := (f₀.node?_isSome_iff r).mp (by rw [hr]; rfl)
  rw [node?_after_old f₀ g hlt, hr]

/-- The empty forest behind another adds nothing. -/
theorem after_empty : f₀.after ∅ = f₀ := by
  show Forest.mk (f₀.nodes ++ (#[] : Array Node).map (Node.shift f₀.size)) = f₀
  rw [Array.map_empty, Array.append_empty]

/-- A reference is to a node before, or to one of the nodes behind. -/
theorem old_or_shift (r : NodeRef) : r.index < f₀.size ∨ ∃ s : NodeRef, r = s.shift f₀.size := by
  by_cases h : r.index < f₀.size
  · exact Or.inl h
  · refine Or.inr ⟨⟨r.index - f₀.size⟩, ?_⟩
    obtain ⟨i⟩ := r
    simp only [NodeRef.shift, NodeRef.mk.injEq]
    simp only at h
    omega

/-- No shifted reference is one of the first forest. -/
theorem shift_ne_old {r s : NodeRef} (h : r.index < f₀.size) : s.shift f₀.size ≠ r := by
  rintro rfl
  simp only [NodeRef.shift] at h
  omega

/-- The children of a node behind the forest are its children, shifted. -/
theorem children_after (r : NodeRef) :
    (f₀.after g).children (r.shift f₀.size) = (g.children r).map (NodeRef.shift f₀.size) := by
  rw [children, children, node?_after]
  cases g.node? r with
  | none => rfl
  | some n => exact OrderedMap.values_map ..

/-- A filter sees of a node behind the forest what it saw before. -/
theorem bare?_after (r : NodeRef) : (f₀.after g).bare? (r.shift f₀.size) = g.bare? r := by
  rw [bare?, bare?, node?_after, Option.map_map]
  rfl

/-- The parent of a node behind the forest is its parent, shifted. -/
theorem parent?_after (r : NodeRef) :
    (f₀.after g).parent? (r.shift f₀.size) = (g.parent? r).map (NodeRef.shift f₀.size) := by
  rw [parent?, parent?, node?_after]
  cases g.node? r <;> rfl

/-- A child is found behind the forest by the same id. -/
theorem child?_after (r : NodeRef) (id : UniqueId) :
    (f₀.after g).child? (r.shift f₀.size) id = (g.child? r id).map (NodeRef.shift f₀.size) := by
  rw [child?, child?, node?_after]
  cases g.node? r with
  | none => rfl
  | some n => exact OrderedMap.get?_map ..

/-- A node stands behind the forest as it stood alone. -/
theorem stands_after {r : NodeRef} {p : Option NodeRef} {cs : List NodeRef}
    (h : g.Stands r p cs) :
    (f₀.after g).Stands (r.shift f₀.size) (p.map (NodeRef.shift f₀.size))
      (cs.map (NodeRef.shift f₀.size)) := by
  obtain ⟨n, hn, rfl, rfl, hids⟩ := h
  refine ⟨n.shift f₀.size, ?_, rfl, OrderedMap.values_map .., ?_⟩
  · rw [node?_after, hn]
    rfl
  · intro e he
    obtain ⟨d, hd, rfl⟩ := List.mem_map.mp he
    show ((f₀.after g).node? (d.2.shift f₀.size)).map Node.id = some d.1
    rw [node?_after, Option.map_map, ← hids d hd]
    rfl

/-- Trees stand behind another forest as they stand alone. -/
theorem holds_after {t : Grove NodeRef} {p : Option NodeRef} (h : g.Holds p t) :
    (f₀.after g).Holds (p.map (NodeRef.shift f₀.size)) (t.map (NodeRef.shift f₀.size)) := by
  induction t generalizing p with
  | nil => trivial
  | cons r b s ihb ihs =>
      obtain ⟨hr, hb, hs⟩ := h
      have hr' := stands_after f₀ g hr
      rw [← Grove.roots_map] at hr'
      exact ⟨hr', ihb hb, ihs hs⟩

/-! ## Operations -/

/-- A node added behind the forest is the added node, shifted. -/
theorem add_after {n : Node} (hn : n.shift f₀.size = n) :
    (f₀.after g).add n = ((g.add n).1.shift f₀.size, f₀.after (g.add n).2) := by
  refine Prod.ext ?_ ?_
  · show NodeRef.mk (f₀.after g).size = NodeRef.mk (f₀.size + g.size)
    rw [size_after]
  · show Forest.mk ((f₀.nodes ++ g.nodes.map _).push n)
      = Forest.mk (f₀.nodes ++ (g.nodes.push n).map _)
    rw [Array.map_push, hn, Array.append_push]

/-- Changes to a node that treat links alike wherever they point. -/
theorem modify_after {r : NodeRef} {change change' : Node → Node}
    (h : ∀ n, change' (n.shift f₀.size) = (change n).shift f₀.size) :
    (f₀.after g).modify (r.shift f₀.size) change' = f₀.after (g.modify r change) := by
  refine ext_node? ?_
  intro x
  rw [node?_modify]
  rcases f₀.old_or_shift x with hx | ⟨y, rfl⟩
  · rw [if_neg (f₀.shift_ne_old hx), node?_after_old f₀ g hx, node?_after_old f₀ _ hx]
  · rw [node?_after, node?_after, node?_modify]
    by_cases hry : r = y
    · rw [if_pos (NodeRef.shift_inj.mpr hry), if_pos hry]
      cases g.node? y with
      | none => rfl
      | some n => exact congrArg some (h n)
    · rw [if_neg fun e => hry (NodeRef.shift_inj.mp e), if_neg hry]

/-- Taking a child out behind the forest leaves the forest before it alone. -/
theorem removeChild_after (p c : NodeRef) :
    (f₀.after g).removeChild (p.shift f₀.size) (c.shift f₀.size)
      = f₀.after (g.removeChild p c) := by
  rw [removeChild, removeChild, node?_after]
  cases hc : g.node? c with
  | none => rfl
  | some n =>
      simp only [Option.map_some]
      have hchild : (f₀.after g).child? (p.shift f₀.size) (n.shift f₀.size).id
          = (g.child? p n.id).map (NodeRef.shift f₀.size) := child?_after f₀ g p n.id
      have hiff : (f₀.after g).child? (p.shift f₀.size) (n.shift f₀.size).id
          = some (c.shift f₀.size) ↔ g.child? p n.id = some c := by
        rw [hchild]
        cases g.child? p n.id with
        | none => simp
        | some d =>
            simp only [Option.map_some, Option.some.injEq]
            exact NodeRef.shift_inj
      by_cases h : g.child? p n.id = some c
      · rw [if_pos (hiff.mpr h), if_pos h, modify_after, modify_after]
        · intro m
          rfl
        · intro m
          show { m.shift f₀.size with children := (m.shift f₀.size).children.erase n.id } = _
          rw [Node.shift, OrderedMap.erase_map]
          rfl
      · rw [if_neg fun e => h (hiff.mp e), if_neg h]

/-- The two links between a node and its new parent. -/
def link (f : Forest) (p c : NodeRef) (id : UniqueId) : Forest :=
  (f.modify c fun n => { n with parent := some p }).modify p fun n =>
    { n with children := n.children.insert id c }

/-- Linking behind the forest leaves the forest before it alone. -/
theorem link_after (p c : NodeRef) (id : UniqueId) :
    (f₀.after g).link (p.shift f₀.size) (c.shift f₀.size) id = f₀.after (g.link p c id) := by
  rw [link, link, modify_after, modify_after]
  · intro n
    show { n.shift f₀.size with
      children := (n.shift f₀.size).children.insert id (c.shift f₀.size) } = _
    rw [Node.shift, OrderedMap.insert_map]
    rfl
  · intro n
    rfl

/-- Adding a child behind the forest does what it does alone, and fails where that fails. -/
theorem addChild_after (p c : NodeRef) :
    (f₀.after g).addChild (p.shift f₀.size) (some (c.shift f₀.size))
      = (g.addChild p (some c)).map f₀.after := by
  rw [addChild, addChild]
  by_cases hcp : c = p
  · rw [if_pos (NodeRef.shift_inj.mpr hcp), if_pos hcp]
    rfl
  · rw [if_neg fun e => hcp (NodeRef.shift_inj.mp e), if_neg hcp, node?_after, node?_after]
    cases hp : g.node? p with
    | none => rfl
    | some q =>
        cases hc : g.node? c with
        | none => rfl
        | some n =>
            simp only [Option.map_some]
            -- the id is taken behind the other forest when it is taken without
            have htaken : ((q.shift f₀.size).children.get? (n.shift f₀.size).id).any
                (· ≠ c.shift f₀.size) = (q.children.get? n.id).any (· ≠ c) := by
              show ((q.children.map _).get? n.id).any _ = _
              rw [OrderedMap.get?_map]
              cases q.children.get? n.id with
              | none => rfl
              | some d => simp [NodeRef.shift_inj]
            rw [htaken]
            by_cases h : (q.children.get? n.id).any (· ≠ c) = true
            · rw [if_pos h, if_pos h]
              rfl
            · rw [if_neg h, if_neg h]
              have hparent : (n.shift f₀.size).parent = n.parent.map (NodeRef.shift f₀.size) := rfl
              rw [hparent]
              cases n.parent with
              | none => exact congrArg Except.ok (link_after f₀ g p c n.id)
              | some d =>
                  simp only [Option.map_some, NodeRef.shift_inj, removeChild_after]
                  by_cases hdp : d = p
                  · rw [if_pos hdp, if_pos hdp]
                    exact congrArg Except.ok (link_after f₀ g p c n.id)
                  · rw [if_neg hdp, if_neg hdp]
                    exact congrArg Except.ok (link_after f₀ (g.removeChild d c) p c n.id)

/-- So does taking out children one after the other. -/
theorem removeChildren_after (p : NodeRef) (cs : List NodeRef) :
    (cs.map (NodeRef.shift f₀.size)).foldl (fun f c => f.removeChild (p.shift f₀.size) c)
      (f₀.after g) = f₀.after (cs.foldl (fun f c => f.removeChild p c) g) := by
  induction cs generalizing g with
  | nil => rfl
  | cons c cs ih => rw [List.map_cons, List.foldl_cons, List.foldl_cons, removeChild_after, ih]

/-- Detaching behind the forest does what it does alone, and fails where that fails. -/
theorem detach_after (r : NodeRef) :
    (f₀.after g).detach (r.shift f₀.size) = (g.detach r).map f₀.after := by
  rw [detach, detach, node?_after]
  cases hr : g.node? r with
  | none => rfl
  | some n =>
      have hparent : (n.shift f₀.size).parent = n.parent.map (NodeRef.shift f₀.size) := rfl
      simp only [Option.map_some, hparent]
      cases hp : n.parent with
      | none => rfl
      | some p =>
          simp only [Option.map_some, removeChild_after, children_after, removeChildren_after]
          rfl

end

/-! ## Links from earlier to later nodes -/

/-- Parents come before their children. -/
structure Ordered (g : Forest) : Prop where
  up : ∀ r p, g.parent? r = some p → p.index < r.index
  down : ∀ r c, c ∈ g.children r → r.index < c.index ∧ c.index < g.size

section

variable {g g' : Forest}

/-- The empty forest is ordered. -/
theorem ordered_empty : Ordered (∅ : Forest) :=
  ⟨fun _ _ h => (by cases h), fun _ _ h => absurd h List.not_mem_nil⟩

/-- A new node without links keeps the order. -/
theorem Ordered.add {n : Node} (hg : g.Ordered) (hp : n.parent = none)
    (hc : n.children.values = []) : (g.add n).2.Ordered := by
  constructor
  · intro r p h
    rw [parent?, node?_add] at h
    by_cases hr : r = (g.add n).1
    · rw [if_pos hr, Option.bind_some, hp] at h
      cases h
    · rw [if_neg hr] at h
      exact hg.up r p h
  · intro r c h
    rw [children, node?_add] at h
    by_cases hr : r = (g.add n).1
    · rw [if_pos hr] at h
      have hmem : c ∈ n.children.values := h
      rw [hc] at hmem
      exact absurd hmem List.not_mem_nil
    · rw [if_neg hr] at h
      obtain ⟨hlt, hsize⟩ := hg.down r c h
      exact ⟨hlt, Nat.lt_of_lt_of_le hsize (by rw [size_add]; omega)⟩

/-- Changes that lose links of a node, or give it links that are in order. -/
theorem Ordered.modify {r : NodeRef} {change : Node → Node} (hg : g.Ordered)
    (hp : ∀ n p, (change n).parent = some p → n.parent = some p ∨ p.index < r.index)
    (hc : ∀ n c, c ∈ (change n).children.values →
      c ∈ n.children.values ∨ r.index < c.index ∧ c.index < g.size) :
    (g.modify r change).Ordered := by
  constructor
  · intro x p h
    rw [parent?, node?_modify] at h
    by_cases hx : r = x
    · subst hx
      rw [if_pos rfl] at h
      cases hn : g.node? r with
      | none =>
          rw [hn] at h
          cases h
      | some n =>
          rw [hn] at h
          rcases hp n p h with h | h
          · exact hg.up r p (by rw [parent?, hn]; exact h)
          · exact h
    · rw [if_neg hx] at h
      exact hg.up x p h
  · intro x c h
    rw [size_modify]
    rw [children, node?_modify] at h
    by_cases hx : r = x
    · subst hx
      rw [if_pos rfl] at h
      cases hn : g.node? r with
      | none =>
          rw [hn] at h
          exact absurd h List.not_mem_nil
      | some n =>
          rw [hn] at h
          rcases hc n c h with h | h
          · exact hg.down r c (by rw [children, hn]; exact h)
          · exact h
    · rw [if_neg hx] at h
      exact hg.down x c h

/-- Taking a child out keeps the order. -/
theorem Ordered.removeChild (hg : g.Ordered) (p c : NodeRef) : (g.removeChild p c).Ordered := by
  rw [Forest.removeChild]
  split
  · exact hg
  · split
    · rename_i n _ _
      have herased : (g.modify p fun q => { q with children := q.children.erase n.id }).Ordered :=
        hg.modify (fun m q h => Or.inl h) fun m d h => Or.inl (OrderedMap.mem_values_erase h)
      exact herased.modify (fun m q h => (by cases h)) fun m d h => Or.inl h
    · exact hg

/-- A link from an earlier to a later node keeps the order. -/
theorem Ordered.link {p c : NodeRef} (hg : g.Ordered) (hpc : p.index < c.index)
    (hc : c.index < g.size) (id : UniqueId) : (g.link p c id).Ordered := by
  have hparent : (g.modify c fun n => { n with parent := some p }).Ordered := by
    refine hg.modify ?_ fun n d h => Or.inl h
    intro n q h
    cases h
    exact Or.inr hpc
  refine hparent.modify (fun n q h => Or.inl h) ?_
  intro n d h
  rcases OrderedMap.mem_values_insert h with rfl | h
  · rw [size_modify]
    exact Or.inr ⟨hpc, hc⟩
  · exact Or.inl h

/-- Adding a later node as a child keeps the order. -/
theorem Ordered.addChild {p c : NodeRef} (hg : g.Ordered) (hpc : p.index < c.index)
    (hc : c.index < g.size) (h : g.addChild p (some c) = .ok g') : g'.Ordered := by
  rw [Forest.addChild] at h
  split at h
  · cases h
  · split at h
    · split at h
      · cases h
      · cases h
        split
        · exact hg.link hpc hc _
        · split
          · exact hg.link hpc hc _
          · refine (hg.removeChild _ _).link hpc ?_ _
            rw [size_removeChild]
            exact hc
    · cases h
      exact hg

/-- Taking out children one after the other keeps the order and the size. -/
theorem Ordered.removeChildren (hg : g.Ordered) (p : NodeRef) (cs : List NodeRef) :
    (cs.foldl (fun f c => f.removeChild p c) g).Ordered ∧
      (cs.foldl (fun f c => f.removeChild p c) g).size = g.size := by
  induction cs generalizing g with
  | nil => exact ⟨hg, rfl⟩
  | cons c cs ih =>
      obtain ⟨hordered, hsize⟩ := ih (hg.removeChild p c)
      exact ⟨hordered, hsize.trans (size_removeChild ..)⟩

/-- Detaching a node keeps the order and the size. -/
theorem Ordered.detach {r : NodeRef} (hg : g.Ordered) (h : g.detach r = .ok g') :
    g'.Ordered ∧ g'.size = g.size := by
  rw [Forest.detach] at h
  split at h
  · cases h
    exact ⟨hg, rfl⟩
  · split at h
    · cases h
    · cases h
      obtain ⟨hordered, hsize⟩ := (hg.removeChild _ r).removeChildren r _
      exact ⟨hordered, hsize.trans (size_removeChild ..)⟩

end

/-! ## Looking up -/

/-- The source of a node is found behind another forest where it is found alone. -/
theorem sourceFrom_after (f₀ : Forest) {g : Forest} (hg : g.Ordered) {k k' : Nat} {r : NodeRef}
    (hk : r.index < k) (hk' : r.index < k') :
    (f₀.after g).sourceFrom k' (r.shift f₀.size) = g.sourceFrom k r := by
  induction k generalizing r k' with
  | zero => omega
  | succ k ih =>
      obtain ⟨m, rfl⟩ : ∃ m, k' = m + 1 := ⟨k' - 1, by omega⟩
      rw [sourceFrom, sourceFrom, node?_after]
      cases hr : g.node? r with
      | none => rfl
      | some x =>
          show (if x.id.last.isRoot = true then none else _)
            = if x.id.last.isRoot = true then none else _
          by_cases hroot : x.id.last.isRoot = true
          · rw [if_pos hroot, if_pos hroot]
          · rw [if_neg hroot, if_neg hroot]
            have hsource : (x.shift f₀.size).source = x.source := rfl
            have hparent : (x.shift f₀.size).parent = x.parent.map (NodeRef.shift f₀.size) := rfl
            rw [hsource, hparent]
            cases x.source.filter (· ≠ "") with
            | some s => rfl
            | none =>
                cases hp : x.parent with
                | none => rfl
                | some p =>
                    -- the parent comes earlier, so that one step less is enough for it
                    have hlt := hg.up r p (by rw [parent?, hr]; exact hp)
                    exact ih (by omega) (by omega)

end Forest

end TestLauncher
