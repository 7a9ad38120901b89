import TestLauncher.Proofs.Forest.Mirror
import TestLauncher.Proofs.UniqueId

/-! # Forests with longer ids

    All ids of a forest can be put below a segment (`beneath`).  What is done to a forest and
    what is asked about it does not depend on how its ids begin: trees stand as they stood
    (`holds_beneath`), the rules of the library judge a node as before (`judge_beneath`), and
    a child is put below a node when it could be put there before (`addChild_beneath`).  So
    growing with longer ids grows the same trees with longer ids (`Rerooted`).  The text of
    a fault tells ids; therefore faults are compared by their kinds. -/

namespace TestLauncher

/-- Two ends that correspond, faults by their kinds. -/
inductive Akin {α β : Type} (R : α → β → Prop) : Except Fault α → Except Fault β → Prop where
  | ok {a : α} {b : β} (h : R a b) : Akin R (.ok a) (.ok b)
  | error {d e : Fault} (h : d.kind = e.kind) : Akin R (.error d) (.error e)

theorem akin_map {α β : Type} (φ : α → β) (x : Except Fault α) :
    Akin (fun a b => b = φ a) x (x.map φ) := by
  cases x with
  | ok a => exact .ok rfl
  | error e => exact .error rfl

/-- The node with longer ids for itself and its children. -/
def Node.beneath (top : Option Segment) (n : Node) : Node :=
  { n with
    id := n.id.beneath top
    children := n.children.mapKeys (UniqueId.beneath_injective top) }

/-- Longer ids leave the children in place. -/
theorem Node.values_beneath (top : Option Segment) (n : Node) :
    (n.beneath top).children.values = n.children.values :=
  OrderedMap.values_mapKeys (UniqueId.beneath_injective top) n.children

/-- A child is found under its longer id where it was found under its own. -/
theorem Node.child_beneath (top : Option Segment) (n : Node) (id : UniqueId) :
    (n.beneath top).children.get? (id.beneath top) = n.children.get? id :=
  OrderedMap.get?_mapKeys (UniqueId.beneath_injective top) n.children id

theorem Node.beneath_none (n : Node) : n.beneath none = n := by
  have hchildren : n.children.mapKeys (UniqueId.beneath_injective none) = n.children := by
    rw [OrderedMap.mapKeys]
    congr 1
    exact List.map_id' _
  rw [Node.beneath, hchildren, UniqueId.beneath_none]

/-- A new node gets the longer id. -/
theorem Node.make_beneath (top : Option Segment) (id : UniqueId) (name : String) (kind : NodeKind)
    (tags : StringSet) (source : Option String) :
    Node.make (some (id.beneath top)) name kind tags source
      = (Node.make (some id) name kind tags source).map (Node.beneath top) := by
  rw [Node.make, Node.make]
  cases Text.isBlank name <;> rfl

namespace Forest

/-- The forest with longer ids. -/
def beneath (top : Option Segment) (f : Forest) : Forest := ⟨f.nodes.map (Node.beneath top)⟩

section

variable (top : Option Segment) (f : Forest)

/-- Below no segment nothing changes. -/
theorem beneath_none : f.beneath none = f := by
  have hnode : Node.beneath none = id := funext Node.beneath_none
  rw [beneath, hnode, Array.map_id_fun, id_eq]

/-- Longer ids add no nodes. -/
theorem size_beneath : (f.beneath top).size = f.size := by
  rw [size, size, beneath, Array.size_map]

theorem node?_beneath (r : NodeRef) :
    (f.beneath top).node? r = (f.node? r).map (Node.beneath top) := by
  rw [node?, node?, beneath, Array.getElem?_map]

/-- There are no ids in the empty forest. -/
theorem empty_beneath : (∅ : Forest).beneath top = ∅ :=
  congrArg Forest.mk Array.map_empty

/-- Longer ids leave child links as they are. -/
theorem children_beneath (r : NodeRef) : (f.beneath top).children r = f.children r := by
  rw [children, children, node?_beneath]
  cases f.node? r with
  | none => rfl
  | some n => exact n.values_beneath top

/-- Longer ids leave parent links as they are. -/
theorem parent?_beneath (r : NodeRef) : (f.beneath top).parent? r = f.parent? r := by
  rw [parent?, parent?, node?_beneath]
  cases f.node? r <;> rfl

/-- What a filter sees of a node has the longer id. -/
theorem bare?_beneath (r : NodeRef) :
    (f.beneath top).bare? r = (f.bare? r).map (Node.beneath top) := by
  rw [bare?, bare?, node?_beneath, Option.map_map, Option.map_map]
  rfl

/-- A lookup by the longer id finds the child that a lookup by the id found. -/
theorem child?_beneath (r : NodeRef) (id : UniqueId) :
    (f.beneath top).child? r (id.beneath top) = f.child? r id := by
  rw [child?, child?, node?_beneath]
  cases f.node? r with
  | none => rfl
  | some n => exact n.child_beneath top id

/-- A node is a test whatever its id. -/
theorem isTest_beneath (r : NodeRef) : (f.beneath top).isTest r = f.isTest r := by
  rw [isTest, isTest, node?_beneath]
  cases f.node? r <;> rfl

/-! ## Trees that stand -/

variable {f}

/-- A node stands where it stood. -/
theorem stands_beneath {r : NodeRef} {p : Option NodeRef} {cs : List NodeRef}
    (h : f.Stands r p cs) : (f.beneath top).Stands r p cs := by
  obtain ⟨n, hn, rfl, rfl, hids⟩ := h
  refine ⟨n.beneath top, ?_, rfl, n.values_beneath top, ?_⟩
  · rw [node?_beneath, hn]
    rfl
  · intro e he
    obtain ⟨d, hd, rfl⟩ := List.mem_map.mp he
    have hid := congrArg (Option.map (UniqueId.beneath top)) (hids d hd)
    rw [Option.map_map] at hid
    rw [node?_beneath, Option.map_map]
    exact hid

/-- A grove that is held is held with longer ids. -/
theorem holds_beneath {g : Grove NodeRef} {p : Option NodeRef} (h : f.Holds p g) :
    (f.beneath top).Holds p g := by
  induction g generalizing p with
  | nil => trivial
  | cons r b s ihb ihs =>
      obtain ⟨hr, hb, hs⟩ := h
      exact ⟨stands_beneath top hr, ihb hb, ihs hs⟩

/-- Parents still come before their children. -/
theorem Ordered.beneath (h : f.Ordered) : (f.beneath top).Ordered := by
  constructor
  · intro r p hp
    rw [parent?_beneath] at hp
    exact h.up r p hp
  · intro r c hc
    rw [children_beneath] at hc
    rw [size_beneath]
    exact h.down r c hc

/-! ## Operations -/

variable (f)

/-- A node with a longer id gets the place that it would have had. -/
theorem add_beneath (n : Node) :
    (f.beneath top).add (n.beneath top) = ((f.add n).1, (f.add n).2.beneath top) := by
  refine Prod.ext ?_ ?_
  · exact congrArg NodeRef.mk (size_beneath top f)
  · exact congrArg Forest.mk Array.map_push.symm

/-- Changes to a node that treat ids alike however they begin. -/
theorem modify_beneath {r : NodeRef} {change change' : Node → Node}
    (h : ∀ n, change' (n.beneath top) = (change n).beneath top) :
    (f.beneath top).modify r change' = (f.modify r change).beneath top := by
  refine ext_node? ?_
  intro x
  rw [node?_modify, node?_beneath, node?_beneath, node?_modify]
  split
  · cases f.node? x with
    | none => rfl
    | some n => exact congrArg some (h n)
  · rfl

/-- Taking a child out commutes with longer ids. -/
theorem removeChild_beneath (p c : NodeRef) :
    (f.beneath top).removeChild p c = (f.removeChild p c).beneath top := by
  rw [removeChild, removeChild, node?_beneath]
  cases f.node? c with
  | none => rfl
  | some n =>
      have hchild : (f.beneath top).child? p (n.beneath top).id = f.child? p n.id :=
        child?_beneath top f p n.id
      simp only [Option.map_some, hchild]
      split
      · rw [modify_beneath, modify_beneath]
        · intro m
          rfl
        · intro m
          show { m.beneath top with children := (m.beneath top).children.erase (n.beneath top).id }
            = _
          rw [Node.beneath, Node.beneath, OrderedMap.erase_mapKeys]
          rfl
      · rfl

/-- Linking a child commutes with longer ids. -/
theorem link_beneath (p c : NodeRef) (id : UniqueId) :
    (f.beneath top).link p c (id.beneath top) = (f.link p c id).beneath top := by
  rw [link, link, modify_beneath, modify_beneath]
  · intro n
    show { n.beneath top with children := (n.beneath top).children.insert (id.beneath top) c } = _
    rw [Node.beneath, OrderedMap.insert_mapKeys]
    rfl
  · intro n
    rfl

/-- A child can be put below a node when it can be with the shorter ids. -/
theorem addChild_beneath (p c : NodeRef) :
    Akin (fun g g' => g' = g.beneath top) (f.addChild p (some c))
      ((f.beneath top).addChild p (some c)) := by
  rw [addChild, addChild]
  by_cases hcp : c = p
  · rw [if_pos hcp, if_pos hcp]
    exact .error rfl
  · rw [if_neg hcp, if_neg hcp, node?_beneath, node?_beneath]
    cases f.node? p with
    | none => exact .ok rfl
    | some q =>
        cases f.node? c with
        | none => exact .ok rfl
        | some n =>
            have htaken : (q.beneath top).children.get? (n.beneath top).id
                = q.children.get? n.id := q.child_beneath top n.id
            have hparent : (n.beneath top).parent = n.parent := rfl
            simp only [Option.map_some, htaken, hparent]
            split
            · exact .error rfl
            · refine .ok ?_
              cases n.parent with
              | none => exact link_beneath top f p c n.id
              | some d =>
                  dsimp only
                  split
                  · exact link_beneath top f p c n.id
                  · rw [removeChild_beneath]
                    exact link_beneath top (f.removeChild d c) p c n.id

/-! ## Judging -/

/-- The nearest source above a node does not depend on ids. -/
theorem sourceFrom_beneath (n : Nat) (r : NodeRef) :
    (f.beneath top).sourceFrom n r = f.sourceFrom n r := by
  induction n generalizing r with
  | zero => rfl
  | succ n ih =>
      rw [sourceFrom, sourceFrom, node?_beneath]
      cases f.node? r with
      | none => rfl
      | some x =>
          have hlast : (x.beneath top).id.last = x.id.last := x.id.last_beneath
          have hsource : (x.beneath top).source = x.source := rfl
          have hparent : (x.beneath top).parent = x.parent := rfl
          show (if (x.beneath top).id.last.isRoot = true then none else _)
            = if x.id.last.isRoot = true then none else _
          rw [hlast, hsource, hparent]
          congr 1
          cases x.source.filter (· ≠ "") with
          | some s => rfl
          | none =>
              cases x.parent with
              | none => rfl
              | some p => exact ih p

end

/-! ## Growing -/

section

variable {top : Option Segment} {α β γ δ : Type}

/-- The second growing does with longer ids what the first does; the values correspond. -/
def Rerooted (top : Option Segment) (R : α → β → Prop) (c : Growing α) (c' : Growing β) : Prop :=
  ∀ f, (c'.on (f.beneath top)).2 = (c.on f).2.beneath top ∧
    Akin R (c.on f).1 (c'.on (f.beneath top)).1

variable {R : α → β → Prop} {Q : γ → δ → Prop} {c : Growing α} {c' : Growing β}

theorem rerooted_ofExcept {x : Except Fault α} {y : Except Fault β} (h : Akin R x y) :
    Rerooted top R (Steps.ofExcept x) (Steps.ofExcept y) :=
  fun _ => ⟨rfl, h⟩

/-- Corresponding values are corresponding results. -/
theorem rerooted_pure {a : α} {b : β} (h : R a b) :
    Rerooted top R (pure a : Growing α) (pure b : Growing β) :=
  rerooted_ofExcept (.ok h)

/-- Steps that correspond, one after the other, correspond. -/
theorem Rerooted.bind {k : α → Growing γ} {k' : β → Growing δ} (h : Rerooted top R c c')
    (hk : ∀ a b, R a b → Rerooted top Q (k a) (k' b)) :
    Rerooted top Q (c >>= k) (c' >>= k') := by
  intro f
  obtain ⟨hf, hend⟩ := h f
  rw [Steps.on_bind, Steps.on_bind]
  rcases hc : c.on f with ⟨x, g⟩
  rcases hc' : c'.on (f.beneath top) with ⟨y, g'⟩
  rw [hc, hc'] at hf hend
  subst hf
  cases hend with
  | error h => exact ⟨rfl, .error h⟩
  | ok hr => exact hk _ _ hr g

/-- A loop over the same elements. -/
theorem rerooted_forM {as : List γ} {step step' : γ → Growing Unit}
    (h : ∀ a ∈ as, Rerooted top Eq (step a) (step' a)) :
    Rerooted top Eq (as.forM step) (as.forM step') := by
  induction as with
  | nil => exact rerooted_pure rfl
  | cons a as ih =>
      refine (h a (by simp)).bind ?_
      intro _ _ _
      exact ih fun x hx => h x (by simp [hx])

/-- The id of a child is longer when that of the parent is. -/
theorem rerooted_append (id : UniqueId) (type value : String) :
    Rerooted top (fun i i' => i' = i.beneath top) (Steps.ofExcept (id.append type value))
      (Steps.ofExcept ((id.beneath top).append type value)) := by
  rw [UniqueId.append_beneath]
  exact rerooted_ofExcept (akin_map ..)

/-- Planting a node under the longer id corresponds to planting it under its own. -/
theorem rerooted_plant (id : UniqueId) (name : String) (kind : NodeKind := .container)
    (tags : StringSet := ∅) (source : Option String := none) :
    Rerooted top Eq (plant (Node.make (some id) name kind tags source))
      (plant (Node.make (some (id.beneath top)) name kind tags source)) := by
  rw [Node.make_beneath]
  cases Node.make (some id) name kind tags source with
  | error e => exact fun _ => ⟨rfl, .error rfl⟩
  | ok n =>
      intro f
      have hon : ∀ (f : Forest) (n : Node), (plant (.ok n)).on f = (.ok (f.add n).1, (f.add n).2) :=
        fun _ _ => rfl
      rw [Except.map, hon, hon, add_beneath]
      exact ⟨rfl, .ok rfl⟩

/-- Attaching a child corresponds to attaching it with longer ids. -/
theorem rerooted_attach (p c : NodeRef) : Rerooted top Eq (attach p c) (attach p c) := by
  intro f
  rw [on_attach, on_attach]
  have hadd := addChild_beneath top f p c
  generalize f.addChild p (some c) = x at hadd
  generalize (f.beneath top).addChild p (some c) = y at hadd
  cases hadd with
  | error h => exact ⟨rfl, .error h⟩
  | ok hg => exact ⟨hg, .ok rfl⟩

end

end Forest

/-! ## Filters of the library -/

/-- A filter made of rules of the library only. -/
def NodeFilter.Standard (filter : NodeFilter) : Prop := ∀ rule, .custom rule ∉ filter.leaves

/-- A filter of library rules judges a node by the nodes above it. -/
theorem NodeFilter.Standard.byLineage {filter : NodeFilter} (h : filter.Standard) :
    filter.ByLineage := fun rule hrule => absurd hrule (h rule)

/-- The rules of the library do not see how ids begin. -/
theorem NodeRule.judge_beneath {rule : NodeRule} (top : Option Segment) (f : Forest) (r : NodeRef)
    (hrule : ∀ custom, rule ≠ .custom custom) :
    rule.judge (f.beneath top) r = rule.judge f r := by
  have hsource : (f.beneath top).sourceName r = f.sourceName r := by
    rw [Forest.sourceName, Forest.sourceName, Forest.size_beneath, Forest.sourceFrom_beneath]
  cases rule with
  | custom rule => exact absurd rfl (hrule rule)
  | _ rule =>
      have hnode := Forest.node?_beneath top f r
      cases hr : f.node? r with
      | none =>
          rw [hr] at hnode
          simp [NodeRule.judge, hnode, hr]
      | some x =>
          rw [hr] at hnode
          simp [NodeRule.judge, NodeRule.judgeSource, hnode, hr, hsource, Node.beneath]

/-- Nor do they fail. -/
theorem NodeRule.judge_ok {rule : NodeRule} (f : Forest) (r : NodeRef)
    (hrule : ∀ custom, rule ≠ .custom custom) : ∃ v, rule.judge f r = .ok v := by
  cases rule with
  | custom rule => exact absurd rfl (hrule rule)
  | _ rule =>
      cases hr : f.node? r with
      | none => exact ⟨⟨true, none⟩, by simp [judge, hr]⟩
      | some x => simp [judge, hr]

end TestLauncher
