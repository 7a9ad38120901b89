import TestLauncher.Collection.OrderedMap
import TestLauncher.Collection.StringSet
import TestLauncher.NodeKind
import TestLauncher.UniqueId

/-! # The forest of nodes

    Nodes live in a store and are named by references into it.  A node knows its parent
    and keeps its children in order of arrival, at most one under each id; the two links
    are edited together.  An operation that is refused leaves no forest behind, so the
    caller's one stays as it was. -/

namespace TestLauncher

/-- The name of a node in a forest. -/
structure NodeRef where
  index : Nat
deriving DecidableEq, Repr

/-- A node: what it is, and its links. -/
structure Node where
  id : UniqueId
  /-- The name shown to people; never blank. -/
  name : String
  kind : NodeKind := .container
  tags : StringSet := ∅
  /-- The dotted name of the class the node comes from. -/
  source : Option String := none
  parent : Option NodeRef := none
  /-- The children under their own ids. -/
  children : OrderedMap UniqueId NodeRef := ∅

/-- A node without links, or what is wrong with its description. -/
def Node.make (id : Option UniqueId) (name : String) (kind : NodeKind := .container)
    (tags : StringSet := ∅) (source : Option String := none) : Except Fault Node :=
  match id with
  | none => refuse .noUniqueId
  | some id => if Text.isBlank name then refuse .blankDisplayName
    else .ok { id, name, kind, tags, source }

/-- The written form of a node. -/
def Node.shown (n : Node) : String :=
  "Node(" ++ n.id.render ++ ", " ++ Text.quote n.name ++ ", " ++ n.kind.capitals ++ ")"

/-- A store of nodes. -/
structure Forest where
  nodes : Array Node := #[]

namespace Forest

/-- The forest without nodes. -/
def empty : Forest := {}

instance : EmptyCollection Forest where
  emptyCollection := empty

instance : Inhabited Forest where
  default := empty

/-- The number of nodes. -/
def size (f : Forest) : Nat := f.nodes.size

/-- The node behind a reference. -/
def node? (f : Forest) (r : NodeRef) : Option Node := f.nodes[r.index]?

/-- The forest with one more node, and its reference. -/
def add (f : Forest) (n : Node) : NodeRef × Forest := (⟨f.nodes.size⟩, ⟨f.nodes.push n⟩)

/-- The forest with one node changed. -/
def modify (f : Forest) (r : NodeRef) (change : Node → Node) : Forest :=
  ⟨f.nodes.modify r.index change⟩

/-- The children of a node, in order. -/
def children (f : Forest) (r : NodeRef) : List NodeRef :=
  match f.node? r with
  | none => []
  | some n => n.children.values

/-- The parent of a node. -/
def parent? (f : Forest) (r : NodeRef) : Option NodeRef := (f.node? r).bind Node.parent

/-- Whether a node is a test. -/
def isTest (f : Forest) (r : NodeRef) : Bool := (f.node? r).any fun n => n.kind.isTest

/-- The child of a node under an id. -/
def child? (f : Forest) (r : NodeRef) (id : UniqueId) : Option NodeRef :=
  (f.node? r).bind fun n => n.children.get? id

/-- Takes a node out of its place among the children of another; nothing happens when it is not
there. -/
def removeChild (f : Forest) (parent child : NodeRef) : Forest :=
  match f.node? child with
  | none => f
  | some c =>
    if f.child? parent c.id = some child then
      (f.modify parent fun p => { p with children := p.children.erase c.id }).modify child
        fun n => { n with parent := none }
    else f

/-- Puts a node under another, taking it away from where it was. -/
def addChild (f : Forest) (parent : NodeRef) (child : Option NodeRef) : Except Fault Forest :=
  match child with
  | none => refuse .noChild
  | some child =>
    if child = parent then refuse .ownChild
    else
      match f.node? parent, f.node? child with
      | some p, some c =>
        if (p.children.get? c.id).any (· ≠ child) then
          refuse (.sharedChildId p.id.render c.id.render)
        else
          let f :=
            match c.parent with
            | none => f
            | some q => if q = parent then f else f.removeChild q child
          .ok <| (f.modify child fun n => { n with parent := some parent }).modify parent
            fun n => { n with children := n.children.insert c.id child }
      | _, _ => .ok f

/-- Takes a node away from its parent, and its children away from it. -/
def detach (f : Forest) (r : NodeRef) : Except Fault Forest :=
  match f.node? r with
  | none => .ok f
  | some n =>
    match n.parent with
    | none => refuse (.detachedRoot n.id.render)
    | some p =>
      let f := f.removeChild p r
      .ok ((f.children r).foldl (fun f c => f.removeChild r c) f)

@[simp] theorem node?_empty (r : NodeRef) : (∅ : Forest).node? r = none := rfl

@[simp] theorem size_add (f : Forest) (n : Node) : (f.add n).2.size = f.size + 1 := by
  simp [add, size]

@[simp] theorem size_modify (f : Forest) (r : NodeRef) (change : Node → Node) :
    (f.modify r change).size = f.size := by
  simp [modify, size]

theorem node?_add (f : Forest) (n : Node) (r : NodeRef) :
    (f.add n).2.node? r = if r = (f.add n).1 then some n else f.node? r := by
  obtain ⟨i⟩ := r
  simp only [add, node?, Array.getElem?_push, NodeRef.mk.injEq]

theorem node?_modify (f : Forest) (r s : NodeRef) (change : Node → Node) :
    (f.modify r change).node? s = if r = s then (f.node? s).map change else f.node? s := by
  obtain ⟨i⟩ := r
  obtain ⟨j⟩ := s
  simp only [modify, node?, Array.getElem?_modify, NodeRef.mk.injEq]

theorem node?_isSome_iff (f : Forest) (r : NodeRef) : (f.node? r).isSome ↔ r.index < f.size := by
  simp [node?, size]

@[simp] theorem size_removeChild (f : Forest) (p c : NodeRef) :
    (f.removeChild p c).size = f.size := by
  unfold removeChild
  split
  · rfl
  · split <;> simp

theorem size_addChild {f g : Forest} {p : NodeRef} {c : Option NodeRef}
    (h : f.addChild p c = .ok g) : g.size = f.size := by
  unfold addChild at h
  split at h
  · simp [refuse] at h
  · split at h
    · simp [refuse] at h
    · split at h
      · split at h
        · simp [refuse] at h
        · simp only [Except.ok.injEq] at h
          subst h
          simp only [size_modify]
          split
          · rfl
          · split <;> simp
      · simp only [Except.ok.injEq] at h
        subst h
        rfl

end Forest

end TestLauncher
