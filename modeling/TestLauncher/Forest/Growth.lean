import TestLauncher.Forest.Basic
import TestLauncher.Steps

/-! # Growing trees from descriptions

    A `NodeSpec` describes a tree before it has ids: each node says where its id comes
    from, and what it is.  `grow` builds a node, puts it under its parent, and only then
    grows its children, so whatever stood before a refused node stays in the forest. -/

namespace TestLauncher

/-- Where the id of a described node comes from. -/
inductive Place where
  /-- One more segment behind the id of the parent; the only segment where there is none. -/
  | below (type value : String)
  /-- The id with this written form. -/
  | written (text : String)
deriving DecidableEq, Inhabited

/-- The description of a tree. -/
structure NodeSpec where
  place : Place
  name : String
  kind : NodeKind := .container
  tags : StringSet := ∅
  source : Option String := none
  children : List NodeSpec := []
deriving Inhabited

/-- The id of a described node below a parent with the given id. -/
def Place.idBelow (parent : Option UniqueId) : Place → Except Fault UniqueId
  | written text => UniqueId.parse text
  | below type value =>
    match parent with
    | none => UniqueId.root type value
    | some id => id.append type value

/-- Steps that change a forest. -/
abbrev Growing := Steps Forest

namespace Forest

/-- Adds a node without links. -/
def plant (node : Except Fault Node) : Growing NodeRef := do
  let n ← Steps.ofExcept node
  modifyGet fun f => f.add n

/-- Puts a node under another. -/
def attach (parent child : NodeRef) : Growing Unit := do
  set (← Steps.ofExcept ((← get).addChild parent (some child)))

/-- Takes a node away from its parent, and its children away from it. -/
def uproot (r : NodeRef) : Growing Unit := do
  set (← Steps.ofExcept ((← get).detach r))

/-- Adds the node itself of a description, and puts it under its parent. -/
def growNode (parent : Option NodeRef) (place : Place) (name : String) (kind : NodeKind)
    (tags : StringSet) (source : Option String) : Growing NodeRef := do
  let f ← get
  let id ← Steps.ofExcept (place.idBelow ((parent.bind f.node?).map Node.id))
  let r ← plant (Node.make (some id) name kind tags source)
  match parent with
  | none => return r
  | some p =>
    attach p r
    return r

mutual

/-- Grows a described tree below a parent, or apart. -/
def grow (parent : Option NodeRef) : NodeSpec → Growing NodeRef
  | ⟨place, name, kind, tags, source, children⟩ => do
    let r ← growNode parent place name kind tags source
    growAll r children
    return r

/-- Grows described trees below a parent, one after the other. -/
def growAll (parent : NodeRef) : List NodeSpec → Growing Unit
  | [] => return
  | spec :: specs => do
    let _ ← grow (some parent) spec
    growAll parent specs

end

end Forest

mutual

/-- The number of nodes a description is about. -/
def NodeSpec.size : NodeSpec → Nat
  | ⟨_, _, _, _, _, children⟩ => NodeSpec.sizeAll children + 1

/-- The number of nodes a list of descriptions is about. -/
def NodeSpec.sizeAll : List NodeSpec → Nat
  | [] => 0
  | spec :: specs => spec.size + NodeSpec.sizeAll specs

end

end TestLauncher
