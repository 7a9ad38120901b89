import TestLauncher.Forest.Basic

/-! # Identifiers

    An identifier is the picture of a node that listeners see: its own id and that of its
    parent as texts, and what it is, without links. -/

namespace TestLauncher

/-- The immutable picture of a node. -/
structure Identifier where
  id : String
  parentId : Option String
  name : String
  kind : NodeKind
  tags : StringSet := ∅
  source : Option String := none
deriving DecidableEq

namespace Identifier

/-- Whether the identified node is a test. -/
def isTest (i : Identifier) : Bool := i.kind.isTest

/-- Whether the identified node is a container. -/
def isContainer (i : Identifier) : Bool := i.kind.isContainer

/-- The written form of a set of tags. -/
def shownTags (tags : StringSet) : String :=
  if tags.toList.isEmpty then "frozenset()"
  else
    "frozenset(\x7b" ++ String.intercalate ", " (tags.toList.map Text.quote) ++ "\x7d)"

/-- The written form of an identifier, field by field. -/
def shown (i : Identifier) : String :=
  "Identifier(unique_id=" ++ Text.quote i.id ++
    ", parent_id=" ++ Text.quote? i.parentId ++
    ", display_name=" ++ Text.quote i.name ++
    ", type=<NodeType." ++ i.kind.capitals ++ ": " ++ Text.quote i.kind.word ++ ">" ++
    ", tags=" ++ shownTags i.tags ++
    ", source=" ++ Text.quote? i.source ++ ")"

end Identifier

/-- The picture of a node as it stands in the forest. -/
def Forest.identifier? (f : Forest) (r : NodeRef) : Option Identifier := do
  let n ← f.node? r
  return {
    id := n.id.render
    parentId := (n.parent.bind f.node?).map fun p => p.id.render
    name := n.name
    kind := n.kind
    tags := n.tags
    source := n.source }

end TestLauncher
