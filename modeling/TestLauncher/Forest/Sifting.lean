import TestLauncher.Filter.Node
import TestLauncher.Forest.Growth
import TestLauncher.Forest.Walk
import TestLauncher.Journal

/-! # Sifting and pruning trees

    Both walks visit the tree below a root in post-order and take nodes without children
    away; the root stays.  Sifting takes away those that a filter excludes, and notes each
    of them in the journal; pruning takes away those that are not tests.  A node whose
    children were all taken away counts as one without children when its turn comes. -/

namespace TestLauncher.Forest

/-- The logger of discovery. -/
def logger : String := "quiver.core.discovery"

/-- The line about a node that is taken away. -/
def removalRecord (n : Node) (v : Verdict) : LogRecord :=
  LogLevel.debug.record logger ("Removing " ++ n.id.render ++ ": " ++ v.reason.getD "None")

/-- Takes a node away if a filter excludes it; the root, and nodes with children, are not asked
about. -/
def siftNode (filter : NodeFilter) (root r : NodeRef) : Steps (Forest × Journal) Unit := do
  let (f, j) ← get
  match f.node? r with
  | none => pure ()
  | some n =>
    if r = root || !n.children.isEmpty then pure ()
    else
      let v ← Steps.ofExcept (filter.verdict f r)
      if v.included then pure ()
      else
        set (f, j.write (removalRecord n v))
        (uproot r).first

/-- Takes away what a filter excludes from the tree below a root. -/
def sift (filter : NodeFilter) (root : NodeRef) : Steps (Forest × Journal) Unit :=
  visitPostOrder (do return (← get).1) (siftNode filter root) root

/-- Takes a node away if it has no children and is not a test. -/
def pruneNode (root r : NodeRef) : Steps Forest Unit := do
  let f ← get
  match f.node? r with
  | none => pure ()
  | some n =>
    if r = root || !n.children.isEmpty || n.kind.isTest then pure ()
    else uproot r

/-- Takes away the branches without tests from the tree below a root. -/
def prune (root : NodeRef) : Steps Forest Unit := visitPostOrder get (pruneNode root) root

end TestLauncher.Forest
