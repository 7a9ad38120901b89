import TestLauncher.Forest.Basic

/-! # Walks through a forest

    Every walk goes along child links.  On a tree none of them goes deeper than the
    forest has nodes; a walk that does is on a cycle and ends with a fault.  The two walks
    with a visitor read the children of a node when they come to it, so the visitor may
    take nodes away: in pre-order the children are read after the node was visited, in
    post-order before the first of them is entered. -/

namespace TestLauncher.Forest

/-- How deep a walk may go. -/
def depthBound (f : Forest) : Nat := f.size + 1

/-- The nodes below a node: each child, then the nodes below it. -/
def descendantsFrom (f : Forest) : Nat → NodeRef → Except Fault (List NodeRef)
  | 0, _ => .error .endlessDescent
  | n + 1, r => do
    let below ← (f.children r).mapM fun c => do return c :: (← f.descendantsFrom n c)
    return below.flatten

/-- The nodes below a node: each child, then the nodes below it. -/
def descendants (f : Forest) (r : NodeRef) : Except Fault (List NodeRef) :=
  f.descendantsFrom f.depthBound r

/-- The nodes of the tree below a node, children before parents. -/
def postOrderFrom (f : Forest) : Nat → NodeRef → Except Fault (List NodeRef)
  | 0, _ => .error .endlessDescent
  | n + 1, r => do
    let below ← (f.children r).mapM (f.postOrderFrom n)
    return below.flatten ++ [r]

/-- The nodes of the tree below a node, children before parents. -/
def postOrder (f : Forest) (r : NodeRef) : Except Fault (List NodeRef) :=
  f.postOrderFrom f.depthBound r

/-- Whether the tree below a node holds a test; stops at the first one. -/
def hasTestsFrom (f : Forest) : Nat → NodeRef → Except Fault Bool
  | 0, _ => .error .endlessDescent
  | n + 1, r => if f.isTest r then .ok true else (f.children r).anyM (f.hasTestsFrom n)

/-- Whether the tree below a node holds a test. -/
def hasTests (f : Forest) (r : NodeRef) : Except Fault Bool := f.hasTestsFrom f.depthBound r

/-- The first node with an id in the tree below a node; stops there. -/
def findFrom (f : Forest) (id : UniqueId) : Nat → NodeRef → Except Fault (Option NodeRef)
  | 0, _ => .error .endlessDescent
  | n + 1, r =>
    if (f.node? r).any fun x => x.id = id then .ok (some r)
    else (f.children r).findSomeM? (f.findFrom id n)

/-- The first node with an id in the tree below a node. -/
def find? (f : Forest) (id : UniqueId) (r : NodeRef) : Except Fault (Option NodeRef) :=
  f.findFrom id f.depthBound r

/-! ## Walks with a visitor -/

variable {m : Type → Type} [Monad m] [MonadExceptOf Fault m]

/-- Visits a node, then reads its children and visits the tree below each. -/
def acceptFrom (look : m Forest) (visit : NodeRef → m Unit) : Nat → NodeRef → m Unit
  | 0, _ => throw .endlessDescent
  | n + 1, r => do
    visit r
    let f ← look
    (f.children r).forM (acceptFrom look visit n)

/-- Visits the tree below a node, parents before children. -/
def accept (look : m Forest) (visit : NodeRef → m Unit) (r : NodeRef) : m Unit := do
  let f ← look
  acceptFrom look visit f.depthBound r

/-- Reads the children of a node, visits the tree below each, then the node. -/
def visitPostOrderFrom (look : m Forest) (visit : NodeRef → m Unit) : Nat → NodeRef → m Unit
  | 0, _ => throw .endlessDescent
  | n + 1, r => do
    let f ← look
    (f.children r).forM (visitPostOrderFrom look visit n)
    visit r

/-- Visits the tree below a node, children before parents. -/
def visitPostOrder (look : m Forest) (visit : NodeRef → m Unit) (r : NodeRef) : m Unit := do
  let f ← look
  visitPostOrderFrom look visit f.depthBound r

end TestLauncher.Forest
