import TestLauncher.Forest.Walk
import TestLauncher.Identifier

/-! # Test plans

    A plan is the flat index of the trees below some roots: every node's identifier under
    its id text, in pre-order, and under each id the identifiers of the children, in
    order.  Two nodes with one id text cannot be in one plan. -/

namespace TestLauncher

/-- The index of the nodes below some roots. -/
structure TestPlan where
  roots : List Identifier := []
  /-- Every identifier under its id, in order of discovery. -/
  identifiers : OrderedMap String Identifier := ∅
  /-- The identifiers whose parent has an id. -/
  children : OrderedMap String (List Identifier) := ∅
deriving DecidableEq

namespace TestPlan

/-- The index with one more identifier, unless its id is taken. -/
def push (plan : TestPlan) (i : Identifier) : Except Fault TestPlan :=
  if plan.identifiers.contains i.id then refuse (.repeatedPlanId i.id)
  else
    let identifiers := plan.identifiers.insert i.id i
    match i.parentId with
    | none => .ok { plan with identifiers }
    | some p =>
      let siblings := plan.children.getD p []
      .ok { plan with identifiers, children := plan.children.insert p (siblings ++ [i]) }

/-- Puts the identifier of a node into the plan under construction. -/
def index (f : Forest) (r : NodeRef) : StateT TestPlan (Except Fault) Unit := do
  match f.identifier? r with
  | none => return
  | some i =>
    let plan ← get
    set (← plan.push i)

/-- The plan of the trees below some roots. -/
def ofRoots (f : Forest) (roots : List NodeRef) : Except Fault TestPlan := do
  let (_, plan) ← (roots.forM (Forest.accept (pure f) (index f))).run {}
  let ids := roots.filterMap fun r => (f.node? r).map fun n => n.id.render
  return { plan with roots := ids.filterMap plan.identifiers.get? }

/-- Whether the plan has an identifier with this id. -/
def contains (plan : TestPlan) (id : String) : Bool := plan.identifiers.contains id

/-- The identifier with an id. -/
def get (plan : TestPlan) (id : String) : Except Fault Identifier :=
  if Text.isBlank id then refuse .blankPlanId
  else
    match plan.identifiers.get? id with
    | none => refuse (.unknownPlanId id)
    | some i => .ok i

/-- The identifier of the parent; roots have none. -/
def parentOf (plan : TestPlan) (i : Identifier) : Option Identifier :=
  if i ∈ plan.roots then none else i.parentId.bind plan.identifiers.get?

/-- The identifiers of the children of the node with an id, in order. -/
def childrenOf (plan : TestPlan) (id : String) : List Identifier := plan.children.getD id []

/-- The identifiers below an id: each child, then what is below it. -/
def descendantsFrom (plan : TestPlan) : Nat → String → Except Fault (List Identifier)
  | 0, _ => .error .endlessDescent
  | n + 1, id => do
    let below ← (plan.childrenOf id).mapM fun c => do return c :: (← plan.descendantsFrom n c.id)
    return below.flatten

/-- The number of identifiers. -/
def size (plan : TestPlan) : Nat := plan.identifiers.size

/-- The identifiers below another: each child, then what is below it. -/
def descendantsOf (plan : TestPlan) (i : Identifier) : Except Fault (List Identifier) :=
  plan.descendantsFrom (plan.size + 2) i.id

/-- The number of identifiers with a property. -/
def count (plan : TestPlan) (p : Identifier → Bool) : Nat := plan.identifiers.values.countP p

/-- Whether any identifier is a test. -/
def containsTests (plan : TestPlan) : Bool := plan.identifiers.values.any Identifier.isTest

/-- The written form of a plan. -/
def shown (plan : TestPlan) : String :=
  "TestPlan(roots=" ++ Text.quoteList (plan.roots.map Identifier.id) ++
    ", size=" ++ toString plan.size ++ ")"

end TestPlan

end TestLauncher
