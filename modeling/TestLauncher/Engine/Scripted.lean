import TestLauncher.Engine.Diary

/-! # Scripted engines

    A script says what tree an engine discovers and what it does with each node when it
    executes: publish data, add nodes, fail, or skip the node.  A node of the tree may be
    meant only for requests with some selector, and a failure only for trees below a
    suite or only for those that are not. -/

namespace TestLauncher

/-- Where a failure of a script applies. -/
inductive Reach where
  | everywhere
  | inSuites
  | outsideSuites
deriving DecidableEq, Repr

/-- Whether a failure applies to a tree below the given id. -/
def Reach.covers : Reach → UniqueId → Bool
  | everywhere, _ => true
  | inSuites, id => id.segments.head? |>.any fun s => s.type = Segment.suiteType
  | outsideSuites, id => id.segments.head? |>.all fun s => s.type ≠ Segment.suiteType

/-- What a scripted engine does with a node. -/
inductive ScriptAction where
  /-- The node is skipped, and nothing else is done with it. -/
  | skip (reason : String)
  | publish (values : OrderedMap String Scalar)
  | publishParameters
  /-- A tree is added below the node. -/
  | extend (tree : NodeSpec)
  /-- A tree is added apart. -/
  | sprout (tree : NodeSpec)
  | raise (f : Fault)
  /-- The node ends with this result. -/
  | conclude (result : ExecutionResult)

/-- The number of nodes an action adds. -/
def ScriptAction.growth : ScriptAction → Nat
  | .extend tree => tree.size
  | .sprout tree => tree.size
  | _ => 0

/-- A tree of a script, and the selector it is meant for. -/
structure ScriptTree where
  selector? : Option Selector := none
  spec : NodeSpec

/-- What a scripted engine discovers and does. -/
structure Script where
  id : String
  trees : List ScriptTree := []
  rootName : String
  rootKind : NodeKind := .container
  rootTags : StringSet := ∅
  rootSource : Option String := none
  /-- The written form of the root's id, if it is not the one asked for. -/
  rootId? : Option String := none
  /-- Whether the root made last is returned again. -/
  reuse : Bool := false
  /-- Whether discovery yields no root. -/
  rootless : Bool := false
  failDiscover? : Option Fault := none
  failExecute? : Option Fault := none
  reach : Reach := .everywhere
  /-- What is done with the nodes of each name. -/
  actions : OrderedMap String (List ScriptAction) := ∅

namespace Script

/-- Adds the tree for a request. -/
def growTree (s : Script) (request : DiscoveryRequest) (id : UniqueId) : Growing NodeRef := do
  let id ← match s.rootId? with
    | none => pure id
    | some text => Steps.ofExcept (UniqueId.parse text)
  let root ← Forest.plant (Node.make (some id) s.rootName s.rootKind s.rootTags s.rootSource)
  Forest.growAll root <| (s.trees.filter fun t =>
    t.selector?.all fun x => decide (x ∈ request.selectors)).map ScriptTree.spec
  return root

/-- Discovers the tree of the script. -/
def discover (s : Script) (number : Nat) (request : DiscoveryRequest) (id : UniqueId) :
    Steps (Forest × Diaries) (Option NodeRef) := do
  Diaries.enterDiscovery number id
  let applies := s.reach.covers id
  match s.failDiscover?.filter fun _ => applies with
  | some f => throw f
  | none =>
    if s.rootless && applies then return none
    let (_, diaries) ← get
    match (diaries.of number).root?.filter fun _ => s.reuse with
    | some root => return some root
    | none =>
      let root ← (s.growTree request id).first
      Diaries.enterRoot number root
      return some root

/-- Publishes data about a node. -/
def publish (r : NodeRef) (values : OrderedMap String Scalar) : Activity Diaries Unit := do
  .tell (.published r (← .ofExcept (ReportEntry.ofValues values)))

/-- Adds a tree below a node or apart, and reports its root. -/
def extend (parent : Option NodeRef) (tree : NodeSpec) : Activity Diaries Unit := do
  .tell (.registered (← .ofSteps (Forest.grow parent tree).first))

/-- Does one thing with a node, and tells the result of the node known then. -/
def act (parameters : Parameters) (r : NodeRef) (result : ExecutionResult) :
    ScriptAction → Activity Diaries ExecutionResult
  | .skip _ => pure result
  | .publish values => do
    publish r values
    return result
  | .publishParameters => do
    publish r (OrderedMap.ofList (parameters.asMap.toList.map fun e => (e.1, .text e.2)))
    return result
  | .extend tree => do
    extend (some r) tree
    return result
  | .sprout tree => do
    extend none tree
    return result
  | .raise f => .fail f
  | .conclude result => pure result

/-- What is done with a node of some name. -/
def actionsFor (s : Script) (name : String) : List ScriptAction := s.actions.getD name []

/-- The reason for skipping a node, if it is to be skipped. -/
def skipReason? (actions : List ScriptAction) : Option String :=
  actions.findSome? fun
    | .skip reason => some reason
    | _ => none

/-- Does with a node what the script says, and goes on with the nodes below it. -/
def executeNode (s : Script) (parameters : Parameters) : Nat → NodeRef → Activity Diaries Unit
  | 0, _ => .fail .endlessDescent
  | n + 1, r =>
    .look fun (f, _) => do
      let actions := s.actionsFor (((f.node? r).map Node.name).getD "")
      match skipReason? actions with
      | some reason => .tell (.skipped r reason)
      | none =>
        .tell (.started r)
        let result ← actions.foldlM (act parameters r) .successful
        .look fun (f, _) => do
          (f.children r).forM (s.executeNode parameters n)
          .tell (.finished r result)

/-- How deep an execution may go: no deeper than there are nodes in the forest and in the
script. -/
def depthBound (s : Script) (f : Forest) : Nat :=
  s.actions.values.flatten.foldl (fun n a => n + a.growth) f.size + 2

/-- Executes the tree below a root. -/
def execute (s : Script) (number : Nat) (root : NodeRef) (parameters : Parameters) :
    Activity Diaries Unit := do
  .ofSteps (Diaries.enterExecution number)
  .look fun (f, _) =>
    match s.failExecute?.filter fun _ => (f.node? root).any fun n => s.reach.covers n.id with
    | some fault => .fail fault
    | none => s.executeNode parameters (s.depthBound f) root

/-- The engine that follows a script. -/
def engine (s : Script) (number : Nat) : Engine Diaries where
  id := s.id
  discover := s.discover number
  execute := s.execute number

end Script

end TestLauncher
