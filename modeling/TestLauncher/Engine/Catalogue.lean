import TestLauncher.Engine.Diary

/-! # Engines over a catalogue

    A catalogue lists the tests of some classes and tests that stand alone.  Its engine
    discovers a container with its tests for each selected class it knows, and then the
    tests that stand alone; executing reports the start and the end of every node. -/

namespace TestLauncher

/-- What an engine over a catalogue knows, and how it is to go wrong. -/
structure Catalogue where
  id : String
  /-- The tests of each class. -/
  tests : OrderedMap String (List String) := ∅
  /-- The tests that stand alone. -/
  alone : List String := []
  /-- The tags of each test. -/
  tags : OrderedMap String StringSet := ∅
  /-- The nodes that fail when executed. -/
  failing : List String := []
  /-- Whether discovery yields no root. -/
  rootless : Bool := false
  failDiscover? : Option Fault := none
  failExecute? : Option Fault := none

namespace Catalogue

/-- Adds the node of a test. -/
def growTest (c : Catalogue) (parent : UniqueId) (test : String) : Growing NodeRef := do
  let id ← Steps.ofExcept (parent.append "test" test)
  Forest.plant (Node.make (some id) test .test (c.tags.getD test ∅))

/-- Adds the tree of a class below a root. -/
def growClass (c : Catalogue) (root : NodeRef) (rootId : UniqueId) (name : String)
    (tests : List String) : Growing Unit := do
  let id ← Steps.ofExcept (rootId.append "class" name)
  let container ← Forest.plant
    (Node.make (some id) (Text.simpleName name) .container ∅ (some name))
  tests.forM fun test => do Forest.attach container (← c.growTest id test)
  Forest.attach root container

/-- The class names a request selects, in order. -/
def selectedClasses (request : DiscoveryRequest) : List String :=
  request.selectors.filterMap fun
    | .ofClass name => some name.text
    | _ => none

/-- Adds the tree for a request. -/
def growTree (c : Catalogue) (request : DiscoveryRequest) (id : UniqueId) : Growing NodeRef := do
  let root ← Forest.plant (Node.make (some id) c.id)
  (selectedClasses request).forM fun name =>
    match c.tests.get? name with
    | none => pure ()
    | some tests => c.growClass root id name tests
  c.alone.forM fun test => do Forest.attach root (← c.growTest id test)
  return root

/-- Discovers what the catalogue has for a request. -/
def discover (c : Catalogue) (number : Nat) (request : DiscoveryRequest) (id : UniqueId) :
    Steps (Forest × Diaries) (Option NodeRef) := do
  Diaries.enterDiscovery number id
  match c.failDiscover? with
  | some f => throw f
  | none =>
    if c.rootless then return none
    let root ← (c.growTree request id).first
    return some root

/-- How the execution of a node ends. -/
def resultFor (c : Catalogue) (name : String) : ExecutionResult :=
  if name ∈ c.failing then ⟨.failed, some (.testFailed name)⟩ else .successful

/-- Reports the start of a node, everything below it, and its end. -/
def executeNode (c : Catalogue) : Nat → NodeRef → Activity Diaries Unit
  | 0, _ => .fail .endlessDescent
  | n + 1, r => do
    .tell (.started r)
    .look fun (f, _) => do
      (f.children r).forM (c.executeNode n)
      .tell (.finished r (c.resultFor (((f.node? r).map Node.name).getD "")))

/-- Executes the tree below a root. -/
def execute (c : Catalogue) (number : Nat) (root : NodeRef) : Activity Diaries Unit := do
  .ofSteps (Diaries.enterExecution number)
  match c.failExecute? with
  | some f => .fail f
  | none => .look fun (f, _) => c.executeNode (f.size + 1) root

/-- The engine over a catalogue. -/
def engine (c : Catalogue) (number : Nat) : Engine Diaries where
  id := c.id
  discover := c.discover number
  execute root _ := c.execute number root

end Catalogue

end TestLauncher
