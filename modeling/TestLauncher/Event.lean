import TestLauncher.Identifier
import TestLauncher.Report
import TestLauncher.TestPlan

/-! # Events

    While a plan is executed, engines tell about nodes and the launcher about the plan.
    A `NodeEvent` is about a node in whatever form it is known: by reference for an
    engine, by identifier for a listener. -/

namespace TestLauncher

/-- Something that happened to a node. -/
inductive NodeEvent (α : Type) where
  /-- The node was added while the plan was being executed. -/
  | registered (node : α)
  /-- The node will not be started. -/
  | skipped (node : α) (reason : String)
  | started (node : α)
  | finished (node : α) (result : ExecutionResult)
  /-- Data was published about the node. -/
  | published (node : α) (entry : ReportEntry)
deriving DecidableEq

namespace NodeEvent

variable {α β : Type}

/-- The node an event is about. -/
def node : NodeEvent α → α
  | registered a => a
  | skipped a _ => a
  | started a => a
  | finished a _ => a
  | published a _ => a

/-- The same event about the node in another form. -/
def map (g : α → β) : NodeEvent α → NodeEvent β
  | registered a => registered (g a)
  | skipped a reason => skipped (g a) reason
  | started a => started (g a)
  | finished a result => finished (g a) result
  | published a entry => published (g a) entry

@[simp] theorem node_map (g : α → β) (e : NodeEvent α) : (e.map g).node = g e.node := by
  cases e <;> rfl

@[simp] theorem map_id (e : NodeEvent α) : e.map id = e := by
  cases e <;> rfl

end NodeEvent

/-- Something a listener is told. -/
inductive Event where
  | planStarted (plan : TestPlan)
  | planFinished (plan : TestPlan)
  | about (e : NodeEvent Identifier)
deriving DecidableEq

/-- The word for an event. -/
def Event.word : Event → String
  | planStarted _ => "plan_started"
  | planFinished _ => "plan_finished"
  | about (.registered _) => "dynamic"
  | about (.skipped _ _) => "skipped"
  | about (.started _) => "started"
  | about (.finished _ _) => "finished"
  | about (.published _ _) => "entry"

/-- The identifier under which listeners know a node: that of the plan when the plan has its id,
and that of the node as it stands otherwise. -/
def TestPlan.identifierOf? (plan : TestPlan) (f : Forest) (r : NodeRef) : Option Identifier :=
  (f.node? r).bind fun n => (plan.identifiers.get? n.id.render).or (f.identifier? r)

/-- What listeners are told of an engine's event: the same, about the identifier of the node. -/
def TestPlan.identify? (plan : TestPlan) (f : Forest) (e : NodeEvent NodeRef) :
    Option (NodeEvent Identifier) :=
  (plan.identifierOf? f e.node).map fun i => e.map fun _ => i

end TestLauncher
