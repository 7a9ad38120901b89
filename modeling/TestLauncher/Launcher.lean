import TestLauncher.Resolution

/-! # The launcher

    A launcher has engines with ids of their own, perhaps a suite resolver, and listeners.
    It discovers: the request and those of its suites are resolved, and the trees make a
    plan.  It executes: the same, and then every engine executes the tree it discovered,
    result by result, between the start and the end of the plan and of each suite.  An
    engine that fails ends its own part only. -/

namespace TestLauncher

/-- What discovers and executes. -/
structure Launcher (κ ω ρ : Type) where
  engines : List (Engine κ)
  resolver? : Option (SuiteResolver ρ) := none
  /-- Whether an engine that returns no root is a fault rather than a note in the journal. -/
  strict : Bool := false
  /-- The listeners of every execution, in order. -/
  listeners : List (Listener ω) := []

namespace Launcher

variable {κ ω ρ : Type}

/-- The first id that stands in a list more than once. -/
def repeated? : List String → List String → Option String
  | _, [] => none
  | seen, id :: ids => if id ∈ seen then some id else repeated? (id :: seen) ids

/-- A launcher for some engines. -/
def create (engines : Option (List (Option (Engine κ)))) (resolver? : Option (SuiteResolver ρ))
    (strict : Bool) : Steps Journal (Launcher κ ω ρ) := do
  let engines ← Steps.ofExcept (Require.present engines "engines must not be None")
  let engines ← Steps.ofExcept
    (Require.allPresent engines "individual engines must not be None")
  if engines.isEmpty then throw .noEngines
  let ids := engines.map Engine.id
  match repeated? [] ids with
  | some id => throw (.sharedEngineId id)
  | none =>
    modify fun j => j.write <| LogLevel.debug.record "quiver.core.launcher"
      ("Launcher created with engines: " ++ Text.quoteList ids)
    return { engines, resolver?, strict }

/-- The launcher with more listeners. -/
def register (l : Launcher κ ω ρ) (more : List (Option (Listener ω))) :
    Except Fault (Launcher κ ω ρ) := do
  let more ← Require.notEmpty (some more) "listeners must not be empty"
  return { l with listeners := ← Listener.register l.listeners more }

/-- The resolutions of a request and of those of its suites. -/
def resolve (l : Launcher κ ω ρ) (phase : Phase) (request : DiscoveryRequest) :
    Run κ ω ρ (List (Resolution κ)) := do
  let further ← Expansion.ofRequest l.resolver? request
  (⟨request, none⟩ :: further).mapM (Resolution.ofRequest l.engines l.strict phase)

/-- The request, unless there is none. -/
def required (request : Option DiscoveryRequest) : Except Fault DiscoveryRequest :=
  Require.present request "DiscoveryRequest must not be None"

/-- The plan for a request. -/
def discover (l : Launcher κ ω ρ) (request : Option DiscoveryRequest) : Run κ ω ρ TestPlan := do
  Resolution.assemble (← l.resolve .discovery (← Steps.ofExcept (required request)))

/-- Tells listeners of an event. -/
def notify (listeners : List (Listener ω)) (e : Event) : Run κ ω ρ Unit :=
  Run.byListeners (Listener.fanOut listeners e)

/-- Tells listeners what an engine reports. -/
def relay (listeners : List (Listener ω)) (plan : TestPlan) (e : NodeEvent NodeRef) :
    Run κ ω ρ Unit := do
  let f := (← get).forest
  Run.byListeners (Listener.relay listeners plan f e)

/-- Has an engine execute its tree. -/
def executeEngine (listeners : List (Listener ω)) (plan : TestPlan) (parameters : Parameters)
    (engine : Engine κ) (root : NodeRef) : Run κ ω ρ Unit := do
  Run.log <| LogLevel.debug.record "quiver.core.execution" <|
    "Executing tests in engine '" ++ engine.id ++ "'."
  let _ ← Resolution.guarded engine "execute" <|
    Run.perform (relay listeners plan) (engine.execute root parameters)

/-- Has the engines of a resolution execute their trees, between the start and the end of the
suite if there is one. -/
def executeResolution (listeners : List (Listener ω)) (plan : TestPlan) (parameters : Parameters)
    (r : Resolution κ) : Run κ ω ρ Unit := do
  if let some suite := r.suiteIdentifier? then notify listeners (.about (.started suite))
  r.roots.forM fun e => executeEngine listeners plan parameters e.1 e.2
  if let some suite := r.suiteIdentifier? then
    notify listeners (.about (.finished suite .successful))

/-- Executes resolutions one after the other. -/
def dispatch (listeners : List (Listener ω)) (parameters : Parameters)
    (rs : List (Resolution κ)) : Run κ ω ρ Unit := do
  let plan ← Resolution.assemble rs
  notify listeners (.planStarted plan)
  rs.forM (executeResolution listeners plan parameters)
  notify listeners (.planFinished plan)

/-- Discovers and executes what a request is about; more listeners may listen in. -/
def execute (l : Launcher κ ω ρ) (request : Option DiscoveryRequest)
    (more : List (Option (Listener ω))) : Run κ ω ρ Unit := do
  let request ← Steps.ofExcept (required request)
  let listeners ← Steps.ofExcept (Listener.register l.listeners more)
  let rs ← l.resolve .execution request
  dispatch listeners request.parameters rs

end Launcher

end TestLauncher
