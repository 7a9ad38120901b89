import TestLauncher.Forest.Sifting
import TestLauncher.Suite.Expansion

/-! # Resolving requests

    A request is resolved engine by engine: those that no filter excludes discover a tree
    each, and the trees are sifted and pruned.  An engine that fails is noted in the
    journal and left out; only a fault that is no exception, or one that says that memory
    has run out, ends the resolution.  The trees of a suite's request hang below the node
    of the suite.

    The roots are listed with their engines.  The engines that a request is resolved with are
    taken to be different from each other, as those of a launcher are: one that stood in the
    list twice would be listed with both its roots, not with the later one alone. -/

namespace TestLauncher

/-- What a request is resolved for. -/
inductive Phase where
  | discovery
  | execution
deriving DecidableEq, Repr

/-- The word for a phase. -/
def Phase.word : Phase → String
  | discovery => "discovery"
  | execution => "execution"

/-- What a request was resolved to: the roots of the engines that discovered something. -/
structure Resolution (κ : Type) where
  suite? : Option NodeRef := none
  /-- The identifier of the suite's node. -/
  suiteIdentifier? : Option Identifier := none
  roots : List (Engine κ × NodeRef) := []

namespace Resolution

variable {κ ω ρ : Type}

/-- The engines that discovered something, in order. -/
def engines (r : Resolution κ) : List (Engine κ) := r.roots.map Prod.fst

/-- The roots a plan is made of: the node of the suite, or the roots of the engines. -/
def planRoots (r : Resolution κ) : List NodeRef :=
  match r.suite? with
  | some suite => [suite]
  | none => r.roots.map Prod.snd

/-- The roots of a plan for several resolutions. -/
def allRoots (rs : List (Resolution κ)) : List NodeRef := rs.flatMap planRoots

/-- The written form of a resolution. -/
def shown (r : Resolution κ) : String :=
  "ResolvedResult(suite=" ++ ((r.suiteIdentifier?.map Identifier.shown).getD "None") ++
    ", engines=" ++ Text.quoteList (r.engines.map Engine.id) ++ ")"

/-- The plan for several resolutions. -/
def assemble (rs : List (Resolution κ)) : Run κ ω ρ TestPlan := do
  Steps.ofExcept (TestPlan.ofRoots (← get).forest (allRoots rs))

/-- Notes that an engine failed, and passes the fault on if it must not be contained. -/
def contain (engine : Engine κ) (deed : String) (f : Fault) : Run κ ω ρ Unit := do
  Run.log <| LogLevel.warning.record Forest.logger
    ("Engine with ID '" ++ engine.id ++ "' failed to " ++ deed ++ " tests: " ++ f.message) (some f)
  Steps.ofExcept (rethrowUnrecoverable f)

/-- Runs what an engine does: the value it ends with, and none when it fails with an exception
that can be contained. -/
def guarded {α : Type} (engine : Engine κ) (deed : String) (steps : Run κ ω ρ α) :
    Run κ ω ρ (Option α) := do
  match ← steps.outcome with
  | .ok a => return some a
  | .error f =>
    if f.isException then
      contain engine deed f
      return none
    else throw f

/-- Whether a filter excludes an engine; the filters are asked up to the first that does. -/
def excludes (filters : List EngineFilter) (engineId : String) : Except Fault Bool :=
  filters.anyM fun filter => do return !(← filter.verdict engineId).included

/-- The id for the root of an engine's tree. -/
def rootId (suite? : Option UniqueId) (engineId : String) : Except Fault UniqueId :=
  match suite? with
  | none => UniqueId.forEngine engineId
  | some id => id.append Segment.engineType engineId

/-- The root an engine discovers; none when it fails or, unless contracts are strict, when it
returns none. -/
def discoverRoot (strict : Bool) (engine : Engine κ) (rooted : RootedRequest) :
    Run κ ω ρ (Option NodeRef) := do
  let f := (← get).forest
  let id ← Steps.ofExcept (rootId ((rooted.suite?.bind f.node?).map Node.id) engine.id)
  match ← guarded engine "discover" (Run.byEngine (engine.discover rooted.request id)) with
  | none => return none
  | some (some root) => return some root
  | some none =>
    let violation := Fault.missingRoot engine.id
    if strict then throw violation
    Run.log (LogLevel.error.record Forest.logger violation.message)
    return none

/-- The resolution with the tree of one more engine, which is put below the suite's node. -/
def addRoot (r : Resolution κ) (engine : Engine κ) (root : NodeRef) :
    Run κ ω ρ (Resolution κ) := do
  match r.suite? with
  | none => pure ()
  | some suite => Run.onForest (Forest.attach suite root).first
  return { r with roots := r.roots ++ [(engine, root)] }

/-- The resolution with what one more engine discovers. -/
def addEngine (phase : Phase) (strict : Bool) (rooted : RootedRequest) (r : Resolution κ)
    (engine : Engine κ) : Run κ ω ρ (Resolution κ) := do
  if ← Steps.ofExcept (excludes rooted.request.engineFilters engine.id) then
    Run.log <| LogLevel.debug.record Forest.logger <|
      "Test discovery for engine '" ++ engine.id ++
        "' was skipped due to an engine filter in phase '" ++ phase.word ++ "'."
    return r
  else
    Run.log <| LogLevel.debug.record Forest.logger <|
      "Discovering tests during launcher " ++ phase.word ++ " phase in engine '" ++
        engine.id ++ "'."
    match ← discoverRoot strict engine rooted with
    | none => return r
    | some root => addRoot r engine root

/-- Takes away what the filters exclude from the trees of a resolution. -/
def sift (filters : List NodeFilter) (r : Resolution κ) : Run κ ω ρ Unit := do
  let filter ← Steps.ofExcept (Filter.compose (filters.map some))
  r.roots.forM fun e => Run.onForest (Forest.sift filter e.2)

/-- Takes away the branches without tests from the trees of a resolution. -/
def prune (r : Resolution κ) : Run κ ω ρ Unit :=
  r.roots.forM fun e => Run.onForest (Forest.prune e.2).first

/-- Resolves a request with some engines. -/
def ofRequest (engines : List (Engine κ)) (strict : Bool) (phase : Phase)
    (rooted : RootedRequest) : Run κ ω ρ (Resolution κ) := do
  let f := (← get).forest
  let r ← engines.foldlM (addEngine phase strict rooted)
    { suite? := rooted.suite?, suiteIdentifier? := rooted.suite?.bind f.identifier? }
  sift rooted.request.nodeFilters r
  prune r
  return r

end Resolution

end TestLauncher
