import TestLauncher.World

/-! # Suite expansion

    A request that selects a suite stands for more than itself: for each suite its
    selectors reach, once, there is a further request below a node of its own.  That
    request selects what the suite declares, under the filters of both, with the
    parameters of the first.  Suites selected by a suite are not expanded. -/

namespace TestLauncher

/-- A request, and the node of the suite it stands for. -/
structure RootedRequest where
  request : DiscoveryRequest
  suite? : Option NodeRef := none

/-- The request of a suite within another request. -/
def SuiteDeclaration.nested (d : SuiteDeclaration) (parent : DiscoveryRequest) :
    DiscoveryRequest where
  selectors := d.selectors
  engineFilters := parent.engineFilters ++ d.engineFilters
  nodeFilters := parent.nodeFilters ++ d.nodeFilters
  parameters := parent.parameters

/-- The node of a suite, or what is wrong with its names. -/
def SuiteDeclaration.node (d : SuiteDeclaration) : Except Fault Node := do
  let id ← UniqueId.root Segment.suiteType d.name
  Node.make (some id) d.displayName .container ∅ (some d.name)

namespace Expansion

/-- The logger of suite expansion. -/
def logger : String := "quiver.core.suites"

variable {κ ω ρ : Type}

/-- The further request of a suite. -/
def expand (request : DiscoveryRequest) (d : SuiteDeclaration) : Run κ ω ρ RootedRequest := do
  Run.log <| LogLevel.debug.record logger <|
    "Expanding suite '" ++ d.name ++ "' with " ++ toString d.selectors.length ++ " selector(s)."
  let suite ← Run.onForest (Forest.plant d.node).first
  return ⟨d.nested request, some suite⟩

/-- Further requests, and the names of the suites they are for. -/
structure Expanded where
  rooted : List RootedRequest := []
  names : List String := []

/-- Adds the request of a suite, unless there is one for its name. -/
def addSuite (request : DiscoveryRequest) (done : Expanded) (d : SuiteDeclaration) :
    Run κ ω ρ Expanded := do
  if d.name ∈ done.names then return done
  else return ⟨done.rooted ++ [← expand request d], done.names ++ [d.name]⟩

/-- Adds the requests of the suites a selector reaches. -/
def addReached (resolver : SuiteResolver ρ) (request : DiscoveryRequest) (done : Expanded)
    (s : Selector) : Run κ ω ρ Expanded := do
  (← Run.byResolver (resolver.suitesFor s)).foldlM (addSuite request) done

/-- The further requests of a request. -/
def ofRequest (resolver? : Option (SuiteResolver ρ)) (request : DiscoveryRequest) :
    Run κ ω ρ (List RootedRequest) :=
  match resolver? with
  | none => return []
  | some resolver => do
    return (← request.selectors.foldlM (addReached resolver request) {}).rooted

end Expansion

end TestLauncher
