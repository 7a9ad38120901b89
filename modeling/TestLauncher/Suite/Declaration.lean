import TestLauncher.DiscoveryRequest
import TestLauncher.Journal

/-! # Suites

    A suite has a name and selects on its own; it may add filters.  A resolver tells
    which suites a selector reaches. -/

namespace TestLauncher

/-- What a suite declares. -/
structure SuiteDeclaration where
  name : String
  displayName : String
  selectors : List Selector
  engineFilters : List EngineFilter := []
  nodeFilters : List NodeFilter := []

/-- Something that finds the suites behind selectors; it acts on a state `ρ` and may write to the
journal. -/
structure SuiteResolver (ρ : Type) where
  suitesFor : Selector → Steps (Journal × ρ) (List SuiteDeclaration)

/-- Suites in tables by class name and by module name. -/
structure SuiteTables where
  classes : OrderedMap String SuiteDeclaration := ∅
  modules : OrderedMap String (List SuiteDeclaration) := ∅

namespace SuiteTables

/-- The suites a selector reaches. -/
def suitesFor (tables : SuiteTables) : Selector → List SuiteDeclaration
  | .ofClass name => (tables.classes.get? name.text).toList
  | .ofModule name => tables.modules.getD name.text []
  | .ofMethod _ _ => []
  | .ofUniqueId _ => []

/-- The resolver that looks suites up. -/
def resolver {ρ : Type} (tables : SuiteTables) : SuiteResolver ρ where
  suitesFor s := pure (tables.suitesFor s)

end SuiteTables

end TestLauncher
