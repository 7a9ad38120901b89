import TestLauncher.Suite.Declaration

/-! # Suite marks

    A mark makes a class a suite: it says which classes and modules the suite selects,
    and what it includes and excludes.  A mark can be wrong in itself, and it can stand on
    something that is no class. -/

namespace TestLauncher

/-- The arguments of a suite mark.  A list of filter values that is empty stands for no filter. -/
structure SuiteMark where
  /-- The dotted names of the selected classes. -/
  selectClasses : List String := []
  selectModules : List String := []
  includeTags : List (Option String) := []
  excludeTags : List (Option String) := []
  includeEngines : List (Option String) := []
  excludeEngines : List (Option String) := []
  /-- Patterns for the names of classes. -/
  includeClasses : List (Option String) := []
  excludeClasses : List (Option String) := []
  includeModules : List (Option String) := []
  excludeModules : List (Option String) := []
  /-- The name shown to people; the name of the class where there is none. -/
  displayName : Option String := none

namespace SuiteMark

/-- The filter for a list of values, if there are any. -/
def filterOf {ρ σ : Type} (rule : σ → ρ) (make : Mode → List (Option String) → Except Fault σ)
    (mode : Mode) (values : List (Option String)) : Except Fault (List (Filter ρ)) :=
  if values.isEmpty then .ok []
  else do return [.rule (rule (← make mode values))]

/-- The selectors of a mark; there has to be one. -/
def selectors (m : SuiteMark) : Except Fault (List Selector) := do
  let classes ← m.selectClasses.mapM Selector.byClass
  let modules ← m.selectModules.mapM Selector.byModule
  if (classes ++ modules).isEmpty then throw .suiteSelectsNothing
  return classes ++ modules

/-- The engine filters of a mark. -/
def engineFilters (m : SuiteMark) : Except Fault (List EngineFilter) := do
  let included ← filterOf .ids EngineIdRule.make .including m.includeEngines
  let excluded ← filterOf .ids EngineIdRule.make .excluding m.excludeEngines
  return included ++ excluded

/-- The node filters of a mark. -/
def nodeFilters (m : SuiteMark) : Except Fault (List NodeFilter) := do
  let includedTags ← filterOf .tags TagRule.make .including m.includeTags
  let excludedTags ← filterOf .tags TagRule.make .excluding m.excludeTags
  let includedClasses ← filterOf .classNames PatternRule.make .including m.includeClasses
  let excludedClasses ← filterOf .classNames PatternRule.make .excluding m.excludeClasses
  let includedModules ← filterOf .modules ModuleRule.make .including m.includeModules
  let excludedModules ← filterOf .modules ModuleRule.make .excluding m.excludeModules
  return includedTags ++ excludedTags ++ includedClasses ++ excludedClasses ++
    includedModules ++ excludedModules

/-- What a mark says, of whatever it stands on. -/
structure Content where
  selectors : List Selector
  engineFilters : List EngineFilter
  nodeFilters : List NodeFilter
  displayName : Option String

/-- What a mark says, or what is wrong with it. -/
def content (m : SuiteMark) : Except Fault Content := do
  let selectors ← m.selectors
  let engineFilters ← m.engineFilters
  let nodeFilters ← m.nodeFilters
  return ⟨selectors, engineFilters, nodeFilters, m.displayName⟩

/-- The declaration of a marked class of a module; the last name is the one the class itself
bears. -/
def Content.declaration (c : Content) (module qualifiedName ownName : String) :
    SuiteDeclaration where
  name := className module qualifiedName
  displayName := (c.displayName.filter (· ≠ "")).getD ownName
  selectors := c.selectors
  engineFilters := c.engineFilters
  nodeFilters := c.nodeFilters

end SuiteMark

end TestLauncher
