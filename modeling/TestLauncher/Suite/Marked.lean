import TestLauncher.Suite.Modules

/-! # Marked suites

    The resolver for marked classes loads the module behind a selector and reads the
    marks it finds there.  A class name is looked up in the longest of its leading parts
    that can be imported; the rest of the name is followed from there, attribute by
    attribute.  A module has the suites among its own members.  What was found once is
    remembered, also that nothing was found; a fault that passes is not.

    Only attributes that were set are followed (`follow`).  A name that goes on into one
    that everything has anyway, or from a module into one below it, leads nowhere here, and
    it is noted that there is no such class. -/

namespace TestLauncher

/-- What the resolver knows. -/
structure MarkedSuites where
  store : ModuleStore := {}
  /-- The suite of each class looked up so far. -/
  classes : OrderedMap String (Option SuiteDeclaration) := ∅
  /-- The suites of each module looked up so far. -/
  modules : OrderedMap String (List SuiteDeclaration) := ∅

instance : EmptyCollection MarkedSuites where
  emptyCollection := {}

namespace MarkedSuites

/-- Steps of looking for suites. -/
abbrev Looking := Steps (Journal × MarkedSuites)

/-- The logger of the resolver. -/
def logger : String := "quiver.adapters.suites.decorated"

/-- Writes to the journal. -/
def log (r : LogRecord) : Looking Unit := modify fun (j, m) => (j.write r, m)

/-- What became of an import. -/
inductive Imported where
  | found (scope : Namespace)
  /-- There is no such module, or it lacks one. -/
  | missing
  /-- The module failed otherwise. -/
  | broken (f : Fault)

/-- Imports a module; faults that are no exceptions pass. -/
def importModule (table : ModuleTable) (name : String) : Looking Imported := do
  let load : Looking Namespace := (table.load name).within (fun s => s.2.store)
    fun store s => (s.1, { s.2 with store })
  match ← load.outcome with
  | .ok scope => return .found scope
  | .error f =>
    if f.kind.isImport then return .missing
    else if f.isException then return .broken f
    else throw f

/-- Notes that a module failed, unless the fault must not be contained. -/
def noteBroken (name : String) (f : Fault) : Looking Unit := do
  Steps.ofExcept (rethrowUnrecoverable f)
  log <| LogLevel.warning.record logger
    ("Module '" ++ name ++ "' failed to import (" ++ f.kind.name ++ ": " ++ f.message ++
      "); not looking for suites in it.") (some f)

/-- The suites declared in a module: those of its members that belong to it. -/
def declaredIn (module : String) (scope : Namespace) : List SuiteDeclaration :=
  scope.values.filterMap fun
    | .value _ => none
    | .ofClass owner _ suite? _ => if owner = module then suite? else none

/-- Looks for the suites of a module. -/
def lookInModule (table : ModuleTable) (name : String) : Looking (List SuiteDeclaration) := do
  match ← importModule table name with
  | .found scope => return declaredIn name scope
  | .missing =>
    log <| LogLevel.debug.record logger <|
      "Could not import module '" ++ name ++ "'; it declares no suites."
    return []
  | .broken f =>
    noteBroken name f
    return []

/-- The member reached from a module by following attributes. -/
def follow (scope : Namespace) : List String → Option Member
  | [] => none
  | attr :: rest => (scope.get? attr).bind fun m => rest.foldlM Member.attribute? m

/-- The ways to part a dotted name into a module and attributes, the longest module first; neither
part is empty. -/
def partings (name : String) : List (String × List String) :=
  let parts := Text.components name
  (List.range parts.length).reverse.filterMap fun k =>
    if k = 0 then none else some (Text.ofComponents (parts.take k), parts.drop k)

/-- Notes that there is no such class. -/
def noteUnknown (name : String) : Looking (Option SuiteDeclaration) := do
  log <| LogLevel.debug.record logger <|
    "Could not import class '" ++ name ++ "'; not treating it as a suite."
  return none

/-- Looks for a class in the first module that can be imported. -/
def lookInFirst (table : ModuleTable) (name : String) :
    List (String × List String) → Looking (Option SuiteDeclaration)
  | [] => noteUnknown name
  | (module, attributes) :: rest => do
    match ← importModule table module with
    | .missing => lookInFirst table name rest
    | .broken f =>
      noteBroken module f
      return none
    | .found scope =>
      match follow scope attributes with
      | none => noteUnknown name
      | some m => return m.suite?

/-- Looks for the suite a class is. -/
def lookForClass (table : ModuleTable) (name : String) : Looking (Option SuiteDeclaration) :=
  lookInFirst table name (partings name)

/-- The suite a class is, from memory if it was looked up before. -/
def suiteOfClass (table : ModuleTable) (name : String) : Looking (Option SuiteDeclaration) := do
  match (← get).2.classes.get? name with
  | some known => return known
  | none =>
    let found ← lookForClass table name
    modify fun (j, m) => (j, { m with classes := m.classes.insert name found })
    return found

/-- The suites of a module, from memory if it was looked up before. -/
def suitesOfModule (table : ModuleTable) (name : String) : Looking (List SuiteDeclaration) := do
  match (← get).2.modules.get? name with
  | some known => return known
  | none =>
    let found ← lookInModule table name
    modify fun (j, m) => (j, { m with modules := m.modules.insert name found })
    return found

/-- The suites a selector reaches. -/
def suitesFor (table : ModuleTable) : Selector → Looking (List SuiteDeclaration)
  | .ofClass name => do return (← suiteOfClass table name.text).toList
  | .ofModule name => suitesOfModule table name.text
  | .ofMethod _ _ => return []
  | .ofUniqueId _ => return []

end MarkedSuites

/-- The resolver for the marked suites of a table of modules. -/
def ModuleTable.resolver (table : ModuleTable) : SuiteResolver MarkedSuites where
  suitesFor := MarkedSuites.suitesFor table

end TestLauncher
