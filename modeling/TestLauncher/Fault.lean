import TestLauncher.Text.Quoted

/-! # Faults

    Whatever can go wrong is a value of `Fault`: one constructor per cause, and one for
    what a plug-in raises.  Each has a kind and a message; the kind decides how far it
    travels.  A failure boundary catches a fault when it `isException`, and passes it on
    all the same when it `isUnrecoverable`. -/

namespace TestLauncher

/-- The kind of a fault. -/
inductive FaultKind where
  | general
  | precondition
  | launcher
  | contract
  | runtime
  | value
  | type
  | assertion
  | noAttribute
  | importing
  | moduleNotFound
  | memory
  | subMemory
  | recursion
  | keyboardInterrupt
  | systemExit
  | pattern
  | settings
  | validation
deriving DecidableEq, Repr

namespace FaultKind

/-- The word a kind is written with. -/
def name : FaultKind → String
  | general => "QuiverError"
  | precondition => "PreconditionViolationError"
  | launcher => "LauncherError"
  | contract => "EngineContractViolation"
  | runtime => "RuntimeError"
  | value => "ValueError"
  | type => "TypeError"
  | assertion => "AssertionError"
  | noAttribute => "AttributeError"
  | importing => "ImportError"
  | moduleNotFound => "ModuleNotFoundError"
  | memory => "MemoryError"
  | subMemory => "SubMemoryError"
  | recursion => "RecursionError"
  | keyboardInterrupt => "KeyboardInterrupt"
  | systemExit => "SystemExit"
  | pattern => "error"
  | settings => "SettingsError"
  | validation => "ValidationError"

/-- Whether a failure boundary catches faults of this kind at all. -/
def isException : FaultKind → Bool
  | keyboardInterrupt => false
  | systemExit => false
  | _ => true

/-- Whether a failure boundary must pass faults of this kind on: memory has run out. -/
def isUnrecoverable : FaultKind → Bool
  | memory => true
  | subMemory => true
  | _ => false

/-- Whether faults of this kind say that a module cannot be imported. -/
def isImport : FaultKind → Bool
  | importing => true
  | moduleNotFound => true
  | _ => false

theorem isException_of_isUnrecoverable {k : FaultKind} (h : k.isUnrecoverable = true) :
    k.isException = true := by
  cases k <;> simp_all [isUnrecoverable, isException]

end FaultKind

/-- Which documented condition a caller did not keep. -/
inductive Refusal where
  | blankSegmentType
  | reservedSegmentType (type : String)
  | blankSegmentValue
  | noSegments
  | emptyUniqueId
  | malformedUniqueId (text : String)
  | noUniqueId
  | blankDisplayName
  | noChild
  | ownChild
  | sharedChildId (parent child : String)
  | detachedRoot (id : String)
  | emptyEntry
  | blankEntryKey
  | blankClassName
  | blankModuleName
  | blankMethodName
  | blankParameterKey
  | blankLookupKey
  | notBoolean (key value : String)
  | noEngineIds
  | noTags
  | noPatterns
  | noModuleNames
  | repeatedPlanId (id : String)
  | blankPlanId
  | unknownPlanId (id : String)
  /-- A condition stated by the caller of a check, in its own words. -/
  | stated (message : String)
deriving DecidableEq, Repr

namespace Refusal

/-- The text of a refusal. -/
def message : Refusal → String
  | blankSegmentType => "segment type must be a non-empty string"
  | reservedSegmentType type =>
    "segment type must not contain ':', '[' or ']', got " ++ Text.quote type
  | blankSegmentValue => "segment value must be a non-empty string"
  | noSegments => "a UniqueId needs at least one segment"
  | emptyUniqueId => "cannot parse an empty unique ID"
  | malformedUniqueId text => "malformed unique ID: " ++ Text.quote text
  | noUniqueId => "unique_id must not be None"
  | blankDisplayName => "display_name must be a non-empty string"
  | noChild => "child must not be None"
  | ownChild => "a node cannot be its own child"
  | sharedChildId parent child => parent ++ " already has a child with unique ID " ++ child
  | detachedRoot id => "cannot remove root node " ++ id ++ " from its hierarchy"
  | emptyEntry => "a report entry needs at least one value"
  | blankEntryKey => "report entry keys must be non-empty strings"
  | blankClassName => "class_name must be a non-empty string"
  | blankModuleName => "module_name must be a non-empty string"
  | blankMethodName => "method_name must be a non-empty string"
  | blankParameterKey => "configuration parameter key must not be blank"
  | blankLookupKey => "key must be a non-empty string"
  | notBoolean key value =>
    "configuration parameter '" ++ key ++ "' is not a boolean: " ++ Text.quote value
  | noEngineIds => "engine IDs must not be empty"
  | noTags => "tags must not be empty"
  | noPatterns => "patterns must not be empty"
  | noModuleNames => "module names must not be empty"
  | repeatedPlanId id => "duplicate unique ID in test plan: " ++ id
  | blankPlanId => "unique_id must be a non-empty string"
  | unknownPlanId id =>
    "no Identifier with unique ID [" ++ id ++ "] has been added to this TestPlan"
  | stated message => message

end Refusal

/-- What went wrong. -/
inductive Fault where
  /-- A caller or a plug-in did not keep a documented condition. -/
  | refused (cause : Refusal)
  /-- A launcher needs at least one engine. -/
  | noEngines
  /-- Two engines of one launcher have the same id. -/
  | sharedEngineId (id : String)
  /-- An entry point could not be loaded or instantiated. -/
  | unloadable (name value reason : String)
  /-- An entry point provides something else than what its group is for. -/
  | wrongRole (name value role : String)
  /-- An engine returned no root node. -/
  | missingRoot (engineId : String)
  /-- A regular expression is malformed. -/
  | malformedPattern
  /-- A suite selects neither a class nor a module. -/
  | suiteSelectsNothing
  /-- A suite declaration stands on something that is not a class. -/
  | suiteOnValue (shown : String)
  /-- A module was asked for under the empty name. -/
  | emptyModuleName
  /-- A module was asked for by a name relative to nothing. -/
  | relativeModuleName (name : String)
  /-- There is no module of this name. -/
  | unknownModule (name : String)
  /-- A module or class has no attribute of this name. -/
  | unknownAttribute (owner name : String)
  /-- A summary was asked for before any plan execution had started. -/
  | neverStarted
  /-- A test failed. -/
  | testFailed (name : String)
  /-- A descent along child links met no end. -/
  | endlessDescent
  /-- The environment holds a text that cannot be read as a value of its setting. -/
  | unreadableSetting (field : String)
  /-- These settings have values out of their range. -/
  | invalidSettings (fields : List String)
  /-- Raised by a plug-in, with or without a text. -/
  | raised (kind : FaultKind) (text : Option String)
deriving DecidableEq, Repr

namespace Fault

/-- The kind of a fault. -/
def kind : Fault → FaultKind
  | refused _ => .precondition
  | noEngines => .launcher
  | sharedEngineId _ => .launcher
  | unloadable _ _ _ => .launcher
  | wrongRole _ _ _ => .launcher
  | missingRoot _ => .contract
  | malformedPattern => .pattern
  | suiteSelectsNothing => .value
  | suiteOnValue _ => .value
  | emptyModuleName => .value
  | relativeModuleName _ => .type
  | unknownModule _ => .moduleNotFound
  | unknownAttribute _ _ => .noAttribute
  | neverStarted => .runtime
  | testFailed _ => .assertion
  | endlessDescent => .recursion
  | unreadableSetting _ => .settings
  | invalidSettings _ => .validation
  | raised kind _ => kind

/-- The text a fault carries; a plug-in may raise one without. -/
def text? : Fault → Option String
  | refused cause => some cause.message
  | noEngines =>
    some ("Cannot create Launcher without at least one engine; " ++
      "consider installing an engine distribution")
  | sharedEngineId id =>
    some ("Cannot create Launcher for multiple engines with the same ID '" ++ id ++ "'.")
  | unloadable name value reason =>
    some ("Failed to load entry point '" ++ name ++ "' (" ++ value ++ "): " ++ reason)
  | wrongRole name value role =>
    some ("Entry point '" ++ name ++ "' (" ++ value ++ ") does not provide a " ++ role)
  | missingRoot engineId =>
    some ("The discover() method for engine with ID '" ++ engineId ++
      "' must return a non-None root node.")
  | malformedPattern => some "malformed pattern"
  | suiteSelectsNothing => some "a suite must select at least one class or module"
  | suiteOnValue shown => some ("@suite can only decorate classes, got " ++ shown)
  | emptyModuleName => some "Empty module name"
  | relativeModuleName name =>
    some ("the 'package' argument is required to perform a relative import for " ++ Text.quote name)
  | unknownModule name => some ("No module named " ++ Text.quote name)
  | unknownAttribute owner name =>
    some (owner ++ " has no attribute '" ++ name ++ "'")
  | neverStarted => some "no test plan execution has been started"
  | testFailed name => some (name ++ " failed")
  | endlessDescent => some "maximum recursion depth exceeded"
  | unreadableSetting field => some ("error parsing value for field " ++ field)
  | invalidSettings fields => some ("invalid settings: " ++ String.intercalate ", " fields)
  | raised _ text => text

/-- The message of a fault; empty when it carries no text. -/
def message (f : Fault) : String := f.text?.getD ""

/-- The fault as it would be constructed: its kind, and its text in quotes. -/
def shown (f : Fault) : String :=
  f.kind.name ++ "(" ++ (f.text?.map Text.quote).getD "" ++ ")"

/-- Whether a failure boundary catches this fault at all. -/
def isException (f : Fault) : Bool := f.kind.isException

/-- Whether a failure boundary must pass this fault on. -/
def isUnrecoverable (f : Fault) : Bool := f.kind.isUnrecoverable

end Fault

/-- Fails with a refusal. -/
def refuse {ε : Type} (cause : Refusal) : Except Fault ε := .error (.refused cause)

/-- A chain of checks succeeds only if each of them does. -/
theorem bind_eq_ok {α β : Type} {result : Except Fault α} {next : α → Except Fault β} {b : β}
    (h : result >>= next = .ok b) : ∃ a, result = .ok a ∧ next a = .ok b := by
  cases result with
  | error f => cases h
  | ok a => exact ⟨a, rfl, h⟩

namespace Require

/-- The value, unless it is absent. -/
def present {α : Type} (value : Option α) (message : String) : Except Fault α :=
  match value with
  | none => refuse (.stated message)
  | some v => .ok v

/-- The items, unless they are absent or there are none. -/
def notEmpty {α : Type} (values : Option (List α)) (message : String) : Except Fault (List α) :=
  match values with
  | none => refuse (.stated message)
  | some [] => refuse (.stated message)
  | some (v :: vs) => .ok (v :: vs)

/-- The items, unless one of them is absent. -/
def allPresent {α : Type} (values : List (Option α)) (message : String) : Except Fault (List α) :=
  match values.mapM id with
  | none => refuse (.stated message)
  | some vs => .ok vs

theorem allPresent_map_some {α : Type} (vs : List α) (message : String) :
    allPresent (vs.map some) message = .ok vs := by
  have : (vs.map some).mapM id = some vs := by
    induction vs with
    | nil => rfl
    | cons v vs ih => simp [ih]
  simp [allPresent, this]

theorem allPresent_eq_ok_iff {α : Type} {values : List (Option α)} {vs : List α}
    {message : String} : allPresent values message = .ok vs ↔ values = vs.map some := by
  refine ⟨fun h => ?_, fun h => h ▸ allPresent_map_some vs message⟩
  unfold allPresent at h
  split at h
  · cases h
  · rename_i ws hws
    cases h
    clear message
    induction values generalizing vs with
    | nil => cases hws; rfl
    | cons v values ih =>
      cases v with
      | none => simp at hws
      | some a =>
        simp only [List.mapM_cons, id_eq, Option.bind_eq_bind, Option.bind_some] at hws
        obtain ⟨us, hus, h⟩ := Option.bind_eq_some_iff.mp hws
        cases h
        exact congrArg (some a :: ·) (ih hus)

end Require

/-- Passes an unrecoverable fault on, and accepts every other. -/
def rethrowUnrecoverable (f : Fault) : Except Fault Unit :=
  if f.isUnrecoverable then .error f else .ok ()

end TestLauncher
