import TestLauncher.Scalar
import TestLauncher.Suite.Mark

/-! # Modules with suites

    A module binds attributes to members: plain values, and classes, which may be marked
    as suites and have attributes of their own.  A table describes the modules there are.
    A module is built when it is first asked for, member by member, and asks for the
    modules it takes members from; it counts as loaded once it is complete.  Whoever asks
    for a module is written down.

    What a table says of a module is what becomes of importing it as a whole: the modules
    that its name leads through are not asked for first, and need not be in the table.  Only
    what is set counts as an attribute (`Member.attribute?`).  Attributes that everything
    has without setting them are left out, those of plain values among them, and so is the
    binding of a module below another one as an attribute of that. -/

namespace TestLauncher

/-- A member of a module.  The attributes of a class are its own, before those it inherits. -/
inductive Member where
  | value (v : Scalar)
  | ofClass (module qualifiedName : String) (suite? : Option SuiteDeclaration)
      (attributes : List (String × Member))

namespace Member

/-- The attribute of a member under a name, among those that were set; a plain value has none. -/
def attribute? (m : Member) (name : String) : Option Member :=
  match m with
  | value _ => none
  | ofClass _ _ _ attributes => attributes.lookup name

/-- The declaration a member carries. -/
def suite? : Member → Option SuiteDeclaration
  | value _ => none
  | ofClass _ _ suite? _ => suite?

/-- The attributes of a member. -/
def attributes : Member → List (String × Member)
  | value _ => []
  | ofClass _ _ _ attributes => attributes

/-- The dotted name of a class. -/
def className? : Member → Option String
  | value _ => none
  | ofClass module qualifiedName _ _ => some (className module qualifiedName)

end Member

/-- The attributes of a module, in the order in which they were first set. -/
abbrev Namespace := OrderedMap String Member

/-- A class that a suite mark selects. -/
inductive ClassChoice where
  | named (name : String)
  /-- The class under an attribute of the module the mark is in. -/
  | member (attr : String)

/-- The description of a suite mark. -/
structure MarkSpec where
  selectClasses : List ClassChoice := []
  mark : SuiteMark

/-- The description of a member. -/
inductive MemberSpec where
  | value (v : Scalar) (mark? : Option MarkSpec)
  /-- A class with its own attributes; it may belong to another module, and inherit from a class
  of this one. -/
  | ofClass (name : String) (module? base? : Option String) (members : List (String × MemberSpec))
      (mark? : Option MarkSpec)
  /-- The member under another attribute of this module. -/
  | sameAs (attr : String)
  /-- The member under an attribute of another module. -/
  | taken (module attr : String)
deriving Inhabited

/-- The description of a module: a fault for one that cannot be imported. -/
abbrev ModuleSpec := Except Fault (List (String × MemberSpec))

/-- The modules there are. -/
abbrev ModuleTable := OrderedMap String ModuleSpec

/-- The modules loaded so far, and the names asked for. -/
structure ModuleStore where
  loaded : OrderedMap String Namespace := ∅
  requests : List String := []

namespace ModuleStore

/-- The member of a module under an attribute. -/
def memberOf (module : String) (scope : Namespace) (attr : String) :
    Except Fault Member :=
  match scope.get? attr with
  | none => .error (.unknownAttribute ("module " ++ Text.quote module) attr)
  | some m => .ok m

/-- The dotted name of a class that a mark selects. -/
def chosenClass (module : String) (scope : Namespace) : ClassChoice → Except Fault String
  | .named name => .ok name
  | .member attr => do return ((← memberOf module scope attr).className?).getD ""

/-- What a mark in a module says. -/
def markContent (module : String) (scope : Namespace) (spec : MarkSpec) :
    Except Fault SuiteMark.Content := do
  let classes ← spec.selectClasses.mapM (chosenClass module scope)
  { spec.mark with selectClasses := classes }.content

variable (load : String → Steps ModuleStore Namespace) (module : String)

mutual

/-- Builds a member of a module with the given attributes; `outer` leads to a nested class. -/
def build (scope : Namespace) (outer : String) : MemberSpec → Steps ModuleStore Member
  | .value v none => return .value v
  | .value v (some mark) => do
    let _ ← Steps.ofExcept (markContent module scope mark)
    throw (.suiteOnValue v.quoted)
  | .ofClass name owner? base? members mark? => do
    let qualifiedName := outer ++ name
    let own ← buildInner scope (qualifiedName ++ ".") members ∅
    let inherited ← match base? with
      | none => pure []
      | some base => pure (← Steps.ofExcept (memberOf module scope base)).attributes
    let owner := owner?.getD module
    let suite? ← match mark? with
      | none => pure none
      | some mark => do
        let content ← Steps.ofExcept (markContent module scope mark)
        pure (some (content.declaration owner qualifiedName name))
    return .ofClass owner qualifiedName suite? (own.toList ++ inherited)
  | .sameAs attr => Steps.ofExcept (memberOf module scope attr)
  | .taken other attr => do
    Steps.ofExcept (memberOf other (← load other) attr)

/-- Builds the attributes of a class. -/
def buildInner (scope : Namespace) (outer : String) :
    List (String × MemberSpec) → Namespace → Steps ModuleStore Namespace
  | [], own => return own
  | (attr, spec) :: rest, own => do
    let m ← build scope outer spec
    buildInner scope outer rest (own.insert attr m)

end

/-- Builds the attributes of a module, each in sight of those before it. -/
def buildAll (members : List (String × MemberSpec)) : Steps ModuleStore Namespace :=
  members.foldlM (fun scope e => do return scope.insert e.1 (← build load module scope "" e.2)) ∅

end ModuleStore

namespace ModuleTable

/-- Whether a module name starts with a dot. -/
def isRelative (name : String) : Bool := name.toList.head? = some '.'

/-- The module of a name, built if it is not loaded; modules ask for others no deeper than there
are modules, unless they do so in a circle.  The modules that the name leads through are no part
of this: the table has the outcome of the whole import. -/
def loadFrom (table : ModuleTable) : Nat → String → Steps ModuleStore Namespace
  | 0, _ => throw .endlessDescent
  | n + 1, name => do
    modify fun s => { s with requests := s.requests ++ [name] }
    match (← get).loaded.get? name with
    | some scope => return scope
    | none =>
      if name = "" then throw .emptyModuleName
      if isRelative name then throw (.relativeModuleName name)
      match table.get? name with
      | none => throw (.unknownModule name)
      | some (.error f) => throw f
      | some (.ok members) =>
        let scope ← ModuleStore.buildAll (table.loadFrom n) name members
        modify fun s => { s with loaded := s.loaded.insert name scope }
        return scope

/-- The module of a name, built if it is not loaded. -/
def load (table : ModuleTable) (name : String) : Steps ModuleStore Namespace :=
  table.loadFrom (table.size + 1) name

end ModuleTable

end TestLauncher
