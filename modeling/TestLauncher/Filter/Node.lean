import TestLauncher.Filter.Basic
import TestLauncher.Forest.Basic
import TestLauncher.Pattern.Match

/-! # Node filters

    After discovery, node filters decide which nodes without children stay: by their
    tags, by their display name, or by the class they come from.  That class is the
    source of the node or of the nearest node above it, below the root of the engine's
    tree; nodes without any pass. -/

namespace TestLauncher

/-- Lets through the nodes that carry one of the listed tags, or the others. -/
structure TagRule where
  tags : StringSet
  mode : Mode
deriving DecidableEq

namespace TagRule

/-- The rule for a list of tags; blank ones do not count, and one must remain. -/
def make (mode : Mode) (values : List (Option String)) : Except Fault TagRule :=
  match cleaned values with
  | [] => refuse .noTags
  | tags => .ok ⟨StringSet.ofList tags, mode⟩

/-- The written form of a rule. -/
def shown (r : TagRule) : String :=
  "TagFilter(" ++ r.mode.word ++ "=" ++ Text.quoteList r.tags.toList ++ ")"

/-- The verdict on a set of tags. -/
def judge (r : TagRule) (tags : StringSet) : Verdict :=
  let included := tags.intersects r.tags == r.mode.isIncluding
  let outcome := if included then " match " else " do not match "
  ⟨included, some ("Tags " ++ Text.quoteList tags.toList ++ outcome ++ r.shown)⟩

end TagRule

/-- Lets through the names that one of the patterns matches as a whole, or the others. -/
structure PatternRule where
  patterns : List Pattern
  mode : Mode
deriving DecidableEq

namespace PatternRule

/-- The rule for a list of patterns; empty ones do not count, and one must remain. -/
def make (mode : Mode) (values : List (Option String)) : Except Fault PatternRule := do
  match ← (values.filterMap fun v => v.filter (· ≠ "")).mapM Pattern.compile with
  | [] => refuse .noPatterns
  | patterns => return ⟨patterns, mode⟩

/-- The first pattern that matches a name as a whole. -/
def match? (r : PatternRule) (name : String) : Option Pattern :=
  r.patterns.find? fun p => p.fits name

/-- The verdict on a name, written with the given words in front of it. -/
def judge (r : PatternRule) (subject name : String) : Verdict :=
  let named := subject ++ "'" ++ name ++ "' "
  match r.mode, r.match? name with
  | .including, some p => ⟨true, some (named ++ "matches '" ++ p.text ++ "'")⟩
  | .including, none => ⟨false, some (named ++ "matches no included pattern")⟩
  | .excluding, some p => ⟨false, some (named ++ "matches excluded pattern '" ++ p.text ++ "'")⟩
  | .excluding, none => ⟨true, some (named ++ "matches no excluded pattern")⟩

end PatternRule

/-- Lets through the sources that lie in one of the listed modules, or the others. -/
structure ModuleRule where
  modules : List String
  mode : Mode
deriving DecidableEq

namespace ModuleRule

/-- The rule for a list of module names; blank ones do not count, and one must remain. -/
def make (mode : Mode) (values : List (Option String)) : Except Fault ModuleRule :=
  match cleaned values with
  | [] => refuse .noModuleNames
  | modules => .ok ⟨modules, mode⟩

/-- Whether a source is a module or lies below it. -/
def covers (module source : String) : Bool :=
  source = module || (module.toList ++ ['.']).isPrefixOf source.toList

/-- The first listed module that covers a source. -/
def match? (r : ModuleRule) (source : String) : Option String :=
  r.modules.find? fun m => covers m source

/-- The verdict on a source. -/
def judge (r : ModuleRule) (source : String) : Verdict :=
  let named := "'" ++ source ++ "' "
  match r.mode, r.match? source with
  | .including, some m => ⟨true, some (named ++ "is in included module '" ++ m ++ "'")⟩
  | .including, none => ⟨false, some (named ++ "is in no included module")⟩
  | .excluding, some m => ⟨false, some (named ++ "is in excluded module '" ++ m ++ "'")⟩
  | .excluding, none => ⟨true, some (named ++ "is in no excluded module")⟩

end ModuleRule

/-- The source of a node or of the nearest node above it that has one, before a root is reached. -/
def Forest.sourceFrom (f : Forest) : Nat → NodeRef → Option String
  | 0, _ => none
  | n + 1, r => do
    let x ← f.node? r
    if x.id.last.isRoot then none
    else
      match x.source.filter (· ≠ "") with
      | some s => some s
      | none => f.sourceFrom n (← x.parent)

/-- The class a node belongs to. -/
def Forest.sourceName (f : Forest) (r : NodeRef) : Option String := f.sourceFrom (f.size + 1) r

/-- A rule about nodes. -/
inductive NodeRule where
  | tags (r : TagRule)
  | displayNames (r : PatternRule)
  | classNames (r : PatternRule)
  | modules (r : ModuleRule)
  | custom (r : CustomRule (Forest × NodeRef))

namespace NodeRule

/-- The verdict on the source of a node; a node without one passes. -/
def judgeSource (f : Forest) (r : NodeRef) (n : Node) (judge : String → Verdict) : Verdict :=
  match f.sourceName r with
  | none => ⟨true, some ("'" ++ n.name ++ "' has no source")⟩
  | some s => judge s

/-- The verdict of a rule on a node of a forest. -/
def judge (f : Forest) (r : NodeRef) : NodeRule → Except Fault Verdict
  | custom rule => rule.judge (f, r)
  | rule =>
    match f.node? r with
    | none => .ok ⟨true, none⟩
    | some n =>
      .ok <| match rule with
        | tags rule => rule.judge n.tags
        | displayNames rule => rule.judge "" n.name
        | classNames rule => judgeSource f r n (rule.judge "Class ")
        | modules rule => judgeSource f r n rule.judge
        | custom _ => ⟨true, none⟩

/-- Whether two rules compare as equal. -/
def same : NodeRule → NodeRule → Bool
  | tags r, tags s => r = s
  | displayNames r, displayNames s => r = s
  | classNames r, classNames s => r = s
  | modules r, modules s => r = s
  | custom r, custom s => r.label = s.label
  | _, _ => false

/-- The written form of a rule over patterns or module names. -/
def shownList (name : String) (mode : Mode) (texts : List String) : String :=
  name ++ "(" ++ mode.word ++ "=" ++ Text.quoteList texts ++ ")"

/-- The written form of a rule. -/
def shown : NodeRule → String
  | tags r => r.shown
  | displayNames r => shownList "DisplayNameFilter" r.mode (r.patterns.map Pattern.text)
  | classNames r => shownList "ClassNameFilter" r.mode (r.patterns.map Pattern.text)
  | modules r => shownList "ModuleNameFilter" r.mode r.modules
  | custom r => r.label

end NodeRule

/-- A filter on nodes. -/
abbrev NodeFilter := Filter NodeRule

/-- The verdict of a filter on a node of a forest. -/
def NodeFilter.verdict (f : NodeFilter) (forest : Forest) (r : NodeRef) : Except Fault Verdict :=
  f.apply (NodeRule.judge forest r)

end TestLauncher
