import TestLauncher.Filter.Basic

/-! # Engine filters

    Before discovery, engine filters decide by id which engines take part.

    A rule supplied from outside judges by the id as well.  It cannot be given the engine:
    an engine discovers for a request, and the request has these filters in it.  Nor does it
    need to be.  The engines of a launcher have ids of their own, so whatever such a rule
    makes of each of them is a function of the id. -/

namespace TestLauncher

/-- Lets through the engines with one of the listed ids, or the others. -/
structure EngineIdRule where
  ids : StringSet
  mode : Mode
deriving DecidableEq

namespace EngineIdRule

/-- The rule for a list of ids; blank ones do not count, and one must remain. -/
def make (mode : Mode) (values : List (Option String)) : Except Fault EngineIdRule :=
  match cleaned values with
  | [] => refuse .noEngineIds
  | ids => .ok ⟨StringSet.ofList ids, mode⟩

/-- The verdict on an engine id. -/
def judge (r : EngineIdRule) (engineId : String) : Verdict :=
  let listed := decide (engineId ∈ r.ids)
  let place := if listed then "is in " else "is not in "
  let list := match r.mode with
    | .including => "included list"
    | .excluding => "excluded list"
  ⟨listed == r.mode.isIncluding, some ("Engine ID '" ++ engineId ++ "' " ++ place ++ list)⟩

/-- The written form of a rule. -/
def shown (r : EngineIdRule) : String :=
  "EngineFilter(" ++ r.mode.word ++ "=" ++ Text.quoteList r.ids.toList ++ ")"

end EngineIdRule

/-- A rule about engines. -/
inductive EngineRule where
  | ids (r : EngineIdRule)
  | custom (r : CustomRule String)

namespace EngineRule

/-- The verdict of a rule on an engine id. -/
def judge (engineId : String) : EngineRule → Except Fault Verdict
  | ids r => .ok (r.judge engineId)
  | custom r => r.judge engineId

/-- Whether two rules compare as equal. -/
def same : EngineRule → EngineRule → Bool
  | ids r, ids s => r = s
  | custom r, custom s => r.label = s.label
  | _, _ => false

/-- The written form of a rule. -/
def shown : EngineRule → String
  | ids r => r.shown
  | custom r => r.label

end EngineRule

/-- A filter on engines. -/
abbrev EngineFilter := Filter EngineRule

/-- The verdict of a filter on an engine id. -/
def EngineFilter.verdict (f : EngineFilter) (engineId : String) : Except Fault Verdict :=
  f.apply (EngineRule.judge engineId)

end TestLauncher
