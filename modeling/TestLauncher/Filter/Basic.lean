import TestLauncher.Fault
import TestLauncher.Collection.StringSet
import TestLauncher.Text.Blank

/-! # Filters

    A filter is a tree of rules.  Its rules are asked from left to right, and the first
    one that excludes or fails decides; so a filter answers as the list of its leaves
    does (`leaves`), however they are nested. -/

namespace TestLauncher

/-- A filter's answer, with a reason for people. -/
structure Verdict where
  included : Bool
  reason : Option String := none
deriving DecidableEq, Repr

/-- Whether a rule lets through what it lists, or everything else. -/
inductive Mode where
  | including
  | excluding
deriving DecidableEq, Repr

/-- The word for a mode. -/
def Mode.word : Mode → String
  | including => "include"
  | excluding => "exclude"

/-- Whether listed elements pass. -/
def Mode.isIncluding : Mode → Bool
  | including => true
  | excluding => false

/-- A filter over rules. -/
inductive Filter (ρ : Type) where
  /-- Lets everything through. -/
  | all
  | rule (r : ρ)
  /-- Lets through what every part lets through. -/
  | every (parts : List (Filter ρ))

/-- A rule supplied from outside: a label to show and compare it by, and its judgement. -/
structure CustomRule (ε : Type) where
  label : String
  judge : ε → Except Fault Verdict

namespace Filter

variable {ρ : Type}

mutual

/-- The answer of a filter, given the answers of its rules. -/
def apply (judge : ρ → Except Fault Verdict) : Filter ρ → Except Fault Verdict
  | all => .ok ⟨true, some "Always included"⟩
  | rule r => judge r
  | every parts => applyAll judge parts

/-- The answer of parts asked in turn: the first exclusion, if there is one. -/
def applyAll (judge : ρ → Except Fault Verdict) : List (Filter ρ) → Except Fault Verdict
  | [] => .ok ⟨true, some "Element was included by all filters."⟩
  | part :: parts =>
    match apply judge part with
    | .error e => .error e
    | .ok v => if v.included then applyAll judge parts else .ok v

end

mutual

/-- The rules of a filter from left to right. -/
def leaves : Filter ρ → List ρ
  | all => []
  | rule r => [r]
  | every parts => leavesAll parts

/-- The rules of a list of filters from left to right. -/
def leavesAll : List (Filter ρ) → List ρ
  | [] => []
  | part :: parts => leaves part ++ leavesAll parts

end

mutual

/-- Whether two filters have the same shape and rules that compare as equal. -/
def same (eq : ρ → ρ → Bool) : Filter ρ → Filter ρ → Bool
  | all, all => true
  | rule r, rule s => eq r s
  | every ps, every qs => sameAll eq ps qs
  | _, _ => false

/-- Whether two lists of filters agree part by part. -/
def sameAll (eq : ρ → ρ → Bool) : List (Filter ρ) → List (Filter ρ) → Bool
  | [], [] => true
  | p :: ps, q :: qs => same eq p q && sameAll eq ps qs
  | _, _ => false

end

mutual

/-- The written form of a filter, given that of its rules. -/
def shown (show' : ρ → String) : Filter ρ → String
  | all => "IncludeAll()"
  | rule r => show' r
  | every parts => "CompositeFilter(" ++ Text.bracketed (shownAll show' parts) ++ ")"

/-- The written forms of a list of filters. -/
def shownAll (show' : ρ → String) : List (Filter ρ) → List String
  | [] => []
  | part :: parts => shown show' part :: shownAll show' parts

end

/-- One filter for a list of them: none lets everything through, one stands for itself. -/
def compose (filters : List (Option (Filter ρ))) : Except Fault (Filter ρ) := do
  match ← Require.allPresent filters "filters must not contain None" with
  | [] => return all
  | [f] => return f
  | fs => return every fs

end Filter

/-- The texts of a list that are neither absent nor blank, without the white space around them. -/
def cleaned (values : List (Option String)) : List String :=
  values.filterMap fun v => v.bind fun s => if Text.isBlank s then none else some (Text.trim s)

end TestLauncher
