import TestLauncher.Filter.Node

/-! # Including and excluding the same

    Each kind of rule on nodes comes in two modes, and its values are cleaned alike for
    both.  So the rules made from one list of values are opposed: they list the same, and
    what one of them lets through the other one does not (`Opposed.judge`).  The exception
    is a node without a source, which the rules that judge by sources are blind to: both let
    it through. -/

namespace TestLauncher

/-- The kinds of rules on nodes that a list of values makes. -/
inductive RuleKind where
  | tags
  | displayNames
  | classNames
  | modules
deriving DecidableEq

namespace RuleKind

/-- The rule of a kind for a list of values, if they are accepted. -/
def make (mode : Mode) (values : List (Option String)) : RuleKind → Except Fault NodeRule
  | tags => do return .tags (← TagRule.make mode values)
  | displayNames => do return .displayNames (← PatternRule.make mode values)
  | classNames => do return .classNames (← PatternRule.make mode values)
  | modules => do return .modules (← ModuleRule.make mode values)

/-- Whether the rules of a kind have nothing to judge by when this is the source of a node. -/
def blindTo (source? : Option String) : RuleKind → Bool
  | tags | displayNames => false
  | classNames | modules => source?.isNone

/-- Rules of one kind that list the same, the first to let it through and the second to let
    through everything else. -/
inductive Opposed : RuleKind → NodeRule → NodeRule → Prop where
  | tags (ts : StringSet) : Opposed tags (.tags ⟨ts, .including⟩) (.tags ⟨ts, .excluding⟩)
  | displayNames (ps : List Pattern) :
      Opposed displayNames (.displayNames ⟨ps, .including⟩) (.displayNames ⟨ps, .excluding⟩)
  | classNames (ps : List Pattern) :
      Opposed classNames (.classNames ⟨ps, .including⟩) (.classNames ⟨ps, .excluding⟩)
  | modules (ms : List String) :
      Opposed modules (.modules ⟨ms, .including⟩) (.modules ⟨ms, .excluding⟩)

end RuleKind

/-! ## Making rules -/

section

variable {mode : Mode} {values : List (Option String)}

theorem TagRule.make_eq_ok {r : TagRule} (h : make mode values = .ok r) :
    r = ⟨StringSet.ofList (cleaned values), mode⟩ := by
  rw [make] at h
  cases hc : cleaned values with
  | nil =>
      rw [hc] at h
      cases h
  | cons t ts =>
      rw [hc] at h
      cases h
      rfl

theorem ModuleRule.make_eq_ok {r : ModuleRule} (h : make mode values = .ok r) :
    r = ⟨cleaned values, mode⟩ := by
  rw [make] at h
  cases hc : cleaned values with
  | nil =>
      rw [hc] at h
      cases h
  | cons m ms =>
      rw [hc] at h
      cases h
      rfl

theorem PatternRule.make_eq_ok {r : PatternRule} (h : make mode values = .ok r) :
    ∃ ps, (values.filterMap fun v => v.filter (· ≠ "")).mapM Pattern.compile = .ok ps ∧
      r = ⟨ps, mode⟩ := by
  obtain ⟨ps, hps, h⟩ := bind_eq_ok h
  refine ⟨ps, hps, ?_⟩
  cases ps with
  | nil => cases h
  | cons p ps =>
      cases h
      rfl

theorem PatternRule.make_opposed {r s : PatternRule} (hr : make .including values = .ok r)
    (hs : make .excluding values = .ok s) :
    ∃ ps, r = ⟨ps, .including⟩ ∧ s = ⟨ps, .excluding⟩ := by
  obtain ⟨ps, hps, rfl⟩ := make_eq_ok hr
  obtain ⟨ps', hps', rfl⟩ := make_eq_ok hs
  rw [hps] at hps'
  cases hps'
  exact ⟨ps, rfl, rfl⟩

/-- **Rules made from the same values are opposed.** -/
theorem RuleKind.opposed_of_make {kind : RuleKind} {inc exc : NodeRule}
    (hin : kind.make .including values = .ok inc) (hex : kind.make .excluding values = .ok exc) :
    kind.Opposed inc exc := by
  cases kind with
  | tags =>
      obtain ⟨r, hr, hin⟩ := bind_eq_ok hin
      obtain ⟨s, hs, hex⟩ := bind_eq_ok hex
      cases hin
      cases hex
      rw [TagRule.make_eq_ok hr, TagRule.make_eq_ok hs]
      exact .tags _
  | displayNames =>
      obtain ⟨r, hr, hin⟩ := bind_eq_ok hin
      obtain ⟨s, hs, hex⟩ := bind_eq_ok hex
      cases hin
      cases hex
      obtain ⟨ps, rfl, rfl⟩ := PatternRule.make_opposed hr hs
      exact .displayNames ps
  | classNames =>
      obtain ⟨r, hr, hin⟩ := bind_eq_ok hin
      obtain ⟨s, hs, hex⟩ := bind_eq_ok hex
      cases hin
      cases hex
      obtain ⟨ps, rfl, rfl⟩ := PatternRule.make_opposed hr hs
      exact .classNames ps
  | modules =>
      obtain ⟨r, hr, hin⟩ := bind_eq_ok hin
      obtain ⟨s, hs, hex⟩ := bind_eq_ok hex
      cases hin
      cases hex
      rw [ModuleRule.make_eq_ok hr, ModuleRule.make_eq_ok hs]
      exact .modules _

end

/-! ## Judging -/

theorem TagRule.included_excluding (ts tags : StringSet) :
    (judge ⟨ts, .excluding⟩ tags).included = !(judge ⟨ts, .including⟩ tags).included := by
  show (tags.intersects ts == false) = !(tags.intersects ts == true)
  cases tags.intersects ts <;> rfl

theorem PatternRule.included_excluding (ps : List Pattern) (subject name : String) :
    (judge ⟨ps, .excluding⟩ subject name).included
      = !(judge ⟨ps, .including⟩ subject name).included := by
  have hsame : match? ⟨ps, .excluding⟩ name = match? ⟨ps, .including⟩ name := rfl
  rw [judge, judge, hsame]
  cases match? ⟨ps, .including⟩ name <;> rfl

theorem ModuleRule.included_excluding (ms : List String) (source : String) :
    (judge ⟨ms, .excluding⟩ source).included = !(judge ⟨ms, .including⟩ source).included := by
  have hsame : match? ⟨ms, .excluding⟩ source = match? ⟨ms, .including⟩ source := rfl
  rw [judge, judge, hsame]
  cases match? ⟨ms, .including⟩ source <;> rfl

/-- What two verdicts say together: both let through what there is nothing to judge by, and
    otherwise exactly one of them lets through. -/
def Verdict.Split (blind : Bool) (v v' : Verdict) : Prop :=
  if blind then v.included = true ∧ v'.included = true else v'.included = !v.included

/-- Opposite judgements on a source, made judgements on the node. -/
theorem NodeRule.judgeSource_split {j j' : String → Verdict}
    (h : ∀ s, (j' s).included = !(j s).included) (f : Forest) (r : NodeRef) (n : Node) :
    Verdict.Split (f.sourceName r).isNone (judgeSource f r n j) (judgeSource f r n j') := by
  rw [judgeSource, judgeSource]
  cases f.sourceName r with
  | none => exact ⟨rfl, rfl⟩
  | some s => exact h s

/-- **Opposed rules** answer about every node, and exactly one of them lets it through, unless there
    is nothing to judge by. -/
theorem RuleKind.Opposed.judge {kind : RuleKind} {inc exc : NodeRule} {f : Forest} {r : NodeRef}
    {n : Node} (h : kind.Opposed inc exc) (hn : f.node? r = some n) :
    ∃ v v', inc.judge f r = .ok v ∧ exc.judge f r = .ok v' ∧
      Verdict.Split (kind.blindTo (f.sourceName r)) v v' := by
  cases h with
  | tags ts =>
      refine ⟨_, _, ?_, ?_, TagRule.included_excluding ts n.tags⟩ <;>
        simp only [NodeRule.judge, hn]
  | displayNames ps =>
      refine ⟨_, _, ?_, ?_, PatternRule.included_excluding ps "" n.name⟩ <;>
        simp only [NodeRule.judge, hn]
  | classNames ps =>
      refine ⟨_, _, ?_, ?_, NodeRule.judgeSource_split
        (PatternRule.included_excluding ps "Class ") f r n⟩ <;> simp only [NodeRule.judge, hn]
  | modules ms =>
      refine ⟨_, _, ?_, ?_, NodeRule.judgeSource_split
        (ModuleRule.included_excluding ms) f r n⟩ <;> simp only [NodeRule.judge, hn]

/-- They are rules of the library. -/
theorem RuleKind.Opposed.not_custom {kind : RuleKind} {inc exc : NodeRule}
    (h : kind.Opposed inc exc) (custom : CustomRule (Forest × NodeRef)) :
    inc ≠ .custom custom ∧ exc ≠ .custom custom := by
  cases h <;> exact ⟨nofun, nofun⟩

end TestLauncher
