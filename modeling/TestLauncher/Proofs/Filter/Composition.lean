import TestLauncher.Proofs.Filter.Lineage
import TestLauncher.Steps

/-! # Rules are asked in turn

    A filter asks its rules from left to right, and the first that fails or excludes is the
    last one asked, however they are nested.  Whom a filter asks does not depend on what
    asking is, so `applyIn` asks in any monad: where rules do no more than answer it is
    `apply` (`applyIn_judge`), and where each question is written down it tells who was
    asked (`noting`).

    One equation holds in every monad: but for the reason of an inclusion, asking a filter is
    asking the list of its leaves one after the other (`exclusion_applyIn`).  So how a list of
    filters is nested cannot be told from the outside, and where no rule fails neither can its
    order (`compose_in_turn`). -/

namespace TestLauncher

/-- The verdict, if it is an exclusion. -/
def Verdict.exclusion? (v : Verdict) : Option Verdict := if v.included then none else some v

namespace Filter

variable {ρ : Type} {m : Type → Type}

section

variable [Monad m] (ask : ρ → m Verdict)

mutual

/-- The answer of a filter whose rules are asked in a monad. -/
def applyIn : Filter ρ → m Verdict
  | all => pure ⟨true, some "Always included"⟩
  | rule r => ask r
  | every parts => applyAllIn parts

/-- The answer of parts whose rules are asked in a monad. -/
def applyAllIn : List (Filter ρ) → m Verdict
  | [] => pure ⟨true, some "Element was included by all filters."⟩
  | part :: parts => do
    let v ← applyIn part
    if v.included then applyAllIn parts else return v

end

/-- The first exclusion among rules that are asked one after the other; no rule is asked after
    it. -/
def inTurn : List ρ → m (Option Verdict)
  | [] => pure none
  | r :: rules => do
    let v ← ask r
    if v.included then inTurn rules else return some v

end

/-! ## Asking a filter is asking its leaves -/

section

variable [Monad m] [LawfulMonad m] (ask : ρ → m Verdict)

theorem inTurn_append (rules more : List ρ) :
    inTurn ask (rules ++ more) = inTurn ask rules >>= fun
      | some v => pure (some v)
      | none => inTurn ask more := by
  induction rules with
  | nil => rw [List.nil_append, inTurn, pure_bind]
  | cons r rules ih =>
      rw [List.cons_append, inTurn, inTurn, bind_assoc]
      refine bind_congr fun v => ?_
      cases hv : v.included with
      | true => exact ih
      | false =>
          simp only [Bool.false_eq_true, if_false]
          rw [pure_bind]

mutual

/-- **Asking a filter is asking its leaves in turn**, whatever asking is. -/
theorem exclusion_applyIn : (filter : Filter ρ) →
    Verdict.exclusion? <$> filter.applyIn ask = inTurn ask filter.leaves
  | .all => by
      rw [applyIn, leaves, inTurn, map_pure]
      rfl
  | .rule r => by
      rw [applyIn, leaves, inTurn, map_eq_pure_bind]
      refine bind_congr fun v => ?_
      rw [Verdict.exclusion?]
      split
      · rw [inTurn]
      · rfl
  | .every parts => by
      rw [applyIn, leaves]
      exact exclusion_applyAllIn parts

theorem exclusion_applyAllIn : (parts : List (Filter ρ)) →
    Verdict.exclusion? <$> applyAllIn ask parts = inTurn ask (leavesAll parts)
  | [] => by
      rw [applyAllIn, leavesAll, inTurn, map_pure]
      rfl
  | part :: parts => by
      rw [applyAllIn, leavesAll, inTurn_append, ← exclusion_applyIn part, map_bind, bind_map_left]
      refine bind_congr fun v => ?_
      rw [Verdict.exclusion?]
      cases hv : v.included with
      | true => exact exclusion_applyAllIn parts
      | false =>
          simp only [Bool.false_eq_true, if_false]
          rw [map_pure, Verdict.exclusion?, hv]
          rfl

end

end

/-! ## Rules that answer, and rules whose questions are noted -/

/-- Whether an answer is an inclusion. -/
def isInclusion (answer : Except Fault Verdict) : Bool := answer.toOption.any Verdict.included

/-- Asks a rule, and writes down that it was asked. -/
def noting (judge : ρ → Except Fault Verdict) (r : ρ) : Steps (List ρ) Verdict := do
  modify (· ++ [r])
  Steps.ofExcept (judge r)

section

variable {judge : ρ → Except Fault Verdict}

mutual

/-- Where rules just answer, a filter is asked as it is applied. -/
theorem applyIn_judge : (filter : Filter ρ) → filter.applyIn judge = filter.apply judge
  | .all => by rw [applyIn, apply]; rfl
  | .rule r => by rw [applyIn, apply]
  | .every parts => by
      rw [applyIn, apply]
      exact applyAllIn_judge parts

theorem applyAllIn_judge : (parts : List (Filter ρ)) →
    applyAllIn judge parts = applyAll judge parts
  | [] => by rw [applyAllIn, applyAll]; rfl
  | part :: parts => by
      rw [applyAllIn, applyAll, applyIn_judge part, applyAllIn_judge parts]
      cases part.apply judge with
      | error e => rfl
      | ok v => rfl

end

theorem on_noting (r : ρ) (asked : List ρ) :
    (noting judge r).on asked = (judge r, asked ++ [r]) := rfl

mutual

/-- Noting who is asked does not change the answer. -/
theorem applyIn_noting : (filter : Filter ρ) → (asked : List ρ) →
    ((filter.applyIn (noting judge)).on asked).1 = filter.apply judge
  | .all, _ => by rw [applyIn, apply]; rfl
  | .rule r, asked => by rw [applyIn, apply, on_noting]
  | .every parts, asked => by
      rw [applyIn, apply]
      exact applyAllIn_noting parts asked

theorem applyAllIn_noting : (parts : List (Filter ρ)) → (asked : List ρ) →
    ((applyAllIn (noting judge) parts).on asked).1 = applyAll judge parts
  | [], _ => by rw [applyAllIn, applyAll]; rfl
  | part :: parts, asked => by
      have hpart := applyIn_noting part asked
      rw [applyAllIn, applyAll]
      rcases hon : (part.applyIn (noting judge)).on asked with ⟨answer, asked'⟩
      rw [hon] at hpart
      cases answer with
      | error e => rw [Steps.on_bind_error hon, ← hpart]
      | ok v =>
          rw [Steps.on_bind_ok hon, ← hpart]
          cases hv : v.included with
          | true => simpa only [hv, if_true] using applyAllIn_noting parts asked'
          | false => simp only [hv, Bool.false_eq_true, if_false]; rfl

end

/-- Whom asking rules in turn asks, and the answer it ends with. -/
inductive Asks (judge : ρ → Except Fault Verdict) :
    List ρ → List ρ → Except Fault Verdict → Prop where
  /-- A rule fails or excludes: no rule is asked after it, and the answer is its own. -/
  | decided {before after : List ρ} {r : ρ} (hbefore : ∀ b ∈ before, isInclusion (judge b) = true)
      (hr : isInclusion (judge r) = false) :
      Asks judge (before ++ r :: after) (before ++ [r]) (judge r)
  /-- All rules include. -/
  | passed {rules : List ρ} {v : Verdict} (hrules : ∀ r ∈ rules, isInclusion (judge r) = true)
      (hv : v.included = true) : Asks judge rules rules (.ok v)

theorem exists_verdict {answer : Except Fault Verdict} (h : isInclusion answer = true) :
    ∃ v, answer = .ok v ∧ v.included = true := by
  cases answer with
  | error e => cases h
  | ok v => exact ⟨v, rfl, h⟩

/-- Rules that include are all asked, and what comes after them is asked then. -/
theorem on_inTurn_passed {rules : List ρ} (h : ∀ r ∈ rules, isInclusion (judge r) = true)
    (more asked : List ρ) :
    (inTurn (noting judge) (rules ++ more)).on asked =
      (inTurn (noting judge) more).on (asked ++ rules) := by
  induction rules generalizing asked with
  | nil => rw [List.nil_append, List.append_nil]
  | cons r rules ih =>
      obtain ⟨v, hv, hincluded⟩ := exists_verdict (h r (by simp))
      have hask : (noting judge r).on asked = (.ok v, asked ++ [r]) := by rw [on_noting, hv]
      rw [List.cons_append, inTurn, Steps.on_bind_ok hask, if_pos hincluded,
        ih (fun x hx => h x (by simp [hx])), List.append_assoc, List.singleton_append]

/-- A rule that fails or excludes is the last one asked. -/
theorem on_inTurn_decided {r : ρ} (h : isInclusion (judge r) = false) (after asked : List ρ) :
    (inTurn (noting judge) (r :: after)).on asked = ((judge r).map some, asked ++ [r]) := by
  have hask : (noting judge r).on asked = (judge r, asked ++ [r]) := on_noting r asked
  rw [inTurn]
  cases hr : judge r with
  | error e =>
      rw [hr] at hask
      rw [Steps.on_bind_error hask]
      rfl
  | ok v =>
      rw [hr] at hask h
      have hv : v.included = false := h
      rw [Steps.on_bind_ok hask, hv]
      rfl

/-- An answer without an exclusion is an inclusion. -/
theorem exists_inclusion {answer : Except Fault Verdict}
    (h : answer.map Verdict.exclusion? = .ok none) : ∃ v, answer = .ok v ∧ v.included = true := by
  cases answer with
  | error e => cases h
  | ok v =>
      have hv : v.exclusion? = none := Except.ok.inj h
      rw [Verdict.exclusion?] at hv
      split at hv
      · rename_i hincluded
        exact ⟨v, rfl, hincluded⟩
      · cases hv

/-- A fault and an exclusion are the whole answer. -/
theorem eq_of_map_exclusion {answer own : Except Fault Verdict}
    (h : answer.map Verdict.exclusion? = own.map some) : answer = own := by
  cases answer with
  | error e =>
      cases own with
      | error e' =>
          cases h
          rfl
      | ok v => cases h
  | ok u =>
      cases own with
      | error e => cases h
      | ok v =>
          have hu : u.exclusion? = some v := Except.ok.inj h
          rw [Verdict.exclusion?] at hu
          split at hu
          · cases hu
          · cases hu
            rfl

/-- Who is asked by a filter, and its answer. -/
theorem exists_asked (judge : ρ → Except Fault Verdict) (filter : Filter ρ) :
    ∃ asked, (filter.applyIn (noting judge)).on [] = (filter.apply judge, asked) ∧
      Asks judge filter.leaves asked (filter.apply judge) := by
  have hanswer : ((filter.applyIn (noting judge)).on []).1 = filter.apply judge :=
    applyIn_noting filter []
  rcases hon : (filter.applyIn (noting judge)).on [] with ⟨answer, asked⟩
  rw [hon] at hanswer
  subst hanswer
  refine ⟨asked, rfl, ?_⟩
  have hturn : (inTurn (noting judge) filter.leaves).on [] =
      ((filter.apply judge).map Verdict.exclusion?, asked) := by
    rw [← exclusion_applyIn, Steps.on_map, hon]
  cases hfind : filter.leaves.find? fun r => !isInclusion (judge r) with
  | none =>
      have hall : ∀ r ∈ filter.leaves, isInclusion (judge r) = true := by
        intro r hr
        simpa using List.find?_eq_none.mp hfind r hr
      have hpassed := on_inTurn_passed hall [] []
      rw [List.append_nil, hturn, List.nil_append] at hpassed
      obtain ⟨hnone, rfl⟩ := Prod.mk.inj hpassed
      obtain ⟨v, hv, hincluded⟩ := exists_inclusion hnone
      rw [hv]
      exact .passed hall hincluded
  | some r =>
      obtain ⟨hr, before, after, hleaves, hbefore⟩ := List.find?_eq_some_iff_append.mp hfind
      rw [Bool.not_eq_true'] at hr
      have hall : ∀ b ∈ before, isInclusion (judge b) = true := by
        intro b hb
        simpa using hbefore b hb
      have hdecided := on_inTurn_passed hall (r :: after) []
      rw [← hleaves, hturn, on_inTurn_decided hr, List.nil_append] at hdecided
      obtain ⟨hown, rfl⟩ := Prod.mk.inj hdecided
      rw [eq_of_map_exclusion hown, hleaves]
      exact .decided hall hr

/-! ## Nesting and order -/

/-- But for the reason of an inclusion, filters with the same leaves answer alike. -/
theorem exclusion_congr {filter other : Filter ρ} (h : other.leaves = filter.leaves) :
    (other.apply judge).map Verdict.exclusion? = (filter.apply judge).map Verdict.exclusion? := by
  rw [← applyIn_judge, ← applyIn_judge]
  show Verdict.exclusion? <$> other.applyIn judge = Verdict.exclusion? <$> filter.applyIn judge
  rw [exclusion_applyIn, exclusion_applyIn, h]

/-- A filter includes what all of its leaves include. -/
theorem isInclusion_apply (judge : ρ → Except Fault Verdict) (filter : Filter ρ) :
    isInclusion (filter.apply judge) = filter.leaves.all fun r => isInclusion (judge r) := by
  obtain ⟨asked, -, hasks⟩ := exists_asked judge filter
  generalize filter.leaves = rules at hasks
  generalize filter.apply judge = answer at hasks
  cases hasks with
  | decided hbefore hr => simp [hr]
  | passed hrules hv =>
      rw [List.all_eq_true.mpr hrules]
      exact hv

/-- Filters composed have the leaves of all of them, in order. -/
theorem leaves_compose {filters : List (Filter ρ)} {filter : Filter ρ}
    (h : compose (filters.map some) = .ok filter) : filter.leaves = leavesAll filters := by
  rw [compose_some] at h
  cases h
  rcases filters with _ | ⟨f, _ | ⟨g, fs⟩⟩
  · rw [leaves, leavesAll]
  · rw [leavesAll, leavesAll, List.append_nil]
  · rw [leaves]

/-- **Composed filters ask their leaves in turn.**  The last leaf asked is the first that fails or
    excludes, and the answer is its own; without one all are asked, and the answer is an
    inclusion.  Nesting the same leaves otherwise makes no difference but for the reason of an
    inclusion, and putting leaves that do not fail in another order makes none to whether there is
    one. -/
theorem compose_in_turn (judge : ρ → Except Fault Verdict) (filters : List (Filter ρ)) :
    ∃ filter asked, compose (filters.map some) = .ok filter ∧
      (filter.applyIn (noting judge)).on [] = (filter.apply judge, asked) ∧
      Asks judge (leavesAll filters) asked (filter.apply judge) ∧
      (∀ others other, compose (others.map some) = .ok other →
        leavesAll others = leavesAll filters →
        (other.apply judge).map Verdict.exclusion? =
          (filter.apply judge).map Verdict.exclusion?) ∧
      ∀ others other, compose (others.map some) = .ok other →
        (leavesAll others).Perm (leavesAll filters) →
        (∀ r ∈ leavesAll filters, ∃ v, judge r = .ok v) →
        ∃ u v, other.apply judge = .ok u ∧ filter.apply judge = .ok v ∧ u.included = v.included := by
  obtain ⟨filter, hfilter⟩ : ∃ filter, compose (filters.map some) = .ok filter :=
    ⟨_, compose_some filters⟩
  have hleaves := leaves_compose hfilter
  obtain ⟨asked, hon, hasks⟩ := exists_asked judge filter
  rw [hleaves] at hasks
  refine ⟨filter, asked, hfilter, hon, hasks, ?_, ?_⟩
  · intro others other hother hsame
    exact exclusion_congr (by rw [leaves_compose hother, hsame, hleaves])
  · intro others other hother hperm hanswers
    have hleaves' := leaves_compose hother
    obtain ⟨v, hv⟩ : ∃ v, filter.apply judge = .ok v :=
      apply_ok filter fun r hr => hanswers r (by rwa [← hleaves])
    obtain ⟨u, hu⟩ : ∃ u, other.apply judge = .ok u := by
      refine apply_ok other fun r hr => hanswers r (hperm.mem_iff.mp ?_)
      rwa [← hleaves']
    have hinclusion : isInclusion (other.apply judge) = isInclusion (filter.apply judge) := by
      rw [isInclusion_apply, isInclusion_apply, hleaves, hleaves']
      exact hperm.all_eq
    rw [hu, hv] at hinclusion
    exact ⟨u, v, hu, hv, hinclusion⟩

end

end Filter

end TestLauncher
