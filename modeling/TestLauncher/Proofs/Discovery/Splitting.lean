import TestLauncher.Proofs.Discovery.Ancestries
import TestLauncher.Proofs.Discovery.Narrowing
import TestLauncher.Proofs.Filter.Opposition

/-! # Splitting a run

    A rule added to a request takes tests away from its plan, and the opposed rule takes
    away the others: each test is in exactly one of the two plans, except that both have a
    test that rules of this kind are blind to (`Launcher.include_exclude_split`).  The three
    plans are made in three runs, but the ancestries of the tests in them are those of one
    list of sketches, and on an ancestry the two rules disagree.  The other filters of the
    request must judge by ancestry too: one that looks at siblings may let in a test that the
    plan does not have (`exists_unplanned_share`). -/

namespace TestLauncher

/-- The request with one more rule on nodes. -/
def DiscoveryRequest.restricted (request : DiscoveryRequest) (rule : NodeRule) :
    DiscoveryRequest :=
  { request with nodeFilters := request.nodeFilters ++ [.rule rule] }

/-! ## Opposed rules on an ancestry -/

theorem NodeFilter.passOn_append (filters more : List NodeFilter) (a : List Node) :
    passOn (filters ++ more) a = (passOn filters a && passOn more a) :=
  List.all_append

theorem NodeFilter.passOn_rule {rule : NodeRule} {a : List Node} {v : Verdict}
    (h : rule.judge (Forest.chain a) ⟨0⟩ = .ok v) : passOn [.rule rule] a = v.included := by
  rw [passOn, List.all_cons, List.all_nil, Bool.and_true, verdictOn, verdict, Filter.apply, h]
  rfl

/-- Of two opposed rules exactly one lets a node through, unless they are blind to it. -/
theorem RuleKind.Opposed.passOn {kind : RuleKind} {inc exc : NodeRule} {f : Forest} {r : NodeRef}
    {a : List Node} (h : kind.Opposed inc exc) (ha : f.HasAncestry r a) :
    if kind.blindTo (f.sourceName r) then
      NodeFilter.passOn [.rule inc] a = true ∧ NodeFilter.passOn [.rule exc] a = true
    else NodeFilter.passOn [.rule exc] a = !NodeFilter.passOn [.rule inc] a := by
  obtain ⟨rest, hup, -⟩ := ha.chain
  obtain ⟨n, hn⟩ := Option.isSome_iff_exists.mp (hup.node (List.mem_cons_self ..))
  obtain ⟨v, v', hv, hv', hsplit⟩ := h.judge hn
  rw [NodeFilter.passOn_rule hv, NodeFilter.passOn_rule hv', ha.sourceName ha.chain]
  exact hsplit

/-! ## Three plans -/

namespace TestPlan.TestsOf

variable {plan plan' : TestPlan} {P Q : List Node → Prop} {i : Identifier} {a : List Node}

theorem congr (h : plan.TestsOf P) (hPQ : ∀ a, P a ↔ Q a) : plan.TestsOf Q := by
  have hsame : P = Q := funext fun a => propext (hPQ a)
  rwa [← hsame]

/-- A test is in a plan of fewer tests exactly when its ancestry is one of these. -/
theorem mem_iff (h : plan.TestsOf P) (h' : plan'.TestsOf fun a => P a ∧ Q a)
    (htest : i.isTest = true) (ha : P a) (hai : Node.identified a = some i) :
    i ∈ plan'.identifiers.values ↔ Q a := by
  rw [h'.mem i htest]
  constructor
  · rintro ⟨b, ⟨hb, hqb⟩, hbi⟩
    rwa [h.unique a b i ha hb hai hbi]
  · exact fun hqa => ⟨a, ⟨ha, hqa⟩, hai⟩

theorem subset (h : plan.TestsOf P) (h' : plan'.TestsOf fun a => P a ∧ Q a)
    (htest : i.isTest = true) (hi : i ∈ plan'.identifiers.values) :
    i ∈ plan.identifiers.values := by
  obtain ⟨a, ⟨ha, -⟩, hai⟩ := (h'.mem i htest).mp hi
  exact (h.mem i htest).mpr ⟨a, ha, hai⟩

end TestPlan.TestsOf

namespace Resolution

variable {κ ω ρ : Type} {engine : Engine κ} {engines : List (Engine κ)}
  {request : DiscoveryRequest} {v : World κ ω ρ} {a : List Node}

/-- Rules on nodes are nothing to what engines sketch. -/
theorem sketch?_restricted (hselect : engine.SelectsOnly) (rule : NodeRule) :
    sketch? (request.restricted rule) v engine = sketch? request v engine := by
  have hdiscover : ∀ id,
      engine.discover (request.restricted rule) id = engine.discover request id :=
    fun id => hselect request (request.restricted rule) id rfl
  rw [sketch?, sketch?, find?, find?]
  simp only [hdiscover]
  rfl

theorem outlined_restricted (hselect : ∀ e ∈ engines, e.SelectsOnly) (rule : NodeRule) :
    Outlined engines (request.restricted rule) v a ↔
      Outlined engines request v a ∧ NodeFilter.passOn [.rule rule] a = true := by
  have hsketches : sketches engines (request.restricted rule) v = sketches engines request v :=
    List.filterMap_congr fun e he => sketch?_restricted (hselect e he) rule
  have hpass : NodeFilter.passOn (request.restricted rule).nodeFilters a
      = (NodeFilter.passOn request.nodeFilters a && NodeFilter.passOn [.rule rule] a) :=
    NodeFilter.passOn_append _ _ a
  rw [Outlined, Outlined, hsketches, hpass, Bool.and_eq_true, and_assoc]

end Resolution

theorem RuleKind.Opposed.byAncestry {kind : RuleKind} {inc exc : NodeRule}
    (h : kind.Opposed inc exc) :
    NodeFilter.ByAncestry (.rule inc) ∧ NodeFilter.ByAncestry (.rule exc) := by
  constructor
  · refine NodeFilter.ByLineage.byAncestry fun rule hrule => ?_
    exact absurd (List.mem_singleton.mp hrule).symm (h.not_custom rule).1
  · refine NodeFilter.ByLineage.byAncestry fun rule hrule => ?_
    exact absurd (List.mem_singleton.mp hrule).symm (h.not_custom rule).2

namespace Launcher

variable {κ ω ρ : Type} {l : Launcher κ ω ρ} {request : DiscoveryRequest}

/-- Engines whose trees are fresh and depend on nothing but what is selected, and that find tests
    only where nothing is below them, and none at a root. -/
structure Divisible (l : Launcher κ ω ρ) : Prop where
  fresh : ∀ e ∈ l.engines, e.BuildsFresh
  placeless : ∀ e ∈ l.engines, e.Placeless
  selectsOnly : ∀ e ∈ l.engines, e.SelectsOnly
  leafTests : ∀ e ∈ l.engines, e.LeafTests

/-- The tests of a request with one more rule. -/
theorem Divisible.testsOf_restricted {rule : NodeRule} {w w' : World κ ω ρ} {plan : TestPlan}
    (hl : l.Divisible) (hjudge : ∀ filter ∈ request.nodeFilters, filter.ByAncestry)
    (hrule : NodeFilter.ByAncestry (.rule rule))
    (h : l.PlansAlone (request.restricted rule) w plan w') (v : World κ ω ρ) :
    plan.TestsOf fun a => Resolution.Outlined l.engines request v a ∧
      NodeFilter.passOn [.rule rule] a = true := by
  have hall : ∀ filter ∈ (request.restricted rule).nodeFilters, filter.ByAncestry := by
    intro filter hfilter
    rcases List.mem_append.mp hfilter with hfilter | hfilter
    · exact hjudge filter hfilter
    · rw [List.mem_singleton.mp hfilter]
      exact hrule
  obtain ⟨htests, -⟩ := testsOf_discover hl.fresh hl.placeless hl.leafTests hall h v
  exact htests.congr fun a => Resolution.outlined_restricted hl.selectsOnly rule

/-- **Include and exclude split a run.**  Of the tests in the plan of a request, each is in exactly
    one of the plans of the request with a rule that includes some values and of the request with
    the rule of that kind that excludes them; but a test without a source, as its node says and
    those above it, is in both if the rules judge by sources.  No other test is in either.  The
    three calls may be made in any worlds. -/
theorem include_exclude_split {kind : RuleKind} {values : List (Option String)}
    {inc exc : NodeRule} {w w' u u' x x' : World κ ω ρ} {plan included excluded : TestPlan}
    (hl : l.Divisible) (hjudge : ∀ filter ∈ request.nodeFilters, filter.ByAncestry)
    (hinc : kind.make .including values = .ok inc) (hexc : kind.make .excluding values = .ok exc)
    (hplan : l.PlansAlone request w plan w')
    (hincluded : l.PlansAlone (request.restricted inc) u included u')
    (hexcluded : l.PlansAlone (request.restricted exc) x excluded x') :
    (∃ rs, (l.resolve .discovery request).on w = (.ok rs, w') ∧
      TestPlan.ofRoots w'.forest (Resolution.allRoots rs) = .ok plan ∧
      ∀ i ∈ plan.identifiers.values, i.isTest = true →
        ∃ r ∈ w'.forest.preorder (Resolution.allRoots rs), w'.forest.identifier? r = some i ∧
          if kind.blindTo (w'.forest.sourceName r) then
            i ∈ included.identifiers.values ∧ i ∈ excluded.identifiers.values
          else (i ∈ included.identifiers.values ↔ i ∉ excluded.identifiers.values)) ∧
      ∀ i, i.isTest = true →
        i ∈ included.identifiers.values ∨ i ∈ excluded.identifiers.values →
        i ∈ plan.identifiers.values := by
  have hopposed := RuleKind.opposed_of_make hinc hexc
  obtain ⟨htests, rs, hresolve, hroots, hfound⟩ :=
    testsOf_discover hl.fresh hl.placeless hl.leafTests hjudge hplan w
  have hin := hl.testsOf_restricted hjudge hopposed.byAncestry.1 hincluded w
  have hex := hl.testsOf_restricted hjudge hopposed.byAncestry.2 hexcluded w
  refine ⟨⟨rs, hresolve, hroots, fun i hi htest => ?_⟩, ?_⟩
  · obtain ⟨r, hr, hri, a, ha, hout⟩ := hfound i hi htest
    refine ⟨r, hr, hri, ?_⟩
    have hai : Node.identified a = some i := ha.identifier?.symm.trans hri
    rw [htests.mem_iff hin htest hout hai, htests.mem_iff hex htest hout hai]
    have hpass := hopposed.passOn ha
    split at hpass
    · rename_i hblind
      rwa [if_pos hblind]
    · rename_i hblind
      rw [if_neg hblind, hpass]
      cases NodeFilter.passOn [.rule inc] a <;> simp
  · rintro i htest (hi | hi)
    · exact htests.subset hin htest hi
    · exact htests.subset hex htest hi

end Launcher

/-! ## Catalogues -/

theorem Catalogue.engine_leafTests (c : Catalogue) (number : Nat) :
    (c.engine number).LeafTests := by
  intro request id s root t h
  obtain ⟨b, hraised, hleafy⟩ := raised_discover h
  have hroot : t.1.isTest root = false := hraised.isTest
  have hall : t.1.Leafy (.tree root b) := by
    refine ⟨fun htest => ?_, hleafy, trivial⟩
    rw [hroot] at htest
    cases htest
  refine ⟨hroot, ?_⟩
  rw [Find.tree, Forest.below_eq (Forest.holds_tree.mp hraised.holds).1
    (Forest.holds_tree.mp hraised.holds).2 (Grove.nodup_tree.mp hraised.nodup).2]
  exact fun k hk htest => hall.children hraised.holds hk htest

namespace Launcher

theorem divisible_of_catalogues {ω ρ : Type} {l : Launcher Diaries ω ρ}
    (h : ∀ e ∈ l.engines, ∃ c number, e = Catalogue.engine c number) : l.Divisible where
  fresh := Catalogue.forall_engine Catalogue.engine_buildsFresh h
  placeless := Catalogue.forall_engine Catalogue.engine_placeless h
  selectsOnly := Catalogue.forall_engine Catalogue.engine_selectsOnly h
  leafTests := Catalogue.forall_engine Catalogue.engine_leafTests h

/-- The sample launcher, which does not look for suites. -/
def suiteless : Launcher Diaries Unit Unit := { sample with resolver? := none }

theorem suiteless_divisible : suiteless.Divisible :=
  divisible_of_catalogues fun _ he => ⟨Catalogue.sample, 0, List.mem_singleton.mp he⟩

/-- What is seen of a run for the sample, when there is a plan. -/
theorem exists_plansAlone {α : Type} (view : TestPlan → α) {request : DiscoveryRequest} {seen : α}
    (h : ((suiteless.discover (some request)).on World.sample).1.toOption.map view = some seen) :
    ∃ plan w', suiteless.PlansAlone request World.sample plan w' ∧ view plan = seen := by
  rcases hr : (suiteless.discover (some request)).on World.sample with ⟨result, w'⟩
  rw [hr] at h
  cases result with
  | error e => cases h
  | ok plan => exact ⟨plan, w', ⟨hr, rfl⟩, Option.some.inj h⟩

/-- A class, without what is fast. -/
def slow : DiscoveryRequest :=
  { DiscoveryRequest.sample with
    nodeFilters := [.rule (.tags ⟨StringSet.ofList ["fast"], .excluding⟩)] }

/-- The rule for a module, in either mode. -/
def within (mode : Mode) : NodeRule := .modules ⟨["m"], mode⟩

/-- The slow test of the class is in the plan with the module; the test that stands alone is in no
    class, and in both plans. -/
theorem include_exclude_split_slow :
    ∃ plan included excluded w' u' x', suiteless.PlansAlone slow World.sample plan w' ∧
      suiteless.PlansAlone (slow.restricted (within .including)) World.sample included u' ∧
      suiteless.PlansAlone (slow.restricted (within .excluding)) World.sample excluded x' ∧
      plan.identifiers.keys = ["[engine:E]", "[engine:E]/[class:m.K]",
        "[engine:E]/[class:m.K]/[test:u]", "[engine:E]/[test:v]"] ∧
      included.identifiers.keys = plan.identifiers.keys ∧
      excluded.identifiers.keys = ["[engine:E]", "[engine:E]/[test:v]"] ∧
      ∃ rs, (suiteless.resolve .discovery slow).on World.sample = (.ok rs, w') ∧
        ∀ i ∈ plan.identifiers.values, i.isTest = true →
          ∃ r ∈ w'.forest.preorder (Resolution.allRoots rs), w'.forest.identifier? r = some i ∧
            if RuleKind.modules.blindTo (w'.forest.sourceName r) then
              i ∈ included.identifiers.values ∧ i ∈ excluded.identifiers.values
            else (i ∈ included.identifiers.values ↔ i ∉ excluded.identifiers.values) := by
  let keys : TestPlan → List String := fun plan => plan.identifiers.keys
  obtain ⟨plan, w', hplan, hkeys⟩ : ∃ plan w', suiteless.PlansAlone slow World.sample plan w' ∧
      keys plan = ["[engine:E]", "[engine:E]/[class:m.K]", "[engine:E]/[class:m.K]/[test:u]",
        "[engine:E]/[test:v]"] := exists_plansAlone keys (by decide +kernel)
  obtain ⟨included, u', hincluded, hkeys'⟩ : ∃ plan w',
      suiteless.PlansAlone (slow.restricted (within .including)) World.sample plan w' ∧
      keys plan = ["[engine:E]", "[engine:E]/[class:m.K]", "[engine:E]/[class:m.K]/[test:u]",
        "[engine:E]/[test:v]"] := exists_plansAlone keys (by decide +kernel)
  obtain ⟨excluded, x', hexcluded, hkeys''⟩ : ∃ plan w',
      suiteless.PlansAlone (slow.restricted (within .excluding)) World.sample plan w' ∧
      keys plan = ["[engine:E]", "[engine:E]/[test:v]"] :=
    exists_plansAlone keys (by decide +kernel)
  have hjudge : ∀ filter ∈ slow.nodeFilters, filter.ByAncestry := by
    intro filter hfilter
    rw [List.mem_singleton.mp hfilter]
    refine NodeFilter.ByLineage.byAncestry fun rule hrule => ?_
    cases List.mem_singleton.mp hrule
  let values : List (Option String) := [some " m ", none]
  have hmake : RuleKind.modules.make .including values = .ok (within .including) := by rfl
  have hmake' : RuleKind.modules.make .excluding values = .ok (within .excluding) := by rfl
  obtain ⟨⟨rs, hresolve, -, hsplit⟩, -⟩ :=
    include_exclude_split suiteless_divisible hjudge hmake hmake' hplan hincluded hexcluded
  exact ⟨plan, included, excluded, w', u', x', hplan, hincluded, hexcluded, hkeys,
    hkeys'.trans hkeys.symm, hkeys'', rs, hresolve, hsplit⟩

/-- The ids of the tests in a plan. -/
def testIds (plan : TestPlan) : List String :=
  (plan.identifiers.values.filter Identifier.isTest).map Identifier.id

/-- **A filter that looks at siblings does not divide.**  One test of the class is in the plan, once
    the other one is gone.  Without the module it goes as well, and the class after it; the test
    that stands alone has no siblings any more, and is in one of the two plans of fewer tests
    though the plan does not have it. -/
theorem exists_unplanned_share :
    suiteless.Divisible ∧
    (∀ filter ∈ solitary.nodeFilters, ∀ f r, (filter.verdict f r).toOption.isSome = true) ∧
    RuleKind.modules.make .including [some "m"] = .ok (within .including) ∧
    RuleKind.modules.make .excluding [some "m"] = .ok (within .excluding) ∧
    ∃ plan included excluded w' u' x', suiteless.PlansAlone solitary World.sample plan w' ∧
      suiteless.PlansAlone (solitary.restricted (within .including)) World.sample included u' ∧
      suiteless.PlansAlone (solitary.restricted (within .excluding)) World.sample excluded x' ∧
      testIds plan = ["[engine:E]/[class:m.K]/[test:u]"] ∧ testIds included = testIds plan ∧
      testIds excluded = ["[engine:E]/[test:v]"] ∧
      ∃ i ∈ excluded.identifiers.values, i.isTest = true ∧ i ∉ plan.identifiers.values := by
  obtain ⟨plan, w', hplan, hids⟩ : ∃ plan w',
      suiteless.PlansAlone solitary World.sample plan w' ∧
      testIds plan = ["[engine:E]/[class:m.K]/[test:u]"] :=
    exists_plansAlone testIds (by decide +kernel)
  obtain ⟨included, u', hincluded, hids'⟩ : ∃ plan w',
      suiteless.PlansAlone (solitary.restricted (within .including)) World.sample plan w' ∧
      testIds plan = ["[engine:E]/[class:m.K]/[test:u]"] :=
    exists_plansAlone testIds (by decide +kernel)
  obtain ⟨excluded, x', hexcluded, hids''⟩ : ∃ plan w',
      suiteless.PlansAlone (solitary.restricted (within .excluding)) World.sample plan w' ∧
      testIds plan = ["[engine:E]/[test:v]"] :=
    exists_plansAlone testIds (by decide +kernel)
  refine ⟨suiteless_divisible, solitary_answers, rfl, rfl, plan, included, excluded, w', u',
    x', hplan, hincluded, hexcluded, hids, hids'.trans hids.symm, hids'', ?_⟩
  -- the test that stands alone
  have hv : "[engine:E]/[test:v]" ∈ testIds excluded := by
    rw [hids'']
    exact List.mem_singleton_self _
  obtain ⟨i, hi, hid⟩ := List.mem_map.mp hv
  obtain ⟨hi, htest⟩ := List.mem_filter.mp hi
  refine ⟨i, hi, htest, fun hmem => ?_⟩
  have hplanned : i.id ∈ testIds plan :=
    List.mem_map_of_mem (List.mem_filter.mpr ⟨hmem, htest⟩)
  rw [hid, hids] at hplanned
  exact absurd hplanned (by decide)

end Launcher

end TestLauncher
