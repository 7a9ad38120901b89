import TestLauncher.Proofs.Filter.Equality
import TestLauncher.Proofs.Filter.Sources

/-! # Modules by their components

    A rule about modules compares texts: a source lies in a module when it is the name of the
    module or goes on after it with a dot.  Read as components between dots, this says that
    the components of the module lead those of the source (`ModuleRule.covers_iff`), for all
    names, with empty components and dots at either end as well; and so `shop` is above
    `shop.cart` and has nothing to do with `shopping`.  The module a rule gives as its reason
    is the first one listed that leads the source.  Being led is handed on from name to name, so
    a name that another listed one leads adds nothing to what the rule lets through
    (`NodeRule.modules_by_components`). -/

namespace TestLauncher

/-- What an element is by being listed. -/
def Mode.participle : Mode → String
  | including => "included"
  | excluding => "excluded"

namespace ModuleRule

variable {mode : Mode} {values : List (Option String)} {r : ModuleRule} {m s : String}

theorem make_eq (mode : Mode) (values : List (Option String)) :
    make mode values = if cleaned values = [] then refuse .noModuleNames
      else .ok ⟨cleaned values, mode⟩ := by
  rw [make]
  cases cleaned values <;> rfl

/-- **A source lies in a module** when the components of the module lead its own. -/
theorem covers_iff : covers m s = true ↔ Text.components m <+: Text.components s := by
  rw [Text.components_prefix_iff, covers, Bool.or_eq_true, decide_eq_true_iff,
    List.isPrefixOf_iff_prefix]

/-- The first of some modules whose components lead those of a source. -/
def leading? (modules : List String) (s : String) : Option String :=
  modules.find? fun m => decide (Text.components m <+: Text.components s)

theorem match?_eq (r : ModuleRule) (s : String) : r.match? s = leading? r.modules s := by
  rw [match?, leading?]
  refine congrArg (List.find? · r.modules) (funext fun m => ?_)
  exact Bool.eq_iff_iff.mpr (covers_iff.trans decide_eq_true_iff.symm)

/-- What is said of a source that lies in a listed module, or in none. -/
def verdictIn (mode : Mode) (s : String) : Option String → Verdict
  | some m => ⟨mode.isIncluding,
      some ("'" ++ s ++ "' is in " ++ mode.participle ++ " module '" ++ m ++ "'")⟩
  | none => ⟨!mode.isIncluding, some ("'" ++ s ++ "' is in no " ++ mode.participle ++ " module")⟩

theorem judge_eq (r : ModuleRule) (s : String) :
    r.judge s = verdictIn r.mode s (leading? r.modules s) := by
  rw [judge, match?_eq]
  cases leading? r.modules s <;> cases r.mode <;>
    simp only [verdictIn, Mode.participle, Mode.isIncluding, Verdict.mk.injEq, true_and,
      Option.some.injEq, Bool.not_true, Bool.not_false, String.append_assoc] <;>
    rfl

theorem included_judge (r : ModuleRule) (s : String) :
    (r.judge s).included = ((leading? r.modules s).isSome == r.mode.isIncluding) := by
  rw [judge_eq]
  cases leading? r.modules s <;> cases r.mode <;> rfl

theorem isSome_leading?_iff {modules : List String} :
    (leading? modules s).isSome = true ↔
      ∃ m ∈ modules, Text.components m <+: Text.components s := by
  rw [leading?, List.find?_isSome]
  simp only [decide_eq_true_iff]

/-- A module that another one leads can be left out. -/
theorem isSome_leading?_drop {front back : List String} {short long : String}
    (hshort : short ∈ front ++ back) (hlead : Text.components short <+: Text.components long)
    (s : String) :
    (leading? (front ++ long :: back) s).isSome = (leading? (front ++ back) s).isSome := by
  rw [Bool.eq_iff_iff, isSome_leading?_iff, isSome_leading?_iff]
  constructor
  · rintro ⟨m, hm, hms⟩
    by_cases hlong : m = long
    · exact ⟨short, hshort, hlead.trans (hlong ▸ hms)⟩
    · refine ⟨m, ?_, hms⟩
      simpa [hlong] using hm
  · rintro ⟨m, hm, hms⟩
    exact ⟨m, by rw [List.mem_append] at hm ⊢; exact hm.imp_right (List.mem_cons_of_mem long), hms⟩

end ModuleRule

/-! ## Nodes -/

namespace NodeRule

variable {mode : Mode} {values : List (Option String)} {r : ModuleRule} {f : Forest} {x : NodeRef}
  {s : String}

/-- A rule about modules judges a node by the source found for it. -/
theorem judge_modules_of_source (hs : f.sourceName x = some s) (r : ModuleRule) :
    (modules r).judge f x = .ok (r.judge s) := by
  have hnode : ∃ n, f.node? x = some n := by
    rw [Forest.sourceName, Forest.sourceFrom] at hs
    obtain ⟨n, hn, -⟩ := Option.bind_eq_some_iff.mp hs
    exact ⟨n, hn⟩
  obtain ⟨n, hn⟩ := hnode
  rw [Forest.judge_modules hn, hs]
  rfl

/-- Rules about modules that include the same sources include the same nodes. -/
theorem included_modules_congr {r r' : ModuleRule}
    (h : ∀ s, (r'.judge s).included = (r.judge s).included) (f : Forest) (x : NodeRef) :
    ((modules r').judge f x).map Verdict.included = ((modules r).judge f x).map Verdict.included := by
  cases hn : f.node? x with
  | none =>
      simp only [judge, hn]
  | some n =>
      rw [Forest.judge_modules hn, Forest.judge_modules hn]
      cases f.sourceName x with
      | none => rfl
      | some s => exact congrArg Except.ok (h s)

/-- **Modules match by components.**  A rule about modules finds the source of a node in the first
    listed module whose components lead those of the source, names that module in its reason, and
    lets the node through according to its mode; so the rule of the other mode for the same list
    does the opposite.  When the components of one listed module lead those of another one, the rule
    without the other one lets through the same nodes. -/
theorem modules_by_components (hr : ModuleRule.make mode values = .ok r) :
    (∀ f x s, Forest.sourceName f x = some s →
      (modules r).judge f x
        = .ok (ModuleRule.verdictIn mode s (ModuleRule.leading? (cleaned values) s)) ∧
      (((modules r).judge f x).map Verdict.included = .ok mode.isIncluding ↔
        ∃ m ∈ cleaned values, Text.components m <+: Text.components s)) ∧
    (∀ mode', mode' ≠ mode → ∃ r', ModuleRule.make mode' values = .ok r' ∧
      ∀ f x s, Forest.sourceName f x = some s → ∃ included,
        ((modules r).judge f x).map Verdict.included = .ok included ∧
        ((modules r').judge f x).map Verdict.included = .ok !included) ∧
    ∀ front long back short, values = front ++ some long :: back →
      short ∈ cleaned (front ++ back) →
      Text.components short <+: Text.components (Text.trim long) →
      ∃ r', ModuleRule.make mode (front ++ back) = .ok r' ∧ ∀ f x,
        ((modules r').judge f x).map Verdict.included
          = ((modules r).judge f x).map Verdict.included := by
  have hnames := ModuleRule.make_eq_ok hr
  subst hnames
  refine ⟨?_, ?_, ?_⟩
  · intro f x s hs
    rw [judge_modules_of_source hs]
    refine ⟨congrArg Except.ok (ModuleRule.judge_eq _ s), ?_⟩
    rw [← ModuleRule.isSome_leading?_iff, Except.map, ModuleRule.included_judge]
    cases mode <;> simp [Mode.isIncluding]
  · intro mode' hmode
    refine ⟨⟨cleaned values, mode'⟩, ?_, ?_⟩
    · rw [ModuleRule.make_eq] at hr ⊢
      split at hr
      · cases hr
      · rename_i hne
        rw [if_neg hne]
    · intro f x s hs
      refine ⟨_, by rw [judge_modules_of_source hs]; rfl, ?_⟩
      rw [judge_modules_of_source hs]
      refine congrArg Except.ok ?_
      cases mode <;> cases mode'
      · exact absurd rfl hmode
      · exact ModuleRule.included_excluding _ s
      · rw [ModuleRule.included_excluding _ s, Bool.not_not]
      · exact absurd rfl hmode
  · intro front long back short hvalues hshort hlead
    subst hvalues
    have hne : cleaned (front ++ back) ≠ [] := List.ne_nil_of_mem hshort
    refine ⟨⟨cleaned (front ++ back), mode⟩, by rw [ModuleRule.make_eq, if_neg hne], ?_⟩
    refine included_modules_congr fun s => ?_
    rw [ModuleRule.included_judge, ModuleRule.included_judge]
    have happend : ∀ v w : List (Option String), cleaned (v ++ w) = cleaned v ++ cleaned w :=
      fun v w => List.filterMap_append
    cases hblank : Text.isBlank long with
    | true => rw [happend, happend, cleaned_blank hblank]
    | false =>
        rw [happend] at hshort ⊢
        rw [happend, cleaned_some hblank, ModuleRule.isSome_leading?_drop hshort hlead]

/-- A test below a class in `shop.cart`, and a test of `shopping`. -/
def shops : Forest :=
  let id (parts : List (String × String)) : Option UniqueId :=
    (UniqueId.forEngine "E" >>= parts.foldlM fun id part => id.append part.1 part.2).toOption
  Forest.Edit.outcome [
    .build (id []) "E" .container ∅ none,
    .build (id [("class", "C")]) "C" .container ∅ (some "shop.cart.C"), .addChild ⟨0⟩ (some ⟨1⟩),
    .build (id [("class", "C"), ("test", "t")]) "t" .test ∅ none, .addChild ⟨1⟩ (some ⟨2⟩),
    .build (id [("test", "s")]) "s" .test ∅ (some "shopping.T"), .addChild ⟨0⟩ (some ⟨3⟩)]

/-- Both names that are listed lead the source of the first test, and the first one is given as the
    reason; without it the test is excluded as well.  The other test stays. -/
theorem modules_by_components_shops :
    ∃ r r', ModuleRule.make .excluding [some " shop.cart ", none, some "shop"] = .ok r ∧
      ModuleRule.make .excluding [none, some "shop"] = .ok r' ∧
      shops.sourceName ⟨2⟩ = some "shop.cart.C" ∧ shops.sourceName ⟨3⟩ = some "shopping.T" ∧
      (modules r).judge shops ⟨2⟩
        = .ok ⟨false, some "'shop.cart.C' is in excluded module 'shop.cart'"⟩ ∧
      (modules r).judge shops ⟨3⟩ = .ok ⟨true, some "'shopping.T' is in no excluded module"⟩ ∧
      ((modules r').judge shops ⟨2⟩).map Verdict.included = .ok false := by
  have hnames : cleaned [some " shop.cart ", none, some "shop"] = ["shop.cart", "shop"] := by
    decide +kernel
  have hr : ModuleRule.make .excluding [some " shop.cart ", none, some "shop"]
      = .ok ⟨["shop.cart", "shop"], .excluding⟩ := by
    rw [ModuleRule.make_eq, hnames]
    rfl
  have htest : shops.sourceName ⟨2⟩ = some "shop.cart.C" := by decide +kernel
  have hother : shops.sourceName ⟨3⟩ = some "shopping.T" := by decide +kernel
  have hfirst : ModuleRule.leading? ["shop.cart", "shop"] "shop.cart.C" = some "shop.cart" := by
    decide +kernel
  have hnone : ModuleRule.leading? ["shop.cart", "shop"] "shopping.T" = none := by decide +kernel
  obtain ⟨hjudge, -, hdrop⟩ := modules_by_components hr
  obtain ⟨r', hr', hless⟩ := hdrop [] " shop.cart " [none, some "shop"] "shop" rfl
    (by decide +kernel) (by decide +kernel)
  have hexcluded := (hjudge shops ⟨2⟩ _ htest).1
  rw [hnames, hfirst] at hexcluded
  have hincluded := (hjudge shops ⟨3⟩ _ hother).1
  rw [hnames, hnone] at hincluded
  refine ⟨_, r', hr, hr', htest, hother, hexcluded, hincluded, ?_⟩
  rw [hless, hexcluded]
  rfl

end NodeRule

end TestLauncher
