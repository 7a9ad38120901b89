import TestLauncher.Proofs.Suite.LeadingParts

/-! # What the resolver remembers

    The resolver keeps what it found for a class and for a module, also that it found
    nothing.  Nobody can tell (`ModuleTable.memory_invisible`): each question is replied to
    as by a resolver that knows nothing.  What is gained is that an answer, once given, is
    given again without an import and without a line in the journal.  A fault that passes is
    not kept, so the module that raised it is asked for again.

    The proof looks at one question (`exists_handled`): its reply is the one remembered, or it is
    looked up, and looking things up ends alike from every sound store (`Looks`). -/

namespace TestLauncher

namespace ModuleTable

variable {table : ModuleTable} {s : ModuleStore}

/-- Every module asked for is written down, whatever else is. -/
theorem Sound.requests_afterLoading (hs : table.Sound s) (names : List String) :
    ∃ asked, (table.afterLoading names s).requests = s.requests ++ asked ∧
      ∀ name ∈ names, name ∈ asked := by
  induction names generalizing s with
  | nil => exact ⟨[], (List.append_nil _).symm, nofun⟩
  | cons name names ih =>
      obtain ⟨asked, hasked, hnames⟩ := ih (hs.on_load name).1
      obtain ⟨others, hothers⟩ : s.requests ++ [name] <+: ((table.load name).on s).2.requests :=
        requests_loadFrom_succ hs requests_loadFrom
      refine ⟨name :: (others ++ asked), ?_, ?_⟩
      · have hcons : (table.afterLoading (name :: names) s).requests
            = ((table.load name).on s).2.requests ++ asked := hasked
        rw [hcons, ← hothers]
        simp
      · intro other hother
        rcases List.mem_cons.mp hother with rfl | hother
        · exact List.mem_cons_self ..
        · exact List.mem_cons_of_mem _ (List.mem_append_right _ (hnames other hother))

end ModuleTable

namespace MarkedSuites

variable {table : ModuleTable} {selector : Selector} {s : Journal × MarkedSuites}
  {name module : String} {ds : List SuiteDeclaration} {f : Fault}

/-! ## Looking -/

/-- From every sound store steps end alike, write the same line, and ask for the same modules.  The
    only fault is one that nothing contains, raised by one of the modules; no line is written about
    it. -/
structure Looks {α : Type} (table : ModuleTable) (steps : Looking α) (result : Except Fault α)
    (line? : Option LogRecord) (tried : List String) : Prop where
  on : ∀ s : Journal × MarkedSuites, table.Sound s.2.store →
    steps.on s = (result, noting line? s.1, (afterImporting table tried s).2)
  raises : ∀ f, result = .error f → line? = none ∧ f.escapes = true ∧
    ∃ module ∈ tried, table.outcome module = .error f

theorem escapes_of_verdict {attributes : List String}
    (h : (verdict table name module attributes).1 = .error f) :
    (verdict table name module attributes).2 = none ∧ f.escapes = true ∧
      table.outcome module = .error f := by
  rw [verdict] at h ⊢
  cases hout : table.outcome module with
  | error g =>
      rw [hout] at h
      dsimp only at h ⊢
      by_cases hescapes : g.escapes = true
      · rw [if_pos hescapes] at h ⊢
        cases h
        exact ⟨rfl, hescapes, rfl⟩
      · rw [if_neg hescapes] at h
        cases h
  | ok scope =>
      rw [hout] at h
      dsimp only at h
      cases hfollow : follow scope attributes with
      | none =>
          rw [hfollow] at h
          cases h
      | some m =>
          rw [hfollow] at h
          cases h

theorem exists_looks_first (table : ModuleTable) (name : String)
    (places : List (String × List String)) :
    ∃ result line? tried, Looks table (lookInFirst table name places) result line? tried := by
  induction places with
  | nil => exact ⟨.ok none, some (unknownLine name), [], fun _ _ => rfl, fun _ h => by cases h⟩
  | cons place rest ih =>
      obtain ⟨module, attributes⟩ := place
      by_cases hlacks : table.Lacks module
      · obtain ⟨result, line?, tried, hon, hraises⟩ := ih
        refine ⟨result, line?, module :: tried, fun s hs => ?_, fun f hf => ?_⟩
        · rw [lookInFirst_of_lacks hs hlacks, hon _ (hs.afterLoading _)]
          rfl
        · obtain ⟨hline, hescapes, other, hother, hout⟩ := hraises f hf
          exact ⟨hline, hescapes, other, List.mem_cons_of_mem _ hother, hout⟩
      · refine ⟨_, _, [module], fun s hs => lookInFirst_of_not_lacks hs hlacks, fun f hf => ?_⟩
        obtain ⟨hline, hescapes, hout⟩ := escapes_of_verdict hf
        exact ⟨hline, hescapes, module, List.mem_singleton_self _, hout⟩

/-- The line about a module that is not there. -/
def noModuleLine (name : String) : LogRecord :=
  LogLevel.debug.record logger <|
    "Could not import module '" ++ name ++ "'; it declares no suites."

theorem exists_looks_module (table : ModuleTable) (name : String) :
    ∃ result line? tried, Looks table (lookInModule table name) result line? tried := by
  cases hout : table.outcome name with
  | ok scope =>
      refine ⟨.ok (declaredIn name scope), none, [name], fun s hs => ?_, fun _ h => by cases h⟩
      rw [lookInModule, on_importModule_bind fun _ => rfl, hs.load_eq_outcome, hout]
      rfl
  | error f =>
      have hon : ∀ s : Journal × MarkedSuites, table.Sound s.2.store →
          ((table.load name).on s.2.store).1 = .error f := fun s hs => by
        rw [hs.load_eq_outcome, hout]
      by_cases himport : f.kind.isImport = true
      · refine ⟨.ok [], some (noModuleLine name), [name], fun s hs => ?_, fun _ h => by cases h⟩
        rw [lookInModule, on_importModule_bind fun _ => rfl, hon s hs]
        exact if_pos himport
      by_cases hescapes : f.escapes = true
      · refine ⟨.error f, none, [name], fun s hs => ?_, fun g hg => ?_⟩
        · rw [lookInModule, on_importModule_bind fun _ => rfl, hon s hs]
          exact (if_neg himport).trans (if_pos hescapes)
        · cases hg
          exact ⟨rfl, hescapes, name, List.mem_singleton_self _, hout⟩
      · refine ⟨.ok [], some (brokenLine name f), [name], fun s hs => ?_, fun _ h => by cases h⟩
        rw [lookInModule, on_importModule_bind fun _ => rfl, hon s hs]
        exact (if_neg himport).trans (if_neg hescapes)

/-! ## One question -/

/-- What is remembered for a selector.  For one that never reaches a suite there is nothing to look
    up. -/
def recalls (m : MarkedSuites) : Selector → Option (List SuiteDeclaration)
  | .ofClass name => (m.classes.get? name.text).map Option.toList
  | .ofModule name => m.modules.get? name.text
  | .ofMethod _ _ => some []
  | .ofUniqueId _ => some []

/-- The reply of a resolver that was asked nothing before, where no module is loaded. -/
def reply (table : ModuleTable) (selector : Selector) : Except Fault (List SuiteDeclaration) :=
  ((suitesFor table selector).on (∅, ∅)).1

/-- What is remembered is the reply. -/
theorem suitesFor_of_recalls (h : recalls s.2 selector = some ds) :
    (suitesFor table selector).on s = (.ok ds, s) := by
  cases selector with
  | ofClass name =>
      obtain ⟨known, hknown, rfl⟩ := Option.map_eq_some_iff.mp h
      rw [on_suitesFor_ofClass, on_suiteOfClass, hknown]
      rfl
  | ofModule name =>
      have hknown : s.2.modules.get? name.text = some ds := h
      rw [suitesFor, on_suitesOfModule, hknown]
  | ofMethod className methodName =>
      cases h
      rfl
  | ofUniqueId id =>
      cases h
      rfl

/-- What a resolver knows that has found an answer it did not know. -/
structure Keeps (table : ModuleTable) (selector : Selector) (ds : List SuiteDeclaration)
    (tried : List String) (m m' : MarkedSuites) : Prop where
  store : m'.store = table.afterLoading tried m.store
  recalls : recalls m' selector = some ds
  others : ∀ other, other ≠ selector → MarkedSuites.recalls m' other = MarkedSuites.recalls m other

theorem keeps_class (name : Text.NonBlank) (found : Option SuiteDeclaration) (tried : List String)
    (s : Journal × MarkedSuites) :
    Keeps table (.ofClass name) found.toList tried s.2
      { (afterImporting table tried s).2 with classes := s.2.classes.insert name.text found } where
  store := rfl
  recalls := by
    rw [MarkedSuites.recalls, OrderedMap.get?_insert, if_pos rfl]
    rfl
  others := by
    intro other hother
    cases other with
    | ofClass name' =>
        have hne : name.text ≠ name'.text := fun h => hother (by
          cases name
          cases name'
          cases h
          rfl)
        rw [MarkedSuites.recalls, MarkedSuites.recalls, OrderedMap.get?_insert, if_neg hne]
    | ofModule name' => rfl
    | ofMethod className methodName => rfl
    | ofUniqueId id => rfl

theorem keeps_module (name : Text.NonBlank) (ds : List SuiteDeclaration) (tried : List String)
    (s : Journal × MarkedSuites) :
    Keeps table (.ofModule name) ds tried s.2
      { (afterImporting table tried s).2 with modules := s.2.modules.insert name.text ds } where
  store := rfl
  recalls := by rw [MarkedSuites.recalls, OrderedMap.get?_insert, if_pos rfl]
  others := by
    intro other hother
    cases other with
    | ofClass name' => rfl
    | ofModule name' =>
        have hne : name.text ≠ name'.text := fun h => hother (by
          cases name
          cases name'
          cases h
          rfl)
        rw [MarkedSuites.recalls, MarkedSuites.recalls, OrderedMap.get?_insert, if_neg hne]
    | ofMethod className methodName => rfl
    | ofUniqueId id => rfl

/-- What is not remembered is looked up; an answer is kept, and after a fault only more modules
    are loaded. -/
theorem exists_looked_up (table : ModuleTable) (selector : Selector) :
    ∃ result tried,
      (∀ s : Journal × MarkedSuites, table.Sound s.2.store → recalls s.2 selector = none →
        ∃ t, (suitesFor table selector).on s = (result, t) ∧
          (∀ ds, result = .ok ds → Keeps table selector ds tried s.2 t.2) ∧
          ∀ f, result = .error f → t = afterImporting table tried s) ∧
      ∀ f, result = .error f → f.escapes = true ∧
        ∃ module ∈ tried, table.outcome module = .error f := by
  cases selector with
  | ofClass name =>
      obtain ⟨result, line?, tried, hon, hraises⟩ :=
        exists_looks_first table name.text (partings name.text)
      refine ⟨result.map Option.toList, tried, fun s hs hnew => ?_, fun f hf => ?_⟩
      · have hnone : s.2.classes.get? name.text = none := Option.map_eq_none_iff.mp hnew
        rw [on_suitesFor_ofClass, on_suiteOfClass, hnone, lookForClass, hon s hs]
        cases result with
        | ok found =>
            refine ⟨_, rfl, fun ds hds => ?_, fun _ h => by cases h⟩
            cases hds
            exact keeps_class name found tried s
        | error f =>
            refine ⟨_, rfl, (fun _ h => by cases h), fun _ _ => ?_⟩
            rw [(hraises f rfl).1]
            rfl
      · cases result with
        | ok found => cases hf
        | error g =>
            cases hf
            exact (hraises f rfl).2
  | ofModule name =>
      obtain ⟨result, line?, tried, hon, hraises⟩ := exists_looks_module table name.text
      refine ⟨result, tried, fun s hs hnew => ?_, fun f hf => (hraises f hf).2⟩
      have hnone : s.2.modules.get? name.text = none := hnew
      rw [suitesFor, on_suitesOfModule, hnone, hon s hs]
      cases result with
      | ok found =>
          refine ⟨_, rfl, fun ds hds => ?_, fun _ h => by cases h⟩
          cases hds
          exact keeps_module name found tried s
      | error f =>
          refine ⟨_, rfl, (fun _ h => by cases h), fun _ _ => ?_⟩
          rw [(hraises f rfl).1]
          rfl
  | ofMethod className methodName =>
      refine ⟨.ok [], [], fun s _ hnew => ?_, fun _ h => by cases h⟩
      cases hnew
  | ofUniqueId id =>
      refine ⟨.ok [], [], fun s _ hnew => ?_, fun _ h => by cases h⟩
      cases hnew

/-- What is known is what a resolver replies that was asked nothing before. -/
structure Faithful (table : ModuleTable) (m : MarkedSuites) : Prop where
  store : table.Sound m.store
  recalls : ∀ selector ds, recalls m selector = some ds → reply table selector = .ok ds

/-- How a question is dealt with. -/
inductive Handled (table : ModuleTable) (selector : Selector) (s : Journal × MarkedSuites) :
    Except Fault (List SuiteDeclaration) → Journal × MarkedSuites → Prop where
  | known {ds : List SuiteDeclaration} (h : recalls s.2 selector = some ds) :
      Handled table selector s (.ok ds) s
  | found {ds : List SuiteDeclaration} {t : Journal × MarkedSuites} {tried : List String}
      (hreply : reply table selector = .ok ds) (h : Keeps table selector ds tried s.2 t.2) :
      Handled table selector s (.ok ds) t
  | raised {f : Fault} {tried : List String} (hreply : reply table selector = .error f)
      (hescapes : f.escapes = true) (h : ∃ module ∈ tried, table.outcome module = .error f) :
      Handled table selector s (.error f) (afterImporting table tried s)

theorem exists_handled (hs : table.Sound s.2.store) (selector : Selector) :
    ∃ result t, (suitesFor table selector).on s = (result, t) ∧
      Handled table selector s result t := by
  cases hknown : recalls s.2 selector with
  | some ds => exact ⟨_, _, suitesFor_of_recalls hknown, .known hknown⟩
  | none =>
      obtain ⟨result, tried, hon, hraises⟩ := exists_looked_up table selector
      have hfresh : recalls (∅ : MarkedSuites) selector = none := by
        cases selector <;> first | rfl | cases hknown
      have hreply : reply table selector = result := by
        obtain ⟨t, ht, -⟩ := hon (∅, ∅) table.sound_empty hfresh
        rw [reply, ht]
      obtain ⟨t, ht, hfound, hfails⟩ := hon s hs hknown
      refine ⟨result, t, ht, ?_⟩
      cases result with
      | ok ds => exact .found hreply (hfound ds rfl)
      | error f =>
          obtain ⟨hescapes, hmodule⟩ := hraises f rfl
          rw [hfails f rfl]
          exact .raised hreply hescapes hmodule

/-! ## A row of questions -/

theorem faithful_of_store {store : ModuleStore} (hstore : table.Sound store) :
    Faithful table { store := store } where
  store := hstore
  recalls := by
    intro selector ds h
    cases selector with
    | ofClass name => cases h
    | ofModule name => cases h
    | ofMethod className methodName =>
        cases h
        rfl
    | ofUniqueId id =>
        cases h
        rfl

theorem Keeps.faithful {tried : List String} {m m' : MarkedSuites}
    (h : Keeps table selector ds tried m m') (hreply : reply table selector = .ok ds)
    (hm : Faithful table m) : Faithful table m' where
  store := h.store ▸ hm.store.afterLoading tried
  recalls := by
    intro other ds' hother
    by_cases heq : other = selector
    · subst heq
      rw [h.recalls] at hother
      cases hother
      exact hreply
    · rw [h.others other heq] at hother
      exact hm.recalls other ds' hother

/-- The reply does not depend on what is remembered, and what is remembered stays right. -/
theorem Faithful.suitesFor (h : Faithful table s.2) (selector : Selector) :
    ((suitesFor table selector).on s).1 = reply table selector ∧
      Faithful table ((suitesFor table selector).on s).2.2 := by
  obtain ⟨result, t, hon, hhandled⟩ := exists_handled h.store selector
  rw [hon]
  cases hhandled with
  | known hknown => exact ⟨(h.recalls selector _ hknown).symm, h⟩
  | found hreply hkeeps => exact ⟨hreply.symm, hkeeps.faithful hreply h⟩
  | raised hreply _ _ =>
      exact ⟨hreply.symm, h.store.afterLoading _, fun other ds => h.recalls other ds⟩

/-- The replies to a row of questions. -/
def replies (table : ModuleTable) : List Selector → Journal × MarkedSuites →
    List (Except Fault (List SuiteDeclaration))
  | [], _ => []
  | selector :: rest, s =>
    ((suitesFor table selector).on s).1 :: replies table rest ((suitesFor table selector).on s).2

theorem Faithful.replies (h : Faithful table s.2) (selectors : List Selector) :
    replies table selectors s = selectors.map (reply table) := by
  induction selectors generalizing s with
  | nil => rfl
  | cons selector rest ih =>
      obtain ⟨hreply, hnext⟩ := h.suitesFor selector
      rw [MarkedSuites.replies, hreply, ih hnext, List.map_cons]

theorem Faithful.afterAsking (h : Faithful table s.2) (selectors : List Selector) :
    Faithful table (afterAsking table selectors s).2 := by
  induction selectors generalizing s with
  | nil => exact h
  | cons selector rest ih => exact ih (h.suitesFor selector).2

/-- What is remembered stays so, whatever is asked next. -/
theorem Faithful.recalls_suitesFor (h : Faithful table s.2)
    (hknown : MarkedSuites.recalls s.2 selector = some ds) (other : Selector) :
    MarkedSuites.recalls ((MarkedSuites.suitesFor table other).on s).2.2 selector = some ds := by
  by_cases heq : selector = other
  · rw [← heq, suitesFor_of_recalls hknown]
    exact hknown
  · obtain ⟨result, t, hon, hhandled⟩ := exists_handled h.store other
    rw [hon]
    cases hhandled with
    | known _ => exact hknown
    | found _ hkeeps => exact (hkeeps.others selector heq).trans hknown
    | raised _ _ _ => cases selector <;> exact hknown

theorem Faithful.recalls_afterAsking (h : Faithful table s.2)
    (hknown : MarkedSuites.recalls s.2 selector = some ds) (selectors : List Selector) :
    MarkedSuites.recalls (MarkedSuites.afterAsking table selectors s).2 selector = some ds := by
  induction selectors generalizing s with
  | nil => exact hknown
  | cons other rest ih => exact ih (h.suitesFor other).2 (h.recalls_suitesFor hknown other)

/-! ## Memory is invisible -/

/-- A resolver that was asked nothing yet, where modules were loaded. -/
def unasked (table : ModuleTable) (loaded : List String) (j : Journal) : Journal × MarkedSuites :=
  (j, { store := table.afterLoading loaded {} })

theorem faithful_unasked (table : ModuleTable) (loaded : List String) (j : Journal) :
    Faithful table (unasked table loaded j).2 :=
  faithful_of_store (table.sound_empty.afterLoading loaded)

end MarkedSuites

open MarkedSuites in
/-- **Memory is invisible.**  Whatever was loaded and asked before, an import ends as it does when
    nothing is loaded.  So the replies to a row of selectors are those of as many resolvers that
    were asked nothing before, each with whatever modules loaded.  A selector that got an answer
    gets the same answer again, however much was asked in between, and nothing else happens:
    nothing is imported, written down or forgotten.  A fault that passes is not contained by
    anything; no line is written about it, nothing is remembered, and next time the module that
    raised it is asked for again, with the same fault. -/
theorem ModuleTable.memory_invisible (table : ModuleTable) (loaded : List String) (j : Journal)
    (selectors : List Selector) :
    let s := afterAsking table selectors (unasked table loaded j)
    (∀ names module, ((table.load module).on (table.afterLoading names s.2.store)).1
      = table.outcome module) ∧
    (∀ loaded' j', replies table selectors (unasked table loaded j)
      = selectors.map fun selector =>
          ((suitesFor table selector).on (unasked table loaded' j')).1) ∧
    ∀ selector more,
      let t := ((suitesFor table selector).on s).2
      let u := afterAsking table more t
      match ((suitesFor table selector).on s).1 with
      | .ok ds => (suitesFor table selector).on u = (.ok ds, u)
      | .error f =>
        f.escapes = true ∧ t.1 = s.1 ∧ t.2.classes = s.2.classes ∧ t.2.modules = s.2.modules ∧
          ∃ v tried, (suitesFor table selector).on u = (.error f, v) ∧
            v.2.store.requests = u.2.store.requests ++ tried ∧
            ∃ module ∈ tried, table.outcome module = .error f := by
  intro s
  have hs : Faithful table s.2 := (faithful_unasked table loaded j).afterAsking selectors
  refine ⟨fun names module => (hs.store.afterLoading names).load_eq_outcome module,
    fun loaded' j' => ?_, fun selector more => ?_⟩
  · rw [(faithful_unasked table loaded j).replies]
    exact List.map_congr_left fun selector _ =>
      ((faithful_unasked table loaded' j').suitesFor selector).1.symm
  · obtain ⟨result, t, hon, hhandled⟩ := exists_handled hs.store selector
    obtain ⟨hreply, ht⟩ := hs.suitesFor selector
    rw [hon] at hreply ht ⊢
    have hu : Faithful table (afterAsking table more t).2 := ht.afterAsking more
    cases hhandled with
    | known hknown => exact suitesFor_of_recalls (hs.recalls_afterAsking hknown more)
    | found _ hkeeps => exact suitesFor_of_recalls (ht.recalls_afterAsking hkeeps.recalls more)
    | raised _ hescapes _ =>
        refine ⟨hescapes, rfl, rfl, rfl, ?_⟩
        obtain ⟨result, v, hagain, hhandled⟩ := exists_handled hu.store selector
        have hsame := (hu.suitesFor selector).1
        rw [hagain, ← hreply] at hsame
        cases hhandled with
        | known _ => cases hsame
        | found _ _ => cases hsame
        | raised _ _ hmodule =>
            cases hsame
            obtain ⟨module, hmem, hout⟩ := hmodule
            obtain ⟨asked, hasked, hnames⟩ := hu.store.requests_afterLoading _
            exact ⟨_, asked, hagain, hasked, module, hnames module hmem, hout⟩

end TestLauncher
