import TestLauncher.Proofs.Suite.Importing
import TestLauncher.Proofs.Suite.Imports

/-! # Looking for marked suites

    What the resolver knows grows with every question: modules are loaded, and answers are
    remembered.  Neither changes an answer.  A state that came about by asking is settled
    (`settled_afterAsking`): the store is sound, and what is remembered is what the modules
    of the table come to.  From every settled state a selector has the same answer
    (`Answers`), or a module that was asked for raises a fault that nothing contains
    (`Settled.suitesFor`). -/

namespace TestLauncher

/-- The suites that a module declares; none if it does not load. -/
def ModuleTable.suitesIn (table : ModuleTable) (name : String) : List SuiteDeclaration :=
  match table.fresh name with
  | .ok scope => MarkedSuites.declaredIn name scope
  | .error _ => []

namespace MarkedSuites

variable {table : ModuleTable} {name module : String} {s : Journal × MarkedSuites}
  {scope : Namespace} {attributes : List String} {d : SuiteDeclaration}
  {rest : List (String × List String)} {f : Fault}

/-! ## Imports -/

/-- All that changed is what is loaded, and that is sound. -/
structure Loads (table : ModuleTable) (m m' : MarkedSuites) : Prop where
  store : table.Sound m'.store
  classes : m'.classes = m.classes
  modules : m'.modules = m.modules

/-- Loading more after loading some is loading. -/
theorem Loads.trans {m m' m'' : MarkedSuites} (h : Loads table m m') (h' : Loads table m' m'') :
    Loads table m m'' :=
  ⟨h'.store, h'.classes.trans h.classes, h'.modules.trans h.modules⟩

/-- Importing a module raises a fault that nothing contains. -/
def Raises (table : ModuleTable) (module : String) (f : Fault) : Prop :=
  f.escapes = true ∧ ∃ store, table.Sound store ∧ ((table.load module).on store).1 = .error f

/-- A module whose import raises a fault does not load. -/
theorem Raises.not_fresh (h : Raises table module f) (scope : Namespace) :
    table.fresh module ≠ .ok scope := by
  obtain ⟨-, store, hstore, hload⟩ := h
  intro hfresh
  rw [((hstore.on_load module).2 scope).mpr hfresh] at hload
  cases hload

/-- A fault that no one contains is raised from the empty store. -/
theorem Raises.of_outcome (h : table.outcome module = .error f) (hf : f.escapes = true) :
    Raises table module f :=
  ⟨hf, {}, table.sound_empty, h⟩

/-- A module that ends with a fault does not load. -/
theorem not_fresh_of_outcome (h : table.outcome module = .error f) (scope : Namespace) :
    table.fresh module ≠ .ok scope := by
  intro hfresh
  rw [ModuleTable.outcome_eq_ok.mpr hfresh] at h
  cases h

/-- A module that does not load declares no suites. -/
theorem suitesIn_of_outcome (h : table.outcome name = .error f) : table.suitesIn name = [] := by
  rw [ModuleTable.suitesIn]
  split
  · rename_i scope hfresh
    exact absurd hfresh (not_fresh_of_outcome h scope)
  · rfl

/-- Importing loads and leaves what is remembered alone. -/
theorem loads_afterImporting (hs : table.Sound s.2.store) (module : String) :
    Loads table s.2 (afterImporting table [module] s).2 :=
  ⟨(hs.on_load module).1, rfl, rfl⟩

/-- Looking in a module ends with the suites it declares, or its import raises a fault that nothing
    contains. -/
theorem lookInModule_ends (hs : table.Sound s.2.store) (name : String) :
    ∃ result t, (lookInModule table name).on s = (result, t) ∧ Loads table s.2 t.2 ∧
      (result = .ok (table.suitesIn name) ∨ ∃ f, result = .error f ∧ Raises table name f) := by
  have hloads := loads_afterImporting hs name
  rw [lookInModule, on_importModule_bind fun _ => rfl, hs.load_eq_outcome]
  cases hout : table.outcome name with
  | ok scope =>
      rw [ModuleTable.suitesIn, ModuleTable.outcome_eq_ok.mp hout]
      exact ⟨_, _, rfl, hloads, Or.inl rfl⟩
  | error f =>
      rw [suitesIn_of_outcome hout]
      dsimp only
      split
      · exact ⟨_, _, rfl, ⟨hloads.store, hloads.classes, hloads.modules⟩, Or.inl rfl⟩
      · split
        · rename_i hescapes
          exact ⟨_, _, rfl, hloads, Or.inr ⟨f, rfl, .of_outcome hout hescapes⟩⟩
        · exact ⟨_, _, rfl, hloads, Or.inl rfl⟩

/-! ## Classes -/

/-- In a scope of marked members every member that is reached is marked. -/
theorem marked_of_follow {m : Member} (hscope : MarkedScope scope)
    (h : follow scope attributes = some m) : m.Marked := by
  have hfold : ∀ (attributes : List String) {m n : Member}, m.Marked →
      attributes.foldlM Member.attribute? m = some n → n.Marked := by
    intro attributes
    induction attributes with
    | nil =>
        intro m n hm h
        cases h
        exact hm
    | cons attr attributes ih =>
        intro m n hm h
        obtain ⟨m', hm', h⟩ := Option.bind_eq_some_iff.mp h
        refine ih ?_ h
        cases hm with
        | value v => cases hm'
        | ofClass _ hattributes =>
            obtain ⟨before, after, rfl, -⟩ := List.lookup_eq_some_iff.mp hm'
            exact hattributes (attr, m') (by simp)
  cases attributes with
  | nil => cases h
  | cons attr attributes =>
      obtain ⟨m', hm', h⟩ := Option.bind_eq_some_iff.mp h
      exact hfold attributes (hscope.of_get? hm') h

/-- A suite reached from a scope of marked members has an accepted mark. -/
theorem declares_of_follow (hscope : MarkedScope scope)
    (h : (follow scope attributes).bind Member.suite? = some d) :
    ∃ owner qualifiedName, SuiteMark.Declares owner qualifiedName d := by
  obtain ⟨m, hm, hd⟩ := Option.bind_eq_some_iff.mp h
  cases marked_of_follow hscope hm with
  | value v => cases hd
  | ofClass hsuite _ => exact ⟨_, _, hsuite d hd⟩

/-- The suite that a class is found to be, if any: where the first module that it may be in loads,
    what that module has under its name; and in any case a suite with an accepted mark. -/
structure Found (table : ModuleTable) (places : List (String × List String))
    (suite? : Option SuiteDeclaration) : Prop where
  first : ∀ module attributes rest scope, places = (module, attributes) :: rest →
    table.fresh module = .ok scope → suite? = (follow scope attributes).bind Member.suite?
  declared : ∀ d, suite? = some d → ∃ owner qualifiedName,
    SuiteMark.Declares owner qualifiedName d

/-- No suite is found where the first module does not load. -/
theorem found_none {places : List (String × List String)}
    (h : ∀ module attributes rest, places = (module, attributes) :: rest →
      ∀ scope, table.fresh module ≠ .ok scope) : Found table places none where
  first := fun module attributes rest scope hplaces hfresh =>
    absurd hfresh (h module attributes rest hplaces scope)
  declared := fun d hd => by cases hd

/-- Where the first module loads, the others are not looked in. -/
theorem lookInFirst_of_fresh (hs : table.Sound s.2.store) (h : table.fresh module = .ok scope)
    (name : String) (attributes : List String) (rest : List (String × List String)) :
    ∃ t, (lookInFirst table name ((module, attributes) :: rest)).on s
      = (.ok ((follow scope attributes).bind Member.suite?), t) ∧ Loads table s.2 t.2 := by
  have hloads := loads_afterImporting hs module
  rw [lookInFirst, on_importModule_bind fun _ => rfl, hs.load_eq_outcome,
    ModuleTable.outcome_eq_ok.mpr h]
  dsimp only
  cases follow scope attributes with
  | none => exact ⟨_, rfl, ⟨hloads.store, hloads.classes, hloads.modules⟩⟩
  | some m => exact ⟨_, rfl, hloads⟩

/-- Looking in the first module that loads ends with what the class is found to be, or an import
    raises a fault that nothing contains. -/
theorem lookInFirst_ends (hs : table.Sound s.2.store) (name : String)
    (places : List (String × List String)) :
    ∃ result t, (lookInFirst table name places).on s = (result, t) ∧ Loads table s.2 t.2 ∧
      ((∃ suite?, result = .ok suite? ∧ Found table places suite?) ∨
        ∃ f, result = .error f ∧ ∃ place ∈ places, Raises table place.1 f) := by
  induction places generalizing s with
  | nil =>
      refine ⟨_, _, rfl, ⟨hs, rfl, rfl⟩, Or.inl ⟨none, rfl, found_none ?_⟩⟩
      intro module attributes rest h
      cases h
  | cons place rest ih =>
      obtain ⟨module, attributes⟩ := place
      cases hout : table.outcome module with
      | ok scope =>
          have hfresh := ModuleTable.outcome_eq_ok.mp hout
          obtain ⟨u, hu, hloads⟩ := lookInFirst_of_fresh hs hfresh name attributes rest
          refine ⟨_, u, hu, hloads, Or.inl ⟨_, rfl, ?_, ?_⟩⟩
          · intro module' attributes' rest' scope' hplaces hfresh'
            cases hplaces
            rw [hfresh] at hfresh'
            cases hfresh'
            rfl
          · exact fun d hd => declares_of_follow (ModuleTable.marked_of_fresh hfresh) hd
      | error f =>
          have hloads := loads_afterImporting hs module
          have hno := not_fresh_of_outcome hout
          rw [lookInFirst, on_importModule_bind fun _ => rfl, hs.load_eq_outcome, hout]
          dsimp only
          split
          · obtain ⟨result, u, hu, hloads', hcases⟩ := ih hloads.store
            refine ⟨result, u, hu, hloads.trans hloads', ?_⟩
            rcases hcases with ⟨suite?, hok, hfound⟩ | ⟨f, hf, place, hplace, hraises⟩
            · refine Or.inl ⟨suite?, hok, ?_, hfound.declared⟩
              intro module' attributes' rest' scope' hplaces hfresh
              cases hplaces
              exact absurd hfresh (hno scope')
            · exact Or.inr ⟨f, hf, place, List.mem_cons_of_mem _ hplace, hraises⟩
          · split
            · rename_i hescapes
              exact ⟨_, _, rfl, hloads, Or.inr ⟨f, rfl, _, List.mem_cons_self ..,
                .of_outcome hout hescapes⟩⟩
            · refine ⟨_, _, rfl, hloads, Or.inl ⟨none, rfl, found_none ?_⟩⟩
              intro _ _ _ h
              cases h
              exact hno

/-! ## Memory -/

/-- What the resolver knows is right. -/
structure Settled (table : ModuleTable) (m : MarkedSuites) : Prop where
  store : table.Sound m.store
  modules : ∀ name ds, m.modules.get? name = some ds → ds = table.suitesIn name
  classes : ∀ name suite?, m.classes.get? name = some suite? → Found table (partings name) suite?

/-- A resolver that was never asked is settled. -/
theorem settled_empty (table : ModuleTable) : Settled table ∅ where
  store := table.sound_empty
  modules := fun _ _ h => by cases h
  classes := fun _ _ h => by cases h

/-- Loading keeps a resolver settled. -/
theorem Settled.loads {m m' : MarkedSuites} (h : Settled table m) (hloads : Loads table m m') :
    Settled table m' where
  store := hloads.store
  modules := fun name ds hds => h.modules name ds (hloads.modules ▸ hds)
  classes := fun name suite? hsuite => h.classes name suite? (hloads.classes ▸ hsuite)

/-- Remembering what a module declares keeps it settled. -/
theorem Settled.remember_modules {m : MarkedSuites} (h : Settled table m) (name : String) :
    Settled table { m with modules := m.modules.insert name (table.suitesIn name) } where
  store := h.store
  classes := h.classes
  modules := by
    intro name' ds hds
    rw [OrderedMap.get?_insert] at hds
    split at hds
    · rename_i heq
      cases hds
      rw [heq]
    · exact h.modules name' ds hds

/-- Remembering what a class was found to be keeps it settled. -/
theorem Settled.remember_classes {m : MarkedSuites} {suite? : Option SuiteDeclaration}
    (h : Settled table m) (hfound : Found table (partings name) suite?) :
    Settled table { m with classes := m.classes.insert name suite? } where
  store := h.store
  modules := h.modules
  classes := by
    intro name' suite?' hsuite
    rw [OrderedMap.get?_insert] at hsuite
    split at hsuite
    · rename_i heq
      cases hsuite
      exact heq ▸ hfound
    · exact h.classes name' suite?' hsuite

variable (h : Settled table s.2)

include h

/-- A settled resolver replies with what the module declares, or an import raises a fault that
    nothing contains. -/
theorem Settled.suitesOfModule (name : String) :
    ∃ result t, (suitesOfModule table name).on s = (result, t) ∧ Settled table t.2 ∧
      (result = .ok (table.suitesIn name) ∨ ∃ f, result = .error f ∧ Raises table name f) := by
  rw [on_suitesOfModule]
  cases hknown : s.2.modules.get? name with
  | some known => exact ⟨_, _, rfl, h, Or.inl (by rw [h.modules name known hknown])⟩
  | none =>
      obtain ⟨result, t, hon, hloads, hcases⟩ := lookInModule_ends h.store name
      rw [hon]
      rcases hcases with rfl | ⟨f, rfl, hraises⟩
      · exact ⟨_, _, rfl, (h.loads hloads).remember_modules name, Or.inl rfl⟩
      · exact ⟨_, _, rfl, h.loads hloads, Or.inr ⟨f, rfl, hraises⟩⟩

/-- A settled resolver replies with what the class is found to be, or an import raises a fault that
    nothing contains. -/
theorem Settled.suiteOfClass (name : String) :
    ∃ result t, (suiteOfClass table name).on s = (result, t) ∧ Settled table t.2 ∧
      ((∃ suite?, result = .ok suite? ∧ Found table (partings name) suite?) ∨
        ∃ f, result = .error f ∧ ∃ place ∈ partings name, Raises table place.1 f) := by
  rw [on_suiteOfClass]
  cases hknown : s.2.classes.get? name with
  | some known => exact ⟨_, _, rfl, h, Or.inl ⟨known, rfl, h.classes name known hknown⟩⟩
  | none =>
      obtain ⟨result, t, hon, hloads, hcases⟩ := lookInFirst_ends h.store name (partings name)
      rw [lookForClass, hon]
      rcases hcases with ⟨suite?, rfl, hfound⟩ | ⟨f, rfl, hraises⟩
      · exact ⟨_, _, rfl, (h.loads hloads).remember_classes hfound, Or.inl ⟨suite?, rfl, hfound⟩⟩
      · exact ⟨_, _, rfl, h.loads hloads, Or.inr ⟨f, rfl, hraises⟩⟩

/-- A class whose first module loads is found, or found not to be a suite. -/
theorem Settled.suiteOfClass_of_fresh
    (hname : partings name = (module, attributes) :: rest)
    (hfresh : table.fresh module = .ok scope) :
    ((MarkedSuites.suiteOfClass table name).on s).1
      = .ok ((follow scope attributes).bind Member.suite?) := by
  rw [on_suiteOfClass]
  cases hknown : s.2.classes.get? name with
  | some known =>
      exact congrArg Except.ok ((h.classes name known hknown).first _ _ _ _ hname hfresh)
  | none =>
      obtain ⟨t, hon, -⟩ := lookInFirst_of_fresh h.store hfresh name attributes rest
      rw [lookForClass, hname, hon]

/-! ## Selectors -/

omit h

/-- The modules that are asked for when suites are looked for. -/
def modulesOf : Selector → List String
  | .ofClass name => (partings name.text).map Prod.fst
  | .ofModule name => [name.text]
  | .ofMethod _ _ => []
  | .ofUniqueId _ => []

/-- What a selector has as answer. -/
inductive Answers (table : ModuleTable) : Selector → List SuiteDeclaration → Prop where
  | ofClass {name : Text.NonBlank} {suite? : Option SuiteDeclaration}
      (h : Found table (partings name.text) suite?) : Answers table (.ofClass name) suite?.toList
  | ofModule {name : Text.NonBlank} : Answers table (.ofModule name) (table.suitesIn name.text)
  | ofMethod {className methodName : Text.NonBlank} :
      Answers table (.ofMethod className methodName) []
  | ofUniqueId {id : UniqueId} : Answers table (.ofUniqueId id) []

/-- A module declares the suites of the classes it defines. -/
theorem mem_declaredIn :
    d ∈ declaredIn module scope ↔ ∃ attr qualifiedName attributes,
      (attr, .ofClass module qualifiedName (some d) attributes) ∈ scope.toList := by
  rw [declaredIn, OrderedMap.values, List.mem_filterMap]
  constructor
  · rintro ⟨m, hm, hd⟩
    obtain ⟨⟨attr, m⟩, hmem, rfl⟩ := List.mem_map.mp hm
    cases m with
    | value v => cases hd
    | ofClass owner qualifiedName suite? attributes =>
        dsimp only at hd
        split at hd
        · rename_i howner
          subst howner hd
          exact ⟨attr, qualifiedName, attributes, hmem⟩
        · cases hd
  · rintro ⟨attr, qualifiedName, attributes, hmem⟩
    exact ⟨_, List.mem_map_of_mem hmem, if_pos rfl⟩

/-- A module that loads has the suites of its fresh namespace. -/
theorem mem_suitesIn : d ∈ table.suitesIn name ↔ ∃ scope, table.fresh name = .ok scope ∧
    d ∈ declaredIn name scope := by
  rw [ModuleTable.suitesIn]
  split
  · rename_i scope h
    simp [h]
  · rename_i f h
    simp [h]

/-- All suites in answers are those of classes with accepted marks. -/
theorem Answers.declares {selector : Selector} {ds : List SuiteDeclaration}
    (h : Answers table selector ds) (hd : d ∈ ds) :
    ∃ owner qualifiedName, SuiteMark.Declares owner qualifiedName d := by
  cases h with
  | ofClass hfound => exact hfound.declared d (Option.mem_toList.mp hd)
  | ofModule =>
      obtain ⟨scope, hfresh, hmem⟩ := mem_suitesIn.mp hd
      obtain ⟨attr, qualifiedName, attributes, hmem⟩ := mem_declaredIn.mp hmem
      cases ModuleTable.marked_of_fresh hfresh _ hmem with
      | ofClass hsuite _ => exact ⟨_, _, hsuite d rfl⟩
  | ofMethod => cases hd
  | ofUniqueId => cases hd

/-- How a selector is replied to: with its answer, or a module that is asked for raises a fault
    that nothing contains. -/
inductive Replies (table : ModuleTable) (selector : Selector) :
    Except Fault (List SuiteDeclaration) → Prop where
  | answered {ds : List SuiteDeclaration} (h : Answers table selector ds) :
      Replies table selector (.ok ds)
  | raised {module : String} {f : Fault} (hmodule : module ∈ modulesOf selector)
      (h : Raises table module f) : Replies table selector (.error f)

/-- **Settled states reply alike**, and what is known after a question is right as well. -/
theorem Settled.suitesFor (h : Settled table s.2) (selector : Selector) :
    Settled table ((suitesFor table selector).on s).2.2 ∧
      Replies table selector ((suitesFor table selector).on s).1 := by
  cases selector with
  | ofClass name =>
      obtain ⟨result, t, hon, hsettled, hcases⟩ := h.suiteOfClass name.text
      rw [MarkedSuites.suitesFor]
      rcases hcases with ⟨suite?, rfl, hfound⟩ | ⟨f, rfl, place, hplace, hraises⟩
      · rw [Steps.on_bind_ok hon]
        exact ⟨hsettled, .answered (.ofClass hfound)⟩
      · rw [Steps.on_bind_error hon]
        exact ⟨hsettled, .raised (List.mem_map_of_mem hplace) hraises⟩
  | ofModule name =>
      obtain ⟨result, t, hon, hsettled, hcases⟩ := h.suitesOfModule name.text
      rw [MarkedSuites.suitesFor, hon]
      refine ⟨hsettled, ?_⟩
      rcases hcases with rfl | ⟨f, rfl, hraises⟩
      · exact .answered .ofModule
      · exact .raised (List.mem_singleton_self _) hraises
  | ofMethod c m => exact ⟨h, .answered .ofMethod⟩
  | ofUniqueId id => exact ⟨h, .answered .ofUniqueId⟩

/-- The state after selectors were asked about one after the other, whatever came of it. -/
def afterAsking (table : ModuleTable) (selectors : List Selector) (s : Journal × MarkedSuites) :
    Journal × MarkedSuites :=
  selectors.foldl (fun s selector => ((suitesFor table selector).on s).2) s

/-- Asking keeps a resolver settled. -/
theorem Settled.afterAsking (h : Settled table s.2) (selectors : List Selector) :
    Settled table (afterAsking table selectors s).2 := by
  induction selectors generalizing s with
  | nil => exact h
  | cons selector selectors ih => exact ih (h.suitesFor selector).1

/-- A resolver is settled after any questions. -/
theorem settled_afterAsking (table : ModuleTable) (selectors : List Selector) (j : Journal) :
    Settled table (afterAsking table selectors (j, ∅)).2 :=
  (settled_empty table : Settled table (j, (∅ : MarkedSuites)).2).afterAsking selectors

end MarkedSuites

end TestLauncher
