import TestLauncher.Proofs.Discovery.Ancestries
import TestLauncher.Proofs.Suite.Expanding

/-! # Two ways to a suite

    A suite can be selected with its module or by its own name.  The first looks through
    the members of the module for suites that belong to it; the second tries leading parts
    of the name as modules, the longest first, and goes on from there by attributes.  For a
    class that its module has under its own name, which has no dot, the longest part is the
    module and the rest is that name, so both ways lead to one suite
    (`ModuleTable.paths_agree`), and a request that goes both ways has one further request
    for it. -/

namespace TestLauncher

variable {κ ω : Type}

namespace Expansion

variable {request : DiscoveryRequest} {f : Forest} {q : RootedRequest} {e d : SuiteDeclaration}
  {name : String} {id : UniqueId} {further : List RootedRequest} {ds : List SuiteDeclaration}

/-- One further request is for the suites of a name, and it is that of the first of them. -/
structure ExpandsOnce (request : DiscoveryRequest) (f : Forest) (further : List RootedRequest)
    (ds : List SuiteDeclaration) (name : String) : Prop where
  once : ∃ id, UniqueId.root Segment.suiteType name = .ok id ∧
    further.countP (fun q => q.suite?.bind f.id? = some id) = 1
  first : ∃ d, ds.find? (fun e => e.name = name) = some d ∧
    ∃ q ∈ further, RootsSuite request f q d

/-- The id of the node of a suite tells its name. -/
theorem RootsSuite.id_iff (h : RootsSuite request f q e)
    (hid : UniqueId.root Segment.suiteType name = .ok id) :
    q.suite?.bind f.id? = some id ↔ e.name = name := by
  obtain ⟨p, id', hp, hid', hbare, -, -⟩ := h.node
  have hnode : q.suite?.bind f.id? = some id' := by
    obtain ⟨n, hn, hsame⟩ := Option.map_eq_some_iff.mp hbare
    rw [hp, Option.bind_some, Forest.id?, hn, Option.map_some]
    exact congrArg (some ∘ Node.id) hsame
  rw [hnode, Option.some_inj]
  constructor
  · rintro rfl
    exact UniqueId.value_of_root hid' hid rfl
  · rintro rfl
    rw [hid] at hid'
    cases hid'
    rfl

/-- Where there is a further request for the first suite of each name, each suite is expanded
    once. -/
theorem expandsOnce (h : List.Forall₂ (RootsSuite request f) further (SuiteDeclaration.distinct ds))
    (hd : d ∈ ds) : ExpandsOnce request f further ds d.name := by
  have hname : d.name ∈ (SuiteDeclaration.distinct ds).map SuiteDeclaration.name := by
    rw [SuiteDeclaration.map_name_distinct, List.mem_eraseDups]
    exact List.mem_map_of_mem hd
  obtain ⟨e, he, hsame⟩ := List.mem_map.mp hname
  obtain ⟨q, hq, hroots⟩ := forall₂_mem_right h e he
  obtain ⟨-, id, -, hid, -⟩ := hroots.node
  rw [hsame] at hid
  have hfirst := SuiteDeclaration.find?_of_mem_distinct he
  rw [hsame] at hfirst
  refine ⟨⟨id, hid, ?_⟩, e, hfirst, q, hq, hroots⟩
  -- further requests and first suites go together, so those of one name are as many of each
  have hfilters := List.rel_filter (p := fun q => q.suite?.bind f.id? = some id)
    (q := fun e => e.name = d.name) (fun _ _ hroots => by simpa using hroots.id_iff hid) h
  calc further.countP (fun q => q.suite?.bind f.id? = some id)
      = (SuiteDeclaration.distinct ds).countP (fun e => e.name = d.name) := by
        rw [List.countP_eq_length_filter, List.countP_eq_length_filter, hfilters.length_eq]
    _ = ((SuiteDeclaration.distinct ds).map SuiteDeclaration.name).count d.name := by
        rw [List.count, List.countP_map]
        rfl
    _ = 1 := List.count_eq_one_of_mem (SuiteDeclaration.nodup_distinct ds) hname

end Expansion

theorem Selector.byClass_text (name : Text.NonBlank) :
    byClass name.text = .ok (.ofClass name) := by
  rw [byClass, named, Text.NonBlank.ofString?_text]
  rfl

namespace MarkedSuites

/-- The longest part of the name of a class that can be a module is its module, where its own name
    has no dot. -/
theorem partings_className (module : String) {name : String} (h : '.' ∉ name.toList) :
    ∃ rest, partings (className module name) = (module, [name]) :: rest := by
  obtain ⟨part, parts, hparts⟩ := List.exists_cons_of_ne_nil
    (show Text.components module ≠ [] by simp [Text.components, Text.splitChar_ne_nil])
  have hmodule : Text.ofComponents (part :: parts) = module := by
    rw [← hparts, Text.ofComponents_components]
  rw [partings, className, Text.components_dot module h, hparts]
  -- the last place to part the name is before its last component, and the places are reversed
  rw [List.length_append, List.length_singleton, List.range_succ, List.reverse_append,
    List.reverse_singleton, List.singleton_append, List.filterMap_cons]
  rw [if_neg (by simp), List.take_left, List.drop_left, hmodule]
  exact ⟨_, rfl⟩

end MarkedSuites

/-- A module has the class of a suite under the name that the class has itself. -/
def ModuleTable.Binds (table : ModuleTable) (module own : String) (d : SuiteDeclaration) : Prop :=
  ∃ scope attributes, table.fresh module = .ok scope ∧
    scope.get? own = some (.ofClass module own (some d) attributes)

namespace ModuleTable.Binds

open MarkedSuites

variable {table : ModuleTable} {s : Journal × MarkedSuites} {module name : Text.NonBlank}
  {own : String} {d e : SuiteDeclaration} {asked : List Asked}

theorem name_eq (h : table.Binds module.text own d) : d.name = className module.text own := by
  obtain ⟨scope, attributes, hfresh, hbound⟩ := h
  cases (marked_of_fresh hfresh).of_get? hbound with
  | ofClass hsuite _ => exact (hsuite d rfl).name

theorem mem_suitesIn (h : table.Binds module.text own d) : d ∈ table.suitesIn module.text := by
  obtain ⟨scope, attributes, hfresh, hbound⟩ := h
  rw [MarkedSuites.mem_suitesIn]
  exact ⟨scope, hfresh, mem_declaredIn.mpr
    ⟨own, own, attributes, (OrderedMap.get?_eq_some_iff ..).mp hbound⟩⟩

/-- A settled state replies with the suites of the module. -/
theorem suitesFor_module (h : table.Binds module.text own d) (hs : Settled table s.2) :
    ((suitesFor table (.ofModule module)).on s).1 = .ok (table.suitesIn module.text) := by
  obtain ⟨scope, -, hfresh, -⟩ := h
  obtain ⟨-, hreply⟩ := hs.suitesFor (.ofModule module)
  generalize hresult : ((suitesFor table (.ofModule module)).on s).1 = result at hreply
  cases hreply with
  | answered hanswer =>
      cases hanswer
      rfl
  | raised hmodule hraises =>
      rw [List.mem_singleton.mp hmodule] at hraises
      exact absurd hfresh (hraises.not_fresh scope)

/-- And with the suite, when the class is asked for. -/
theorem suitesFor_class (h : table.Binds module.text own d) (hown : '.' ∉ own.toList)
    (hname : name.text = d.name) (hs : Settled table s.2) :
    ((suitesFor table (.ofClass name)).on s).1 = .ok [d] := by
  rw [h.name_eq] at hname
  obtain ⟨scope, attributes, hfresh, hbound⟩ := h
  obtain ⟨rest, hpartings⟩ := partings_className module.text hown
  have hfound := hs.suiteOfClass_of_fresh (hname ▸ hpartings) hfresh
  have hfollow : (follow scope [own]).bind Member.suite? = some d := by
    rw [follow, hbound]
    rfl
  rw [hfollow] at hfound
  rcases hon : (suiteOfClass table name.text).on s with ⟨result, t⟩
  rw [hon] at hfound
  cases hfound
  rw [suitesFor, Steps.on_bind_ok hon]
  rfl

section

variable (h : table.Binds module.text own d) (hown : '.' ∉ own.toList)
  (hname : name.text = d.name) (hasked : AnsweredSettled table asked)

include h hown hname hasked

theorem answer_eq {a : Asked} (ha : a ∈ asked) :
    (a.selector = .ofModule module → a.answer = .ok (table.suitesIn module.text)) ∧
      (a.selector = .ofClass name → a.answer = .ok [d]) := by
  obtain ⟨t, ht, hanswer⟩ := hasked a ha
  constructor
  · intro hselector
    rw [hanswer, hselector, h.suitesFor_module ht]
  · intro hselector
    rw [hanswer, hselector, h.suitesFor_class hown hname ht]

/-- What is answered with a fault is neither. -/
theorem ne_of_fault {t : Selector} {fault : Fault} (ht : ⟨t, .error fault⟩ ∈ asked) :
    t ≠ .ofModule module ∧ t ≠ .ofClass name := by
  obtain ⟨hmodule, hclass⟩ := h.answer_eq hown hname hasked ht
  refine ⟨fun heq => ?_, fun heq => ?_⟩
  · cases hmodule heq
  · cases hclass heq

/-- Whoever asks for the class reaches the suite. -/
theorem mem_reached (hclass : .ofClass name ∈ asked.map Asked.selector) :
    d ∈ Asked.suites asked := by
  obtain ⟨a, ha, hselector⟩ := List.mem_map.mp hclass
  refine List.mem_flatMap.mpr ⟨a, ha, ?_⟩
  rw [(h.answer_eq hown hname hasked ha).2 hselector]
  exact List.mem_singleton_self d

/-- Where nothing else is asked for, only suites of the module are reached. -/
theorem mem_of_reached
    (honly : ∀ t ∈ asked.map Asked.selector, t = .ofModule module ∨ t = .ofClass name)
    (he : e ∈ Asked.suites asked) : e ∈ table.suitesIn module.text := by
  obtain ⟨a, ha, he⟩ := List.mem_flatMap.mp he
  obtain ⟨hmodule, hclass⟩ := h.answer_eq hown hname hasked ha
  rcases honly _ (List.mem_map_of_mem ha) with hselector | hselector
  · rw [hmodule hselector] at he
    exact he
  · rw [hclass hselector] at he
    rw [List.mem_singleton.mp he]
    exact h.mem_suitesIn

end

end ModuleTable.Binds

/-- **Both ways to a suite lead to it, and lead to it once.**  Where a module has the class of a
    suite under the class's own name, without a dot, the suite is named after both.  Whatever was
    asked before, the module is answered with the same suites, among them this one, and its name
    with this one alone.  A request that selects both is expanded with one further request for the
    name, unless something else it selects is in a module that raises, or a suite shows a blank
    name. -/
theorem ModuleTable.paths_agree (table : ModuleTable) (module : Text.NonBlank) {own : String}
    {d : SuiteDeclaration} (hbound : table.Binds module.text own d) (hown : '.' ∉ own.toList) :
    d.name = module.text ++ "." ++ own ∧
    ∃ (name : Text.NonBlank) (ds : List SuiteDeclaration),
      Selector.byClass d.name = .ok (.ofClass name) ∧ d ∈ ds ∧
      ∀ (before : List Selector) (j : Journal),
        let s := MarkedSuites.afterAsking table before (j, ∅)
        ((MarkedSuites.suitesFor table (.ofModule module)).on s).1 = .ok ds ∧
        ((MarkedSuites.suitesFor table (.ofClass name)).on s).1 = .ok [d] ∧
        ∀ (request : DiscoveryRequest) (w : World κ ω MarkedSuites), w.resolver = s.2 →
          .ofModule module ∈ request.selectors → .ofClass name ∈ request.selectors →
          ((∀ t ∈ request.selectors, t = .ofModule module ∨ t = .ofClass name) →
            (∀ e ∈ ds, Text.isBlank e.displayName = false) →
            ∃ further w', (Expansion.ofRequest (some table.resolver) request).on w
              = (.ok further, w')) ∧
          match (Expansion.ofRequest (some table.resolver) request).on w with
          | (.ok further, w') => Expansion.ExpandsOnce request w'.forest further
              (Expansion.reached (some table.resolver) request w) d.name
          | (.error fault, _) =>
              (∃ t ∈ request.selectors, t ≠ .ofModule module ∧ t ≠ .ofClass name ∧
                ∃ other ∈ MarkedSuites.modulesOf t, MarkedSuites.Raises table other fault) ∨
              fault = .refused .blankDisplayName ∧
                ∃ e ∈ SuiteDeclaration.distinct
                    (Expansion.reached (some table.resolver) request w),
                  Text.isBlank e.displayName = true := by
  have hname := hbound.name_eq
  have hnotBlank : Text.isBlank d.name = false := by
    rw [hname]
    exact isBlank_className ..
  let name : Text.NonBlank := ⟨d.name, hnotBlank⟩
  have htext : name.text = d.name := rfl
  refine ⟨hname, name, table.suitesIn module.text, Selector.byClass_text name,
    hbound.mem_suitesIn, ?_⟩
  intro before j s
  have hsettled : MarkedSuites.Settled table s.2 := MarkedSuites.settled_afterAsking table before j
  refine ⟨hbound.suitesFor_module hsettled, hbound.suitesFor_class hown htext hsettled, ?_⟩
  intro request w hw hmodule hclass
  rw [← hw] at hsettled
  obtain ⟨asked, result, w', hon, hreached, hanswered, hstarts, houtcome⟩ :=
    hsettled.on_ofRequest request
  rw [hon, hreached]
  cases houtcome with
  | expanded hinOrder hrooted =>
      rw [← hinOrder] at hclass
      have hd := hbound.mem_reached hown htext hanswered hclass
      exact ⟨fun _ _ => ⟨_, _, rfl⟩, Expansion.expandsOnce hrooted hd⟩
  | raised hasked hin hraises =>
      have ht := hstarts.mem (List.mem_map_of_mem hasked)
      obtain ⟨hmodule, hclass⟩ := hbound.ne_of_fault hown htext hanswered hasked
      refine ⟨fun honly _ => ?_, Or.inl ⟨_, ht, hmodule, hclass, _, hin, hraises⟩⟩
      exact ((honly _ ht).elim hmodule hclass).elim
  | unnamed hd hblank =>
      refine ⟨fun honly hshown => ?_, Or.inr ⟨rfl, _, hd, hblank⟩⟩
      have hmem := hbound.mem_of_reached hown htext hanswered
        (fun t ht => honly t (hstarts.mem ht)) (SuiteDeclaration.mem_of_mem_distinct hd)
      rw [hshown _ hmem] at hblank
      cases hblank

/-- A module with a suite that it has under a second name as well, and that takes in the suite of
    another module. -/
def ModuleTable.twoWays : ModuleTable := OrderedMap.ofList [
  ("q", .ok [("T", .ofClass "T" none none [] (some ⟨[.named "q.C"], {}⟩))]),
  ("p", .ok [("T", .taken "q" "T"),
    ("S", .ofClass "S" none none [] (some ⟨[.named "p.C"], {}⟩)),
    ("Also", .sameAs "S")])]

/-- A request that selects the module, the class and the module again. -/
def MarkedSuites.bothWays : DiscoveryRequest where
  selectors := [.ofModule ⟨"p", by decide⟩, .ofClass ⟨"p.S", by decide⟩,
    .ofModule ⟨"p", by decide⟩]

/-- The request reaches the suite five times, and there is one further request for it.  Where the
    suite shows a blank name both ways lead to it too, but the request is refused. -/
theorem ModuleTable.paths_agree_twoWays :
    (∃ d, twoWays.Binds "p" "S" d ∧
      ((MarkedSuites.suitesFor twoWays (.ofClass ⟨"p.S", by decide⟩)).on (∅, ∅)).1 = .ok [d] ∧
      ∃ further w', (Expansion.ofRequest (some twoWays.resolver) MarkedSuites.bothWays).on
          (⟨∅, ∅, (), (), ∅⟩ : World Unit Unit MarkedSuites) = (.ok further, w') ∧
        Expansion.ExpandsOnce MarkedSuites.bothWays w'.forest further [d, d, d, d, d] "p.S") ∧
    ∃ d, unnamed.Binds "p" "S" d ∧
      ((MarkedSuites.suitesFor unnamed (.ofClass ⟨"p.S", by decide⟩)).on (∅, ∅)).1 = .ok [d] ∧
      ((Expansion.ofRequest (some unnamed.resolver) MarkedSuites.bothWays).on
        (⟨∅, ∅, (), (), ∅⟩ : World Unit Unit MarkedSuites)).1
          = .error (.refused .blankDisplayName) := by
  have hown : '.' ∉ "S".toList := by decide
  constructor
  · let d : SuiteDeclaration :=
      { name := "p.S", displayName := "S", selectors := [.ofClass ⟨"p.C", by decide⟩] }
    let w : World Unit Unit MarkedSuites := ⟨∅, ∅, (), (), ∅⟩
    have hbound : twoWays.Binds "p" "S" d := ⟨_, _, rfl, rfl⟩
    obtain ⟨-, name, ds, hselects, -, hpaths⟩ :=
      paths_agree (κ := Unit) (ω := Unit) twoWays ⟨"p", by decide⟩ hbound hown
    cases (Selector.byClass_text ⟨"p.S", by decide⟩).symm.trans hselects
    obtain ⟨hmodule, hclass, hrequest⟩ := hpaths [] ∅
    obtain rfl : [d, d] = ds := Except.ok.inj hmodule
    obtain ⟨hexpands, honce⟩ := hrequest MarkedSuites.bothWays w rfl (by decide) (by decide)
    obtain ⟨further, w', hon⟩ := hexpands (by decide) (by decide)
    rw [hon] at honce
    exact ⟨d, hbound, hclass, further, w', hon, honce⟩
  · let d : SuiteDeclaration :=
      { name := "p.S", displayName := " ", selectors := [.ofClass ⟨"p.C", by decide⟩] }
    have hbound : unnamed.Binds "p" "S" d := ⟨_, _, rfl, rfl⟩
    obtain ⟨-, name, ds, hselects, -, hpaths⟩ :=
      paths_agree (κ := Unit) (ω := Unit) unnamed ⟨"p", by decide⟩ hbound hown
    cases (Selector.byClass_text ⟨"p.S", by decide⟩).symm.trans hselects
    obtain ⟨-, hclass, -⟩ := hpaths [] ∅
    exact ⟨d, hbound, hclass, rfl⟩

end TestLauncher
