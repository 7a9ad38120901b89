import TestLauncher.Proofs.Discovery.Suites
import TestLauncher.Proofs.Suite.Lookups
import TestLauncher.Proofs.Unrecoverable

/-! # Expanding requests for marked suites

    The resolver for marked suites finds nothing but suites with accepted marks, and what it
    knows when it is asked changes no answer.  So a request is expanded unless a module that
    is asked for raises a fault that nothing contains, or a suite that is reached shows a
    blank name (`ModuleTable.expansion_of_marked`).  A mark that was accepted may ask for
    the second. -/

namespace TestLauncher

variable {κ ω ρ : Type}

namespace Expansion

variable {resolver : SuiteResolver ρ} {request : DiscoveryRequest} {selectors : List Selector}
  {done done' : Expanded} {w w' : World κ ω ρ} {asked : List Asked}
  {ds : List SuiteDeclaration} {d : SuiteDeclaration} {result : Except Fault Expanded}

theorem resolver_of_addSuite (request : DiscoveryRequest) (done : Expanded) (d : SuiteDeclaration)
    (w : World κ ω ρ) : ((addSuite request done d).on w).2.resolver = w.resolver := by
  rw [addSuite]
  split
  · rfl
  · rw [expand]
    cases d.node <;> rfl

/-- Planting the nodes of suites is no business of the resolver. -/
theorem resolver_of_addSuites (request : DiscoveryRequest) (ds : List SuiteDeclaration)
    (done : Expanded) (w : World κ ω ρ) :
    ((ds.foldlM (addSuite request) done).on w).2.resolver = w.resolver := by
  induction ds generalizing done w with
  | nil => rfl
  | cons d ds ih =>
      have hone := resolver_of_addSuite request done d w
      rw [List.foldlM_cons]
      rcases hon : (addSuite request done d).on w with ⟨fault | done₁, w₁⟩
      · rw [hon] at hone
        rw [Steps.on_bind_error hon]
        exact hone
      · rw [hon] at hone
        rw [Steps.on_bind_ok hon, ih]
        exact hone

/-- If a property of what the resolver knows is kept when it is asked, it holds whenever it is. -/
theorem Asks.answered_in {P : ρ → Prop}
    (hkeep : ∀ s t, P t.2 → P ((resolver.suitesFor s).on t).2.2)
    (h : Asks resolver request selectors done w asked result w') (hw : P w.resolver) :
    ∀ a ∈ asked, ∃ t, P t.2 ∧ a.answer = ((resolver.suitesFor a.selector).on t).1 := by
  have hask : ∀ {s : Selector} {w w₁ : World κ ω ρ} {answer}, P w.resolver →
      (Run.byResolver (resolver.suitesFor s)).on w = (answer, w₁) →
      P w₁.resolver ∧ ∃ t, P t.2 ∧ answer = ((resolver.suitesFor s).on t).1 := by
    intro s w w₁ answer hw hon
    rw [Run.byResolver, Steps.on_within] at hon
    cases hon
    exact ⟨hkeep s (w.journal, w.resolver) hw, (w.journal, w.resolver), hw, rfl⟩
  induction h with
  | done => exact fun _ h => absurd h List.not_mem_nil
  | silent hon => exact List.forall_mem_singleton.mpr (hask hw hon).2
  | refused hon _ => exact List.forall_mem_singleton.mpr (hask hw hon).2
  | @next s ss done done₁ w w₁ w₂ w' ds asked result hon hadd _ ih =>
      obtain ⟨hgood, hanswer⟩ := hask hw hon
      refine List.forall_mem_cons.mpr ⟨hanswer, ih ?_⟩
      have hsame := resolver_of_addSuites request ds done w₁
      rw [hadd] at hsame
      rw [hsame]
      exact hgood

/-- The suites that are reached are those in the answers. -/
theorem Asks.reachedBy_eq (h : Asks resolver request selectors done w asked result w') :
    reachedBy resolver request selectors done w = Asked.suites asked := by
  induction h with
  | done => rfl
  | silent hask =>
      rw [reachedBy, hask]
      rfl
  | refused hask hadd =>
      rw [reachedBy, hask]
      dsimp only
      rw [hadd]
      rfl
  | next hask hadd _ ih =>
      rw [reachedBy, hask]
      dsimp only
      rw [hadd]
      dsimp only
      rw [ih]
      rfl

end Expansion

namespace MarkedSuites

open Expansion

variable {table : ModuleTable} {request : DiscoveryRequest} {w : World κ ω MarkedSuites}

/-- What becomes of a request: each of its selectors was asked about, and there is a further
    request for the first suite of each name; or a module that was asked for raised a fault that
    nothing contains, or one of these suites shows a blank name. -/
inductive Outcome (table : ModuleTable) (request : DiscoveryRequest) (asked : List Asked) :
    Except Fault (List RootedRequest) → World κ ω MarkedSuites → Prop where
  | expanded {further : List RootedRequest} {w' : World κ ω MarkedSuites}
      (inOrder : asked.map Asked.selector = request.selectors)
      (rooted : List.Forall₂ (RootsSuite request w'.forest) further
        (SuiteDeclaration.distinct (Asked.suites asked))) :
      Outcome table request asked (.ok further) w'
  | raised {fault : Fault} {w' : World κ ω MarkedSuites} {s : Selector} {module : String}
      (hasked : ⟨s, .error fault⟩ ∈ asked)
      (hmodule : module ∈ modulesOf s) (h : Raises table module fault) :
      Outcome table request asked (.error fault) w'
  | unnamed {w' : World κ ω MarkedSuites} {d : SuiteDeclaration}
      (hd : d ∈ SuiteDeclaration.distinct (Asked.suites asked))
      (h : Text.isBlank d.displayName = true) :
      Outcome table request asked (.error (.refused .blankDisplayName)) w'

/-- A resolver that knew nothing wrong gave the answers. -/
def AnsweredSettled (table : ModuleTable) (asked : List Asked) : Prop :=
  ∀ a ∈ asked, ∃ t, Settled table t.2 ∧ a.answer = ((suitesFor table a.selector).on t).1

theorem AnsweredSettled.replies {asked : List Asked} {a : Asked}
    (h : AnsweredSettled table asked) (ha : a ∈ asked) : Replies table a.selector a.answer := by
  obtain ⟨t, ht, hanswer⟩ := h a ha
  rw [hanswer]
  exact (ht.suitesFor a.selector).2

/-- Suites in such answers are those of classes with accepted marks. -/
theorem AnsweredSettled.declares {asked : List Asked} {d : SuiteDeclaration}
    (h : AnsweredSettled table asked) (hd : d ∈ Asked.suites asked) :
    ∃ owner qualifiedName, SuiteMark.Declares owner qualifiedName d := by
  obtain ⟨⟨selector, answer⟩, ha, hd⟩ := List.mem_flatMap.mp hd
  cases h.replies ha with
  | answered hanswers => exact hanswers.declares hd
  | raised _ _ => cases hd

/-- Expanding a request with a resolver that knows nothing wrong. -/
theorem Settled.on_ofRequest (h : Settled table w.resolver) (request : DiscoveryRequest) :
    ∃ asked result w', (ofRequest (some table.resolver) request).on w = (result, w') ∧
      reached (some table.resolver) request w = Asked.suites asked ∧
      AnsweredSettled table asked ∧ asked.map Asked.selector <+: request.selectors ∧
      Outcome table request asked result w' := by
  obtain ⟨asked, result, w', hon, hasks⟩ :=
    exists_asks table.resolver request request.selectors {} w
  have hanswered : AnsweredSettled table asked :=
    hasks.answered_in (P := Settled table) (fun s _ ht => (ht.suitesFor s).1) h
  refine ⟨asked, ?_⟩
  cases result with
  | ok done =>
      obtain ⟨hinOrder, -, -, hp⟩ := hasks.ok (planned_nil request w.forest)
      refine ⟨_, w', Steps.on_bind_ok hon _, hasks.reachedBy_eq, hanswered, ?_, ?_⟩
      · rw [hinOrder]
      · exact .expanded hinOrder hp.rootsSuites
  | error fault =>
      obtain ⟨hstarts, hcause⟩ := hasks.error (planned_nil request w.forest)
      refine ⟨_, w', Steps.on_bind_error hon _, hasks.reachedBy_eq, hanswered, hstarts, ?_⟩
      rcases hcause with ⟨before, s, rfl, -, -⟩ | ⟨-, before, d, after, hdistinct, -, hunfit⟩
      · have hasked : ⟨s, .error fault⟩ ∈ before ++ [⟨s, .error fault⟩] := by simp
        cases hanswered.replies hasked with
        | raised hmodule hraises => exact .raised hasked hmodule hraises
      · -- the suite is named after its class, so the name it shows is what is refused
        have hd : d ∈ SuiteDeclaration.distinct (Asked.suites asked) := by
          rw [SuiteDeclaration.distinct, hdistinct]
          simp
        obtain ⟨owner, qualifiedName, hdeclares⟩ :=
          hanswered.declares (SuiteDeclaration.mem_of_mem_distinct hd)
        cases hunfit with
        | name hblank =>
            rw [hdeclares.name, isBlank_className] at hblank
            cases hblank
        | displayName _ hblank => exact .unnamed hd hblank

end MarkedSuites

/-- **Which marked suites are expanded.**  A suite with an accepted mark has a node unless it shows
    a blank name.  Whatever was asked before, all suites that a request reaches have accepted
    marks, and the request is expanded into one further request for the first suite of each name,
    unless the import of a module that is asked for raises a fault that nothing contains or one of
    these suites shows a blank name; then no launcher discovers for the request, and the fault it
    ends with is the one of the import or tells of the name. -/
theorem ModuleTable.expansion_of_marked (table : ModuleTable) :
    (∀ (m : SuiteMark) c, m.content = .ok c → ∀ owner outer ownName,
      (∃ n, (c.declaration owner (outer ++ ownName) ownName).node = .ok n) ↔
        ¬ m.ShowsBlank ownName) ∧
    ∀ (request : DiscoveryRequest) (before : List Selector) (j : Journal)
      (w : World κ ω MarkedSuites), w.resolver = (MarkedSuites.afterAsking table before (j, ∅)).2 →
      let reached := Expansion.reached (some table.resolver) request w
      (∀ d ∈ reached, ∃ (m : SuiteMark) (c : SuiteMark.Content) (owner outer ownName : String),
        m.content = .ok c ∧ d = c.declaration owner (outer ++ ownName) ownName) ∧
      match (Expansion.ofRequest (some table.resolver) request).on w with
      | (.ok further, w') => List.Forall₂ (Expansion.RootsSuite request w'.forest) further
          (SuiteDeclaration.distinct reached)
      | (.error fault, _) =>
          ((∃ s ∈ request.selectors, ∃ module ∈ MarkedSuites.modulesOf s,
              MarkedSuites.Raises table module fault) ∨
            fault = .refused .blankDisplayName ∧
              ∃ (m : SuiteMark) (c : SuiteMark.Content) (owner outer ownName : String),
                m.content = .ok c ∧ m.ShowsBlank ownName ∧
                c.declaration owner (outer ++ ownName) ownName
                  ∈ SuiteDeclaration.distinct reached) ∧
          ∀ l : Launcher κ ω MarkedSuites, l.resolver? = some table.resolver →
            ((l.discover (some request)).on w).1 = .error fault := by
  refine ⟨fun m c h owner outer ownName => SuiteMark.node_ok_iff h, ?_⟩
  intro request before j w hw
  have hsettled : MarkedSuites.Settled table w.resolver :=
    hw ▸ MarkedSuites.settled_afterAsking table before j
  obtain ⟨asked, result, w', hon, hreached, hanswered, hstarts, houtcome⟩ :=
    hsettled.on_ofRequest request
  have hdeclared : ∀ d ∈ Asked.suites asked, ∃ (m : SuiteMark) (c : SuiteMark.Content)
      (owner outer ownName : String), m.content = .ok c ∧
        d = c.declaration owner (outer ++ ownName) ownName := by
    intro d hd
    obtain ⟨owner, qualifiedName, m, c, outer, ownName, hm, rfl, rfl⟩ :=
      hanswered.declares hd
    exact ⟨m, c, owner, outer, ownName, hm, rfl⟩
  dsimp only
  rw [hreached, hon]
  refine ⟨hdeclared, ?_⟩
  cases houtcome with
  | expanded _ hrooted => exact hrooted
  | raised hasked hmodule hraises =>
      have hs := hstarts.mem (List.mem_map_of_mem hasked)
      refine ⟨Or.inl ⟨_, hs, _, hmodule, hraises⟩, fun l hl => ?_⟩
      exact Launcher.discover_error hl (by rw [hon])
  | unnamed hd hblank =>
      refine ⟨Or.inr ⟨rfl, ?_⟩, fun l hl => Launcher.discover_error hl (by rw [hon])⟩
      obtain ⟨m, c, owner, outer, ownName, hm, rfl⟩ :=
        hdeclared _ (SuiteDeclaration.mem_of_mem_distinct hd)
      exact ⟨m, c, owner, outer, ownName, hm, (SuiteMark.isBlank_displayName_iff hm).mp hblank, hd⟩

/-- A mark that gives white space as the name to show. -/
def SuiteMark.unnamed : SuiteMark where
  selectClasses := ["p.C"]
  displayName := some " "

/-- A module with a class that bears it, and one whose mark gives no name. -/
def ModuleTable.unnamed : ModuleTable := OrderedMap.ofList [("p", .ok
  [("S", .ofClass "S" none none [] (some ⟨[.named "p.C"], .unnamed⟩)),
    ("T", .ofClass "T" none none [] (some ⟨[.named "p.C"], {}⟩))])]

/-- The mark is accepted.  A request for the other class is expanded, and one for this class is
    not; no launcher discovers for it. -/
theorem ModuleTable.expansion_of_marked_unnamed :
    (∃ c, SuiteMark.unnamed.content = .ok c ∧
      ¬ ∃ n, (c.declaration "p" ("" ++ "S") "S").node = .ok n) ∧
    (∃ further w', (Expansion.ofRequest (some unnamed.resolver)
        { selectors := [.ofClass ⟨"p.T", by decide⟩] }).on
          (⟨∅, ∅, (), (), ∅⟩ : World Unit Unit MarkedSuites) = (.ok further, w') ∧
      further.length = 1) ∧
    ∀ l : Launcher Unit Unit MarkedSuites, l.resolver? = some unnamed.resolver →
      ((l.discover (some { selectors := [.ofClass ⟨"p.S", by decide⟩] })).on
        ⟨∅, ∅, (), (), ∅⟩).1 = .error (.refused .blankDisplayName) := by
  obtain ⟨hnodes, hexpansion⟩ := expansion_of_marked (κ := Unit) (ω := Unit) unnamed
  refine ⟨?_, ?_, ?_⟩
  · obtain ⟨c, hc⟩ : ∃ c, SuiteMark.unnamed.content = .ok c := ⟨_, rfl⟩
    refine ⟨c, hc, fun h => (hnodes _ c hc "p" "" "S").mp h (Or.inl ⟨" ", rfl, ?_, ?_⟩)⟩
    · decide
    · decide
  · let request : DiscoveryRequest := { selectors := [.ofClass ⟨"p.T", by decide⟩] }
    let run := (Expansion.ofRequest (some unnamed.resolver) request).on
      (⟨∅, ∅, (), (), ∅⟩ : World Unit Unit MarkedSuites)
    have hlength : run.1.toOption.map List.length = some 1 := by decide +kernel
    rcases hrun : run with ⟨fault | further, w'⟩
    · rw [hrun] at hlength
      cases hlength
    · rw [hrun] at hlength
      exact ⟨further, w', hrun, Option.some.inj hlength⟩
  · let request : DiscoveryRequest := { selectors := [.ofClass ⟨"p.S", by decide⟩] }
    let start : World Unit Unit MarkedSuites := ⟨∅, ∅, (), (), ∅⟩
    have hfault : Except.fault? ((Expansion.ofRequest (some unnamed.resolver) request).on start).1
        = some (.refused .blankDisplayName) := by decide +kernel
    obtain ⟨-, hmatch⟩ := hexpansion request [] ∅ start rfl
    rcases hrun : (Expansion.ofRequest (some unnamed.resolver) request).on start
      with ⟨fault | further, w'⟩
    · rw [hrun] at hfault hmatch
      cases hfault
      exact hmatch.2
    · rw [hrun] at hfault
      cases hfault

end TestLauncher
