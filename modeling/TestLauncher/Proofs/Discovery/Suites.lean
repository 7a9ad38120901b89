import Mathlib.Data.List.Forall2
import Mathlib.Data.List.Induction
import TestLauncher.Proofs.Discovery.Expansion
import TestLauncher.Proofs.Forest.Links

/-! # Suites, once each and one level deep

    A resolver can be made to note what it is asked and what it answers, and expanding a
    request with it comes to the same (`Asks.on_noting`).  The notes tell all there is to
    tell about the expansion (`expansion_exact`).

    When it succeeds, each selector of the request was asked about once, in order, and
    nothing else was: what a suite selects is never looked at.  For each name among the
    suites that were answered there is one further request, below a node of its own, and it
    is that of the first suite of the name (`Expands`).

    It fails in two ways (`Fails`): the resolver does, or a suite that would get a node has
    a blank name or display name, of which no node can be made. -/

namespace TestLauncher

/-! ## The first suite of each name -/

namespace SuiteDeclaration

variable {d : SuiteDeclaration} {ds more : List SuiteDeclaration} {fault : Fault} {n : Node}

theorem distinct_snoc : distinct (ds ++ [d]) = join (distinct ds) d := by
  rw [distinct, List.foldl_append]
  rfl

/-- One suite is left of each name, in the order in which the names come up first. -/
theorem map_name_distinct (ds : List SuiteDeclaration) :
    (distinct ds).map name = (ds.map name).eraseDups := by
  induction ds using List.reverseRecOn with
  | nil => rfl
  | append_singleton ds d ih =>
      rw [distinct_snoc, join, ih, List.map_append, List.map_singleton,
        OrderedMap.eraseDups_concat]
      by_cases hd : d.name ∈ ds.map name
      · rw [if_pos (List.mem_eraseDups.mpr hd), if_pos hd, ih]
      · rw [if_neg fun h => hd (List.mem_eraseDups.mp h), if_neg hd, List.map_append, ih]
        rfl

/-- And it is the first one of that name. -/
theorem find?_of_mem_distinct (h : d ∈ distinct ds) :
    ds.find? (fun e => e.name = d.name) = some d := by
  induction ds using List.reverseRecOn with
  | nil => exact absurd h List.not_mem_nil
  | append_singleton ds e ih =>
      rw [distinct_snoc, join] at h
      rw [List.find?_append]
      split at h
      · rw [ih h, Option.some_or]
      · rename_i hnew
        rcases List.mem_append.mp h with hd | hd
        · rw [ih hd, Option.some_or]
        · rw [List.mem_singleton.mp hd]
          rw [map_name_distinct, List.mem_eraseDups] at hnew
          have hnone : ds.find? (fun e' => e'.name = e.name) = none := by
            rw [List.find?_eq_none]
            intro e' he' hsame
            exact hnew (of_decide_eq_true hsame ▸ List.mem_map_of_mem he')
          rw [hnone, Option.none_or, List.find?_cons, decide_eq_true rfl]

/-- Suites that are there stay, and stay where they are. -/
theorem prefix_foldl_join (ds more : List SuiteDeclaration) : ds <+: more.foldl join ds := by
  induction more generalizing ds with
  | nil => exact List.prefix_rfl
  | cons d more ih =>
      refine List.IsPrefix.trans ?_ (ih (join ds d))
      rw [join]
      split
      · exact List.prefix_rfl
      · exact List.prefix_append ds [d]

end SuiteDeclaration

/-! ## What a resolver is asked -/

/-- A question to a resolver, and how it was answered. -/
structure Asked where
  selector : Selector
  answer : Except Fault (List SuiteDeclaration)

namespace Asked

/-- All questions were answered. -/
def AllAnswered (asked : List Asked) : Prop := ∀ a ∈ asked, ∃ ds, a.answer = .ok ds

/-- The suites in the answers, one answer after the other. -/
def suites (asked : List Asked) : List SuiteDeclaration :=
  asked.flatMap fun a => a.answer.toOption.getD []

end Asked

variable {κ ω ρ : Type}

/-- A resolver that notes what it is asked and what it answers. -/
def SuiteResolver.noting (resolver : SuiteResolver ρ) : SuiteResolver (ρ × List Asked) where
  suitesFor s := do
    let answer ← Steps.outcome <|
      (resolver.suitesFor s).within (fun t => (t.1, t.2.1)) fun u t => (u.1, u.2, t.2.2)
    modify fun t => (t.1, t.2.1, t.2.2 ++ [⟨s, answer⟩])
    Steps.ofExcept answer

/-- A world with what the resolver was asked so far. -/
def World.noting (w : World κ ω ρ) (asked : List Asked) : World κ ω (ρ × List Asked) where
  forest := w.forest
  journal := w.journal
  engines := w.engines
  listeners := w.listeners
  resolver := (w.resolver, asked)

namespace Expansion

variable {resolver : SuiteResolver ρ} {request : DiscoveryRequest} {selectors : List Selector}
  {done done' : Expanded} {w w' : World κ ω ρ} {asked : List Asked} {fault : Fault}
  {ds es more : List SuiteDeclaration} {d : SuiteDeclaration} {s : Selector}
  {result : Except Fault Expanded}

/-- How selectors are asked about one after the other. -/
inductive Asks (resolver : SuiteResolver ρ) (request : DiscoveryRequest) :
    List Selector → Expanded → World κ ω ρ → List Asked → Except Fault Expanded →
      World κ ω ρ → Prop where
  | done {done : Expanded} {w : World κ ω ρ} : Asks resolver request [] done w [] (.ok done) w
  | silent {s : Selector} {ss : List Selector} {done : Expanded} {w w₁ : World κ ω ρ}
      {fault : Fault} (hask : (Run.byResolver (resolver.suitesFor s)).on w = (.error fault, w₁)) :
      Asks resolver request (s :: ss) done w [⟨s, .error fault⟩] (.error fault) w₁
  | refused {s : Selector} {ss : List Selector} {done : Expanded} {w w₁ w₂ : World κ ω ρ}
      {ds : List SuiteDeclaration} {fault : Fault}
      (hask : (Run.byResolver (resolver.suitesFor s)).on w = (.ok ds, w₁))
      (hadd : (ds.foldlM (addSuite request) done).on w₁ = (.error fault, w₂)) :
      Asks resolver request (s :: ss) done w [⟨s, .ok ds⟩] (.error fault) w₂
  | next {s : Selector} {ss : List Selector} {done done₁ : Expanded} {w w₁ w₂ w' : World κ ω ρ}
      {ds : List SuiteDeclaration} {asked : List Asked} {result : Except Fault Expanded}
      (hask : (Run.byResolver (resolver.suitesFor s)).on w = (.ok ds, w₁))
      (hadd : (ds.foldlM (addSuite request) done).on w₁ = (.ok done₁, w₂))
      (h : Asks resolver request ss done₁ w₂ asked result w') :
      Asks resolver request (s :: ss) done w (⟨s, .ok ds⟩ :: asked) result w'

theorem on_addReached_error (done : Expanded)
    (hask : (Run.byResolver (resolver.suitesFor s)).on w = (.error fault, w')) :
    (addReached resolver request done s).on w = (.error fault, w') :=
  Steps.on_bind_error hask _

theorem on_addReached_ok (done : Expanded)
    (hask : (Run.byResolver (resolver.suitesFor s)).on w = (.ok ds, w')) :
    (addReached resolver request done s).on w = (ds.foldlM (addSuite request) done).on w' :=
  Steps.on_bind_ok hask _

/-- They always are, until something fails. -/
theorem exists_asks (resolver : SuiteResolver ρ) (request : DiscoveryRequest)
    (selectors : List Selector) (done : Expanded) (w : World κ ω ρ) :
    ∃ asked result w', (selectors.foldlM (addReached resolver request) done).on w = (result, w') ∧
      Asks resolver request selectors done w asked result w' := by
  induction selectors generalizing done w with
  | nil => exact ⟨[], .ok done, w, rfl, .done⟩
  | cons s ss ih =>
      rw [List.foldlM_cons]
      rcases hask : (Run.byResolver (resolver.suitesFor s)).on w with ⟨fault | ds, w₁⟩
      · refine ⟨_, _, w₁, ?_, .silent hask⟩
        rw [Steps.on_bind_error (on_addReached_error done hask)]
      · rcases hadd : (ds.foldlM (addSuite request) done).on w₁ with ⟨fault | done₁, w₂⟩
        · refine ⟨_, _, w₂, ?_, .refused hask hadd⟩
          rw [Steps.on_bind_error ((on_addReached_ok done hask).trans hadd)]
        · obtain ⟨asked, result, w', hon, h⟩ := ih done₁ w₂
          refine ⟨_, result, w', ?_, .next hask hadd h⟩
          rw [Steps.on_bind_ok ((on_addReached_ok done hask).trans hadd), hon]

/-! ## Noting does not interfere -/

theorem on_byResolver_noting (s : Selector) (w : World κ ω ρ) (before : List Asked) :
    (Run.byResolver (resolver.noting.suitesFor s)).on (w.noting before) =
      (((Run.byResolver (resolver.suitesFor s)).on w).1,
        ((Run.byResolver (resolver.suitesFor s)).on w).2.noting
          (before ++ [⟨s, ((Run.byResolver (resolver.suitesFor s)).on w).1⟩])) := rfl

theorem on_addSuite_noting (done : Expanded) (d : SuiteDeclaration) (w : World κ ω ρ)
    (before : List Asked) :
    (addSuite request done d).on (w.noting before) =
      (((addSuite request done d).on w).1, ((addSuite request done d).on w).2.noting before) := by
  rw [addSuite, addSuite]
  split
  · rfl
  · rw [expand, expand]
    cases d.node <;> rfl

theorem on_addSuites_noting (ds : List SuiteDeclaration) (done : Expanded) (w : World κ ω ρ)
    (before : List Asked) :
    (ds.foldlM (addSuite request) done).on (w.noting before) =
      (((ds.foldlM (addSuite request) done).on w).1,
        ((ds.foldlM (addSuite request) done).on w).2.noting before) := by
  induction ds generalizing done w with
  | nil => rfl
  | cons d ds ih =>
      rw [List.foldlM_cons, List.foldlM_cons, Steps.on_bind, Steps.on_bind, on_addSuite_noting]
      rcases (addSuite request done d).on w with ⟨fault | done₁, w₁⟩
      · rfl
      · exact ih done₁ w₁

/-- Expanding with a resolver that notes what it is asked comes to the same, beside the notes. -/
theorem Asks.on_noting (h : Asks resolver request selectors done w asked result w')
    (before : List Asked) :
    (selectors.foldlM (addReached resolver.noting request) done).on (w.noting before) =
      (result, w'.noting (before ++ asked)) := by
  have hasked : ∀ {s : Selector} {w w₁ : World κ ω ρ} {answer},
      (Run.byResolver (resolver.suitesFor s)).on w = (answer, w₁) → ∀ before,
      (Run.byResolver (resolver.noting.suitesFor s)).on (w.noting before) =
        (answer, w₁.noting (before ++ [⟨s, answer⟩])) := by
    intro s w w₁ answer hask before
    rw [on_byResolver_noting, hask]
  have hadded : ∀ {ds : List SuiteDeclaration} {done : Expanded} {w w₁ : World κ ω ρ} {result},
      (ds.foldlM (addSuite request) done).on w = (result, w₁) → ∀ before,
      (ds.foldlM (addSuite request) done).on (w.noting before) = (result, w₁.noting before) := by
    intro ds done w w₁ result hadd before
    rw [on_addSuites_noting, hadd]
  induction h generalizing before with
  | done =>
      rw [List.append_nil]
      rfl
  | silent hask =>
      rw [List.foldlM_cons, Steps.on_bind_error (on_addReached_error _ (hasked hask before))]
  | refused hask hadd =>
      have hfirst := (on_addReached_ok _ (hasked hask before)).trans (hadded hadd _)
      rw [List.foldlM_cons, Steps.on_bind_error hfirst]
  | next hask hadd _ ih =>
      have hfirst := (on_addReached_ok _ (hasked hask before)).trans (hadded hadd _)
      rw [List.foldlM_cons, Steps.on_bind_ok hfirst, ih, List.append_assoc, List.singleton_append]

/-! ## What the notes tell -/

/-- A further request, and the node it is rooted at, are those of a suite. -/
structure RootsSuite (request : DiscoveryRequest) (f : Forest) (q : RootedRequest)
    (d : SuiteDeclaration) : Prop where
  fit : d.Fit
  selectors : q.request.selectors = d.selectors
  engineFilters : q.request.engineFilters = request.engineFilters ++ d.engineFilters
  nodeFilters : q.request.nodeFilters = request.nodeFilters ++ d.nodeFilters
  parameters : q.request.parameters = request.parameters
  node : ∃ p id, q.suite? = some p ∧ UniqueId.root Segment.suiteType d.name = .ok id ∧
    f.bare? p = some { id, name := d.displayName, kind := .container, source := some d.name } ∧
    f.parent? p = none ∧ f.children p = []

/-- A request was expanded: each of its selectors was asked about once, in order, and there is one
    further request for the first suite of each name in the answers. -/
structure Expands (request : DiscoveryRequest) (f f' : Forest) (asked : List Asked)
    (further : List RootedRequest) : Prop where
  inOrder : asked.map Asked.selector = request.selectors
  answered : Asked.AllAnswered asked
  names : (SuiteDeclaration.distinct (Asked.suites asked)).map SuiteDeclaration.name =
    ((Asked.suites asked).map SuiteDeclaration.name).eraseDups
  first : ∀ d ∈ SuiteDeclaration.distinct (Asked.suites asked),
    (Asked.suites asked).find? (fun e => e.name = d.name) = some d
  rooted : List.Forall₂ (RootsSuite request f') further
    (SuiteDeclaration.distinct (Asked.suites asked))
  ids : ((further.filterMap RootedRequest.suite?).map f'.id?).Nodup
  kept : f.Extends f'

/-- A request was not expanded: the last question failed, or the first suite of some name in the
    answers is unfit, and those before it are not. -/
structure Fails (request : DiscoveryRequest) (asked : List Asked) (fault : Fault) : Prop where
  inOrder : asked.map Asked.selector <+: request.selectors
  cause : (∃ before s, asked = before ++ [⟨s, .error fault⟩] ∧ Asked.AllAnswered before ∧
      ∀ d ∈ SuiteDeclaration.distinct (Asked.suites asked), d.Fit) ∨
    Asked.AllAnswered asked ∧ ∃ before d after,
      SuiteDeclaration.distinct (Asked.suites asked) = before ++ d :: after ∧
      (∀ b ∈ before, b.Fit) ∧ d.Unfit fault

theorem Planned.fit {f : Forest} (h : Planned request f done ds) : ∀ d ∈ ds, d.Fit := by
  intro d hd
  obtain ⟨n, hn⟩ := h.okay d hd
  exact SuiteDeclaration.fit_of_node_ok hn

theorem addSuite_eq_error (h : (addSuite request done d).on w = (.error fault, w')) :
    d.name ∉ done.names ∧ d.node = .error fault := by
  rw [addSuite] at h
  split at h
  · cases h
  · rename_i hnew
    refine ⟨hnew, ?_⟩
    rw [expand] at h
    cases hn : d.node with
    | ok n =>
        rw [hn] at h
        cases h
    | error fault' =>
        rw [hn] at h
        cases h
        rfl

/-- Adding suites fails at the first new one of which no node can be made. -/
theorem addSuites_eq_error (h : (more.foldlM (addSuite request) done).on w = (.error fault, w'))
    (hp : Planned request w.forest done ds) :
    ∃ before d after, more.foldl SuiteDeclaration.join ds = before ++ d :: after ∧
      (∀ b ∈ before, b.Fit) ∧ d.Unfit fault := by
  induction more generalizing done w ds with
  | nil => cases h
  | cons d more ih =>
      rw [List.foldlM_cons] at h
      rcases hadd : (addSuite request done d).on w with ⟨fault' | done₁, w₁⟩
      · rw [Steps.on_bind_error hadd] at h
        cases h
        obtain ⟨hnew, hnode⟩ := addSuite_eq_error hadd
        rw [hp.names] at hnew
        obtain ⟨after, hafter⟩ := SuiteDeclaration.prefix_foldl_join (ds ++ [d]) more
        refine ⟨ds, d, after, ?_, hp.fit, SuiteDeclaration.unfit_of_node_error hnode⟩
        rw [List.foldl_cons, SuiteDeclaration.join, if_neg hnew, ← hafter, List.append_assoc,
          List.singleton_append]
      · rw [Steps.on_bind_ok hadd] at h
        exact ih h (addSuite_eq_ok hadd hp).2

theorem suites_cons (a : Asked) (asked : List Asked) :
    Asked.suites (a :: asked) = a.answer.toOption.getD [] ++ Asked.suites asked := rfl

/-- When nothing fails, every selector was asked about. -/
theorem Asks.ok (h : Asks resolver request selectors done w asked (.ok done') w')
    (hp : Planned request w.forest done ds) :
    asked.map Asked.selector = selectors ∧ Asked.AllAnswered asked ∧
      w.forest.Extends w'.forest ∧ Planned request w'.forest done'
        ((Asked.suites asked).foldl SuiteDeclaration.join ds) := by
  generalize hresult : Except.ok done' = result at h
  induction h generalizing ds with
  | done =>
      cases hresult
      exact ⟨rfl, fun _ ha => absurd ha List.not_mem_nil, fun _ _ hr => hr, hp⟩
  | silent => cases hresult
  | refused => cases hresult
  | next hask hadd _ ih =>
      rw [← forest_of_byResolver hask] at hp
      obtain ⟨hext, hp₁⟩ := addSuites_eq_ok hadd hp
      obtain ⟨hasked, hanswered, hext', hp'⟩ := ih hp₁ hresult
      refine ⟨?_, List.forall_mem_cons.mpr ⟨⟨_, rfl⟩, hanswered⟩, ?_, ?_⟩
      · rw [List.map_cons, hasked]
      · rw [← forest_of_byResolver hask]
        exact fun r n hr => hext' r n (hext r n hr)
      · rw [suites_cons, List.foldl_append]
        exact hp'

/-- And when something fails, no selector was asked about after it. -/
theorem Asks.error (h : Asks resolver request selectors done w asked (.error fault) w')
    (hp : Planned request w.forest done ds) :
    asked.map Asked.selector <+: selectors ∧
      ((∃ before s, asked = before ++ [⟨s, .error fault⟩] ∧ Asked.AllAnswered before ∧
          ∀ d ∈ (Asked.suites asked).foldl SuiteDeclaration.join ds, d.Fit) ∨
        Asked.AllAnswered asked ∧ ∃ before d after,
          (Asked.suites asked).foldl SuiteDeclaration.join ds = before ++ d :: after ∧
          (∀ b ∈ before, b.Fit) ∧ d.Unfit fault) := by
  generalize hresult : Except.error fault = result at h
  induction h generalizing ds with
  | done => cases hresult
  | @silent s ss done w w₁ fault' hask =>
      cases hresult
      refine ⟨List.prefix_append [s] ss, Or.inl ⟨[], s, rfl, ?_, hp.fit⟩⟩
      exact fun _ ha => absurd ha List.not_mem_nil
  | @refused s ss done w w₁ w₂ ds' fault' hask hadd =>
      cases hresult
      rw [← forest_of_byResolver hask] at hp
      refine ⟨List.prefix_append [s] ss, Or.inr ⟨List.forall_mem_singleton.mpr ⟨ds', rfl⟩, ?_⟩⟩
      have hsuites : Asked.suites [⟨s, .ok ds'⟩] = ds' := List.append_nil ds'
      rw [hsuites]
      exact addSuites_eq_error hadd hp
  | @next s ss done done₁ w w₁ w₂ w' ds' asked result hask hadd _ ih =>
      rw [← forest_of_byResolver hask] at hp
      obtain ⟨hasked, hcause⟩ := ih (addSuites_eq_ok hadd hp).2 hresult
      refine ⟨(List.prefix_cons_inj s).mpr hasked, ?_⟩
      have hsuites : (Asked.suites (⟨s, .ok ds'⟩ :: asked)).foldl SuiteDeclaration.join ds =
          (Asked.suites asked).foldl SuiteDeclaration.join
            (ds'.foldl SuiteDeclaration.join ds) := by
        rw [suites_cons, List.foldl_append]
        rfl
      rw [hsuites]
      rcases hcause with ⟨before, s', rfl, hbefore, hfit⟩ | ⟨hanswered, hunfit⟩
      · refine Or.inl ⟨⟨s, .ok ds'⟩ :: before, s', rfl, ?_, hfit⟩
        exact List.forall_mem_cons.mpr ⟨⟨ds', rfl⟩, hbefore⟩
      · exact Or.inr ⟨List.forall_mem_cons.mpr ⟨⟨ds', rfl⟩, hanswered⟩, hunfit⟩

/-! ## Exactly the suites that are reached -/

theorem forall₂_of_mem {α β : Type} {R S : α → β → Prop} {as : List α} {bs : List β}
    (h : List.Forall₂ R as bs) (himp : ∀ a ∈ as, ∀ b ∈ bs, R a b → S a b) :
    List.Forall₂ S as bs := by
  induction h with
  | nil => exact .nil
  | cons hab _ ih =>
      refine .cons (himp _ (List.mem_cons_self ..) _ (List.mem_cons_self ..) hab) (ih ?_)
      exact fun a ha b hb => himp a (List.mem_cons_of_mem _ ha) b (List.mem_cons_of_mem _ hb)

theorem Planned.rootsSuites {f : Forest} (h : Planned request f done ds) :
    List.Forall₂ (RootsSuite request f) done.rooted ds := by
  have hboth : done.rooted.map (fun q => (q.request, q.suite?.bind f.bare?)) =
      ds.map fun d => (d.nested request, d.node.toOption) := by
    rw [← List.zip_map', ← List.zip_map', h.requests, h.nodes]
  rw [← List.forall₂_eq_eq_eq, List.forall₂_map_left_iff, List.forall₂_map_right_iff] at hboth
  refine forall₂_of_mem hboth ?_
  intro q hq d hd hsame
  obtain ⟨hrequest, hnode⟩ := Prod.mk.inj hsame
  rcases d.node_cases with ⟨hfit, id, hid, hn⟩ | ⟨fault, -, hfault⟩
  · rw [hn] at hnode
    obtain ⟨p, hp, hbare⟩ := Option.bind_eq_some_iff.mp hnode
    have hstands : f.Stands p none [] :=
      Forest.holds_leaves.mp h.holds p (List.mem_filterMap.mpr ⟨q, hq, hp⟩)
    exact ⟨hfit, by rw [hrequest]; rfl, by rw [hrequest]; rfl, by rw [hrequest]; rfl,
      by rw [hrequest]; rfl, p, id, hp, hid, hbare, hstands.parent, hstands.children⟩
  · obtain ⟨n, hn⟩ := h.okay d hd
    rw [hfault] at hn
    cases hn

/-- Suites of different names have nodes with different ids. -/
theorem Planned.nodup_ids {f : Forest} (h : Planned request f done ds)
    (hnames : (ds.map SuiteDeclaration.name).Nodup) :
    ((done.rooted.filterMap RootedRequest.suite?).map f.id?).Nodup := by
  have hids := h.map_id_suites fun _ _ => rfl
  rw [show f.id? = fun p => (f.node? p).map Node.id from rfl, hids]
  rw [List.Nodup, List.pairwise_map] at hnames ⊢
  refine hnames.imp_of_mem ?_
  intro d e hd he hne hsame
  obtain ⟨n, hn⟩ := h.okay d hd
  obtain ⟨m, hm⟩ := h.okay e he
  have hdid := (SuiteDeclaration.node_eq_ok hn).2.2.2
  have heid := (SuiteDeclaration.node_eq_ok hm).2.2.2
  rw [hdid, heid] at hsame
  refine hne (UniqueId.value_of_root hdid heid ?_)
  rw [Option.some.inj hsame]

/-- **Expanding a request is exact and goes one level deep.**  A resolver is asked about the
    selectors of the request and about nothing else, and what it answers settles the outcome. -/
theorem expansion_exact (resolver : SuiteResolver ρ) (request : DiscoveryRequest)
    (w : World κ ω ρ) :
    ∃ asked : List Asked,
      (∀ before, (ofRequest (some resolver.noting) request).on (w.noting before) =
        (((ofRequest (some resolver) request).on w).1,
          ((ofRequest (some resolver) request).on w).2.noting (before ++ asked))) ∧
      match (ofRequest (some resolver) request).on w with
      | (.ok further, w') => Expands request w.forest w'.forest asked further
      | (.error fault, _) => Fails request asked fault := by
  obtain ⟨asked, result, w', hon, hasks⟩ := exists_asks resolver request request.selectors {} w
  have hnoting := hasks.on_noting
  refine ⟨asked, ?_, ?_⟩
  · intro before
    cases result with
    | error fault =>
        rw [ofRequest, ofRequest, Steps.on_bind_error hon, Steps.on_bind_error (hnoting before)]
    | ok done =>
        rw [ofRequest, ofRequest, Steps.on_bind_ok hon, Steps.on_bind_ok (hnoting before)]
        rfl
  · cases result with
    | error fault =>
        rw [ofRequest, Steps.on_bind_error hon]
        obtain ⟨hinOrder, hcause⟩ := hasks.error (planned_nil request w.forest)
        exact ⟨hinOrder, hcause⟩
    | ok done =>
        rw [ofRequest, Steps.on_bind_ok hon]
        obtain ⟨hinOrder, hanswered, hext, hp⟩ := hasks.ok (planned_nil request w.forest)
        have hnames := SuiteDeclaration.nodup_distinct (Asked.suites asked)
        exact ⟨hinOrder, hanswered, SuiteDeclaration.map_name_distinct _,
          fun d hd => SuiteDeclaration.find?_of_mem_distinct hd, hp.rootsSuites,
          hp.nodup_ids hnames, hext⟩

/-- A suite whose display name is blank. -/
def unnamed : SuiteDeclaration where
  name := "p.S"
  displayName := " "
  selectors := (Selector.byClass "p.C").toOption.toList

/-- A table with that suite. -/
def unnamedTables : SuiteTables where
  classes := OrderedMap.insert ∅ "p.S" unnamed

/-- A request that selects it. -/
def selectsUnnamed : DiscoveryRequest where
  selectors := (Selector.byClass "p.S").toOption.toList

/-- The request reaches the suite, and there is no further request for it: the refusal of its node
    ends the expansion. -/
theorem unnamed_not_expanded :
    selectsUnnamed.selectors.flatMap unnamedTables.suitesFor = [unnamed] ∧
    ((ofRequest (some unnamedTables.resolver) selectsUnnamed).on
      ({ engines := (), listeners := (), resolver := () } : World Unit Unit Unit)).1
        = .error (.refused .blankDisplayName) ∧
    ¬ ∃ further w', (ofRequest (some unnamedTables.resolver) selectsUnnamed).on
      ({ engines := (), listeners := (), resolver := () } : World Unit Unit Unit)
        = (.ok further, w') := by
  have hrefused : ((ofRequest (some unnamedTables.resolver) selectsUnnamed).on
      ({ engines := (), listeners := (), resolver := () } : World Unit Unit Unit)).1
        = .error (.refused .blankDisplayName) := by rfl
  refine ⟨by rfl, hrefused, ?_⟩
  rintro ⟨further, w', h⟩
  rw [h] at hrefused
  cases hrefused

end Expansion

end TestLauncher
