import TestLauncher.Proofs.Discovery.Survey
import TestLauncher.Proofs.UniqueId

/-! # The nodes of suites

    Expanding a request plants a node without links for each suite that its selectors
    reach, the first of each name (`distinct`), and nothing else changes in the forest
    (`ofRequest_eq_ok`). -/

namespace TestLauncher

namespace SuiteDeclaration

/-- Suites and one more, unless they have its name. -/
def join (ds : List SuiteDeclaration) (d : SuiteDeclaration) : List SuiteDeclaration :=
  if d.name ∈ ds.map name then ds else ds ++ [d]

/-- The first suite of each name. -/
def distinct (ds : List SuiteDeclaration) : List SuiteDeclaration := ds.foldl join []

theorem nodup_foldl_join (ds : List SuiteDeclaration) {done : List SuiteDeclaration}
    (h : (done.map name).Nodup) : ((ds.foldl join done).map name).Nodup := by
  induction ds generalizing done with
  | nil => exact h
  | cons d ds ih =>
      refine ih ?_
      rw [join]
      split
      · exact h
      · rename_i hnew
        rw [List.map_append]
        refine List.nodup_append'.mpr ⟨h, List.nodup_singleton _, fun a ha hd => hnew ?_⟩
        rw [List.map_singleton, List.mem_singleton] at hd
        exact hd ▸ ha

theorem nodup_distinct (ds : List SuiteDeclaration) : ((distinct ds).map name).Nodup :=
  nodup_foldl_join ds List.nodup_nil

theorem mem_of_mem_distinct {ds : List SuiteDeclaration} {d : SuiteDeclaration}
    (h : d ∈ distinct ds) : d ∈ ds := by
  have hjoin : ∀ {ds done : List SuiteDeclaration}, d ∈ ds.foldl join done → d ∈ done ∨ d ∈ ds := by
    intro ds
    induction ds with
    | nil => exact Or.inl
    | cons e ds ih =>
        intro done hd
        rcases ih hd with hd | hd
        · rw [join] at hd
          split at hd
          · exact Or.inl hd
          · rw [List.mem_append, List.mem_singleton] at hd
            rcases hd with hd | rfl
            · exact Or.inl hd
            · exact Or.inr (by simp)
        · exact Or.inr (by simp [hd])
  exact (hjoin h).resolve_left List.not_mem_nil

/-- Neither name of the suite is blank. -/
def Fit (d : SuiteDeclaration) : Prop :=
  Text.isBlank d.name = false ∧ Text.isBlank d.displayName = false

/-- One of the names of the suite is blank, and the refusal says which. -/
inductive Unfit (d : SuiteDeclaration) : Fault → Prop where
  | name (h : Text.isBlank d.name = true) : Unfit d (.refused .blankSegmentValue)
  | displayName (hname : Text.isBlank d.name = false) (h : Text.isBlank d.displayName = true) :
      Unfit d (.refused .blankDisplayName)

/-- A suite has a node exactly if it is fit, and else it is told why. -/
theorem node_cases (d : SuiteDeclaration) :
    (d.Fit ∧ ∃ id, UniqueId.root Segment.suiteType d.name = .ok id ∧
      d.node = .ok { id, name := d.displayName, kind := .container, source := some d.name }) ∨
    ∃ fault, d.Unfit fault ∧ d.node = .error fault := by
  by_cases hname : Text.isBlank d.name = true
  · refine Or.inr ⟨_, .name hname, ?_⟩
    rw [node, UniqueId.root, Segment.make, dif_pos (by decide), dif_pos (by decide),
      dif_neg (by rw [hname]; exact Bool.noConfusion)]
    rfl
  · rw [Bool.not_eq_true] at hname
    obtain ⟨s, hs⟩ : ∃ s, Segment.make Segment.suiteType d.name = .ok s :=
      Segment.make_ok (by decide) (by decide) hname
    have hid : UniqueId.root Segment.suiteType d.name = .ok (.single s) := by
      rw [UniqueId.root, hs]
      rfl
    by_cases hdisplay : Text.isBlank d.displayName = true
    · refine Or.inr ⟨_, .displayName hname hdisplay, ?_⟩
      rw [node, hid]
      exact if_pos hdisplay
    · refine Or.inl ⟨⟨hname, Bool.eq_false_iff.mpr hdisplay⟩, .single s, hid, ?_⟩
      rw [node, hid]
      exact if_neg hdisplay

theorem fit_of_node_ok {d : SuiteDeclaration} {n : Node} (h : d.node = .ok n) : d.Fit := by
  rcases d.node_cases with ⟨hfit, -⟩ | ⟨fault, -, hfault⟩
  · exact hfit
  · rw [hfault] at h
    cases h

theorem unfit_of_node_error {d : SuiteDeclaration} {fault : Fault} (h : d.node = .error fault) : d.Unfit fault := by
  rcases d.node_cases with ⟨-, id, -, hnode⟩ | ⟨fault', hunfit, hfault⟩
  · rw [hnode] at h
    cases h
  · rw [hfault] at h
    cases h
    exact hunfit

/-- A suite whose names are not blank has a node. -/
theorem node_ok {d : SuiteDeclaration} (hname : Text.isBlank d.name = false)
    (hdisplay : Text.isBlank d.displayName = false) : ∃ n, d.node = .ok n := by
  rcases d.node_cases with ⟨-, id, -, hnode⟩ | ⟨fault, hunfit, -⟩
  · exact ⟨_, hnode⟩
  · cases hunfit with
    | name h =>
        rw [hname] at h
        cases h
    | displayName _ h =>
        rw [hdisplay] at h
        cases h

/-- The node of a suite has no links, and its id says that it stands for a suite. -/
theorem node_eq_ok {d : SuiteDeclaration} {n : Node} (h : d.node = .ok n) :
    n.bare = n ∧ n.parent = none ∧ n.children.values = [] ∧
      UniqueId.root Segment.suiteType d.name = .ok n.id := by
  rw [node] at h
  cases hid : UniqueId.root Segment.suiteType d.name with
  | error e =>
      rw [hid] at h
      cases h
  | ok id =>
      rw [hid] at h
      rw [Node.make_eq_ok h]
      exact ⟨rfl, rfl, rfl, rfl⟩

end SuiteDeclaration

namespace Expansion

variable {κ ω ρ : Type}

/-- The suites that selectors reach, asked one after the other in the world the ones before
    leave. -/
def reachedBy (resolver : SuiteResolver ρ) (request : DiscoveryRequest) :
    List Selector → Expanded → World κ ω ρ → List SuiteDeclaration
  | [], _, _ => []
  | s :: ss, done, w =>
    match (Run.byResolver (resolver.suitesFor s)).on w with
    | (.error _, _) => []
    | (.ok ds, w) => ds ++
      match (ds.foldlM (addSuite request) done).on w with
      | (.error _, _) => []
      | (.ok done, w) => reachedBy resolver request ss done w

/-- The suites that the selectors of a request reach. -/
def reached (resolver? : Option (SuiteResolver ρ)) (request : DiscoveryRequest)
    (w : World κ ω ρ) : List SuiteDeclaration :=
  match resolver? with
  | none => []
  | some resolver => reachedBy resolver request request.selectors {} w

/-- A resolver that answers for every selector, and with suites that have a property. -/
def Answers (resolver : SuiteResolver ρ) (P : SuiteDeclaration → Prop) : Prop :=
  ∀ s t, ∃ ds t', (resolver.suitesFor s).on t = (.ok ds, t') ∧ ∀ d ∈ ds, P d

/-- There is a request for each of some suites, and a node of its own without links. -/
structure Planned (request : DiscoveryRequest) (f : Forest) (done : Expanded)
    (ds : List SuiteDeclaration) : Prop where
  names : done.names = ds.map SuiteDeclaration.name
  requests : done.rooted.map RootedRequest.request = ds.map fun d => d.nested request
  nodes : done.rooted.map (fun q => q.suite?.bind f.bare?) = ds.map fun d => d.node.toOption
  okay : ∀ d ∈ ds, ∃ n, d.node = .ok n
  holds : f.Holds none (.leaves (done.rooted.filterMap RootedRequest.suite?))
  nodup : (done.rooted.filterMap RootedRequest.suite?).Nodup

section

variable {request : DiscoveryRequest} {f f' : Forest} {done done' : Expanded}
  {ds : List SuiteDeclaration} {d : SuiteDeclaration} {w w' : World κ ω ρ}

theorem planned_nil (request : DiscoveryRequest) (f : Forest) : Planned request f {} [] :=
  ⟨rfl, rfl, rfl, fun _ hd => absurd hd List.not_mem_nil, trivial, List.nodup_nil⟩

theorem Planned.index_lt {q : RootedRequest} {p : NodeRef} (h : Planned request f done ds)
    (hq : q ∈ done.rooted) (hp : q.suite? = some p) : p.index < f.size := by
  refine Forest.index_lt_of_holds h.holds ?_
  rw [Grove.toList_leaves]
  exact List.mem_filterMap.mpr ⟨q, hq, hp⟩

theorem Planned.extend (h : Planned request f done ds) (hf : f.Extends f') :
    Planned request f' done ds := by
  refine ⟨h.names, h.requests, ?_, h.okay, hf.holds h.holds, h.nodup⟩
  rw [← h.nodes]
  refine List.map_congr_left ?_
  intro q hq
  cases hp : q.suite? with
  | none => rfl
  | some p => exact Forest.bare?_congr (hf.node? (h.index_lt hq hp))

/-- A suite that is new gets a node of its own. -/
theorem Planned.snoc {n : Node} (h : Planned request f done ds) (hn : d.node = .ok n) :
    Planned request (f.add n).2
      ⟨done.rooted ++ [⟨d.nested request, some (f.add n).1⟩], done.names ++ [d.name]⟩
      (ds ++ [d]) := by
  obtain ⟨hbare, hparent, hchildren, -⟩ := SuiteDeclaration.node_eq_ok hn
  have hext := h.extend (Forest.extends_add f n)
  have hnode : (f.add n).2.node? (f.add n).1 = some n := by
    rw [Forest.node?_add, if_pos rfl]
  -- the nodes of the suites before it are older
  have hnew : (f.add n).1 ∉ done.rooted.filterMap RootedRequest.suite? := by
    intro hmem
    obtain ⟨q, hq, hp⟩ := List.mem_filterMap.mp hmem
    exact Nat.lt_irrefl _ (h.index_lt hq hp)
  refine ⟨?_, ?_, ?_, ?_, ?_, ?_⟩
  · rw [h.names, List.map_append, List.map_singleton]
  · rw [List.map_append, List.map_append, h.requests]
    rfl
  · rw [List.map_append, List.map_append, hext.nodes, List.map_singleton, List.map_singleton, hn]
    show _ ++ [(f.add n).2.bare? (f.add n).1] = _
    rw [Forest.bare?, hnode, Option.map_some, hbare]
    rfl
  · intro e he
    rcases List.mem_append.mp he with he | he
    · exact h.okay e he
    · rw [List.mem_singleton.mp he]
      exact ⟨n, hn⟩
  · rw [List.filterMap_append, Grove.leaves_append]
    exact Forest.holds_append.mpr
      ⟨hext.holds, Forest.stands_add hparent hchildren, trivial, trivial⟩
  · rw [List.filterMap_append]
    refine List.nodup_append'.mpr ⟨h.nodup, List.nodup_singleton _, ?_⟩
    intro r hr hnew'
    rw [List.mem_singleton.mp hnew'] at hr
    exact hnew hr

/-- The node of a suite is a root, and its id says what it is. -/
theorem Planned.suite {q : RootedRequest} {p : NodeRef} (h : Planned request f done ds)
    (hq : q ∈ done.rooted) (hp : q.suite? = some p) :
    f.parent? p = none ∧ ∃ n name, f.bare? p = some n ∧
      UniqueId.root Segment.suiteType name = .ok n.id := by
  have hstands : f.Stands p none [] :=
    Forest.holds_leaves.mp h.holds p (List.mem_filterMap.mpr ⟨q, hq, hp⟩)
  have hmem : q.suite?.bind f.bare? ∈ ds.map fun d => d.node.toOption := by
    rw [← h.nodes]
    exact List.mem_map_of_mem hq
  obtain ⟨d, hd, hnode⟩ := List.mem_map.mp hmem
  obtain ⟨n, hn⟩ := h.okay d hd
  rw [hn, hp] at hnode
  exact ⟨hstands.parent, n, d.name, hnode.symm, (SuiteDeclaration.node_eq_ok hn).2.2.2⟩

/-- Every further request has a suite, since every suite has a node. -/
theorem Planned.exists_suite {q : RootedRequest} (h : Planned request f done ds)
    (hq : q ∈ done.rooted) : ∃ p, q.suite? = some p := by
  have hmem : q.suite?.bind f.bare? ∈ ds.map fun d => d.node.toOption := by
    rw [← h.nodes]
    exact List.mem_map_of_mem hq
  obtain ⟨d, hd, hnode⟩ := List.mem_map.mp hmem
  obtain ⟨n, hn⟩ := h.okay d hd
  rw [hn] at hnode
  obtain ⟨p, hp, -⟩ := Option.bind_eq_some_iff.mp hnode.symm
  exact ⟨p, hp⟩

/-- The ids of the suites' nodes are made of the names of the suites, wherever the nodes are as they
    were planted. -/
theorem Planned.map_id_suites (h : Planned request f done ds)
    (hbare : ∀ p ∈ done.rooted.filterMap RootedRequest.suite?, f'.bare? p = f.bare? p) :
    (done.rooted.filterMap RootedRequest.suite?).map (fun p => (f'.node? p).map Node.id)
      = ds.map fun d => (UniqueId.root Segment.suiteType d.name).toOption := by
  have hids : done.rooted.map (fun q => (q.suite?.bind f.bare?).map Node.id)
      = ds.map fun d => (UniqueId.root Segment.suiteType d.name).toOption := by
    have hnodes := congrArg (List.map (Option.map Node.id)) h.nodes
    rw [List.map_map, List.map_map] at hnodes
    refine hnodes.trans (List.map_congr_left ?_)
    intro d hd
    obtain ⟨n, hn⟩ := h.okay d hd
    rw [(SuiteDeclaration.node_eq_ok hn).2.2.2, Function.comp_apply, hn]
    rfl
  rw [← hids, List.map_filterMap, ← List.filterMap_eq_map]
  refine List.filterMap_congr ?_
  intro q hq
  obtain ⟨p, hp⟩ := h.exists_suite hq
  have hold := hbare p (List.mem_filterMap.mpr ⟨q, hq, hp⟩)
  rw [Function.comp_apply, hp, Option.map_some, Option.bind_some, ← hold, Forest.bare?,
    Option.map_map]
  rfl

/-- Every further request is that of a suite. -/
theorem Planned.exists_nested {q : RootedRequest} (h : Planned request f done ds)
    (hq : q ∈ done.rooted) : ∃ d ∈ ds, q.request = d.nested request := by
  have hnested := List.mem_map_of_mem (f := RootedRequest.request) hq
  rw [h.requests] at hnested
  obtain ⟨d, hd, hde⟩ := List.mem_map.mp hnested
  exact ⟨d, hd, hde.symm⟩

/-- The filters of a request for a suite are those there were and those of the suite. -/
theorem Planned.mem_nodeFilters {q : RootedRequest} {filter : NodeFilter}
    (h : Planned request f done ds) (hq : q ∈ done.rooted)
    (hfilter : filter ∈ q.request.nodeFilters) :
    filter ∈ request.nodeFilters ∨ ∃ d ∈ ds, filter ∈ d.nodeFilters := by
  obtain ⟨d, hd, hnested⟩ := h.exists_nested hq
  rw [hnested] at hfilter
  rcases List.mem_append.mp hfilter with hfilter | hfilter
  · exact Or.inl hfilter
  · exact Or.inr ⟨d, hd, hfilter⟩

theorem Planned.mem_engineFilters {q : RootedRequest} {filter : EngineFilter}
    (h : Planned request f done ds) (hq : q ∈ done.rooted)
    (hfilter : filter ∈ q.request.engineFilters) :
    filter ∈ request.engineFilters ∨ ∃ d ∈ ds, filter ∈ d.engineFilters := by
  obtain ⟨d, hd, hnested⟩ := h.exists_nested hq
  rw [hnested] at hfilter
  rcases List.mem_append.mp hfilter with hfilter | hfilter
  · exact Or.inl hfilter
  · exact Or.inr ⟨d, hd, hfilter⟩

/-- Each suite has a request of its own. -/
theorem Planned.exists_rooted (h : Planned request f done ds) (hd : d ∈ ds) :
    ∃ q ∈ done.rooted, ∃ p n, q.request = d.nested request ∧ q.suite? = some p ∧
      f.bare? p = some n ∧ d.node = .ok n := by
  obtain ⟨i, hi⟩ := List.mem_iff_getElem?.mp hd
  have hrequest := congrArg (fun l => l[i]?) h.requests
  have hnode := congrArg (fun l => l[i]?) h.nodes
  simp only [List.getElem?_map, hi, Option.map_some] at hrequest hnode
  obtain ⟨q, hq, hnested⟩ := Option.map_eq_some_iff.mp hrequest
  obtain ⟨n, hn⟩ := h.okay d hd
  rw [hq, hn, Option.map_some, Option.some.injEq] at hnode
  obtain ⟨p, hp, hbare⟩ := Option.bind_eq_some_iff.mp hnode
  exact ⟨q, List.mem_of_getElem? hq, p, n, hnested, hp, hbare, hn⟩

/-- The identifiers of the suites' nodes. -/
theorem Planned.identifiers (h : Planned request f done ds) :
    done.rooted.map (fun q => q.suite?.bind f.identifier?)
      = ds.map fun d => d.node.toOption.map fun n => n.identifier none := by
  have hnodes := congrArg (List.map (Option.map fun n => Node.identifier n none)) h.nodes
  rw [List.map_map, List.map_map] at hnodes
  refine Eq.trans (List.map_congr_left ?_) hnodes
  intro q hq
  cases hp : q.suite? with
  | none => rw [Function.comp_apply, hp]; rfl
  | some p =>
      show f.identifier? p = _
      rw [Forest.identifier?_eq, (h.suite hq hp).1, Function.comp_apply, hp]
      rfl

theorem forest_of_byResolver {resolver : SuiteResolver ρ} {s : Selector} {w w' : World κ ω ρ}
    {answer : Except Fault (List SuiteDeclaration)}
    (h : (Run.byResolver (resolver.suitesFor s)).on w = (answer, w')) : w'.forest = w.forest := by
  rw [Run.byResolver, Steps.on_within] at h
  injection h with _ hw
  rw [← hw]

/-- One suite. -/
theorem addSuite_eq_ok (h : (addSuite request done d).on w = (.ok done', w'))
    (hp : Planned request w.forest done ds) :
    w.forest.Extends w'.forest ∧ Planned request w'.forest done' (SuiteDeclaration.join ds d) := by
  rw [SuiteDeclaration.join, ← hp.names]
  rw [addSuite] at h
  split at h
  · cases h
    rename_i hmem
    rw [if_pos hmem]
    exact ⟨fun _ _ hr => hr, hp⟩
  · rename_i hmem
    rw [if_neg hmem]
    obtain ⟨q, w₁, hexpand, h⟩ := Steps.on_bind_eq_ok h
    cases h
    obtain ⟨u, w₂, hlog, hexpand⟩ := Steps.on_bind_eq_ok hexpand
    cases hlog
    obtain ⟨p, w₃, hplant, hexpand⟩ := Steps.on_bind_eq_ok hexpand
    cases hexpand
    cases hn : d.node with
    | error e =>
        rw [hn] at hplant
        cases hplant
    | ok n =>
        rw [hn] at hplant
        cases hplant
        exact ⟨Forest.extends_add _ n, hp.snoc hn⟩

/-- The suites that one selector reaches. -/
theorem addSuites_eq_ok {more : List SuiteDeclaration}
    (h : (more.foldlM (addSuite request) done).on w = (.ok done', w'))
    (hp : Planned request w.forest done ds) :
    w.forest.Extends w'.forest ∧
      Planned request w'.forest done' (more.foldl SuiteDeclaration.join ds) := by
  induction more generalizing done w ds with
  | nil =>
      cases h
      exact ⟨fun _ _ hr => hr, hp⟩
  | cons d more ih =>
      rw [List.foldlM_cons] at h
      obtain ⟨done₁, w₁, h₁, h₂⟩ := Steps.on_bind_eq_ok h
      obtain ⟨hext₁, hp₁⟩ := addSuite_eq_ok h₁ hp
      obtain ⟨hext₂, hp₂⟩ := ih h₂ hp₁
      exact ⟨fun r n hr => hext₂ r n (hext₁ r n hr), hp₂⟩

/-- The suites that all selectors reach. -/
theorem addAllReached_eq_ok {resolver : SuiteResolver ρ} {selectors : List Selector}
    (h : (selectors.foldlM (addReached resolver request) done).on w = (.ok done', w'))
    (hp : Planned request w.forest done ds) :
    w.forest.Extends w'.forest ∧ Planned request w'.forest done'
      ((reachedBy resolver request selectors done w).foldl SuiteDeclaration.join ds) := by
  induction selectors generalizing done w ds with
  | nil =>
      cases h
      exact ⟨fun _ _ hr => hr, hp⟩
  | cons s selectors ih =>
      rw [List.foldlM_cons] at h
      obtain ⟨done₁, w₁, h₁, h₂⟩ := Steps.on_bind_eq_ok h
      obtain ⟨more, w₀, hask, hadd⟩ := Steps.on_bind_eq_ok h₁
      have hforest : w₀.forest = w.forest := forest_of_byResolver hask
      rw [← hforest] at hp
      obtain ⟨hext₁, hp₁⟩ := addSuites_eq_ok hadd hp
      obtain ⟨hext₂, hp₂⟩ := ih h₂ hp₁
      refine ⟨fun r n hr => hext₂ r n (hext₁ r n (hforest ▸ hr)), ?_⟩
      rw [reachedBy, hask]
      dsimp only
      rw [hadd]
      dsimp only
      rw [List.foldl_append]
      exact hp₂

end

/-- **Expanding a request.**  There is a request for each distinct suite that is reached, with a
    node of its own, and what was in the forest before is still there. -/
theorem ofRequest_eq_ok {resolver? : Option (SuiteResolver ρ)} {request : DiscoveryRequest}
    {w w' : World κ ω ρ} {further : List RootedRequest}
    (h : (ofRequest resolver? request).on w = (.ok further, w')) :
    w.forest.Extends w'.forest ∧ ∃ done : Expanded, done.rooted = further ∧
      Planned request w'.forest done (SuiteDeclaration.distinct (reached resolver? request w)) := by
  cases resolver? with
  | none =>
      cases h
      exact ⟨fun _ _ hr => hr, {}, rfl, planned_nil request w.forest⟩
  | some resolver =>
      obtain ⟨done, w₁, hadd, h⟩ := Steps.on_bind_eq_ok h
      cases h
      obtain ⟨hext, hp⟩ := addAllReached_eq_ok hadd (planned_nil request w.forest)
      exact ⟨hext, done, rfl, hp⟩

section

variable {resolver : SuiteResolver ρ} {P : SuiteDeclaration → Prop} {request : DiscoveryRequest}

theorem Answers.on_byResolver (h : Answers resolver P) (s : Selector) (w : World κ ω ρ) :
    ∃ ds w', (Run.byResolver (resolver.suitesFor s)).on w = (.ok ds, w') ∧ ∀ d ∈ ds, P d := by
  obtain ⟨ds, t', hon, hds⟩ := h s (w.journal, w.resolver)
  refine ⟨ds, { w with journal := t'.1, resolver := t'.2 }, ?_, hds⟩
  rw [Run.byResolver, Steps.on_within, hon]

/-- What is reached has the property of the answers. -/
theorem Answers.of_mem_reachedBy (h : Answers resolver P) {selectors : List Selector}
    {done : Expanded} {w : World κ ω ρ} {d : SuiteDeclaration}
    (hd : d ∈ reachedBy resolver request selectors done w) : P d := by
  induction selectors generalizing done w with
  | nil => exact absurd hd List.not_mem_nil
  | cons s selectors ih =>
      obtain ⟨ds, w', hon, hds⟩ := h.on_byResolver s w
      rw [reachedBy, hon] at hd
      rcases List.mem_append.mp hd with hd | hd
      · exact hds d hd
      · split at hd
        · exact absurd hd List.not_mem_nil
        · exact ih hd

theorem addSuite_ok {d : SuiteDeclaration} (hd : ∃ n, d.node = .ok n) (done : Expanded)
    (w : World κ ω ρ) : ∃ done' w', (addSuite request done d).on w = (.ok done', w') := by
  obtain ⟨n, hn⟩ := hd
  rw [addSuite]
  split
  · exact ⟨done, w, rfl⟩
  · rw [expand, hn]
    exact ⟨_, _, rfl⟩

/-- **A request is expanded** when the resolver answers with suites that have nodes. -/
theorem Answers.ofRequest_ok (h : Answers resolver P) (hnode : ∀ d, P d → ∃ n, d.node = .ok n)
    (w : World κ ω ρ) :
    ∃ further w', (ofRequest (some resolver) request).on w = (.ok further, w') := by
  obtain ⟨done, w', hon⟩ : ∃ done w',
      (request.selectors.foldlM (addReached resolver request) {}).on w = (.ok done, w') := by
    refine Steps.foldlM_ok ?_ ({} : Expanded) w
    intro s _ done w
    obtain ⟨ds, w₁, hask, hds⟩ := h.on_byResolver s w
    rw [addReached, Steps.on_bind_ok hask]
    exact Steps.foldlM_ok (fun d hd => addSuite_ok (hnode d (hds d hd))) done w₁
  exact ⟨done.rooted, w', Steps.on_bind_ok hon _⟩

end

/-- A resolver over tables reaches what the tables hold. -/
theorem reached_tables {tables : SuiteTables} {request : DiscoveryRequest} {w w' : World κ ω ρ}
    {further : List RootedRequest}
    (h : (ofRequest (some tables.resolver) request).on w = (.ok further, w')) :
    reached (some tables.resolver) request w = request.selectors.flatMap tables.suitesFor := by
  obtain ⟨done, w₁, hadd, -⟩ := Steps.on_bind_eq_ok h
  clear h
  rw [reached]
  generalize request.selectors = selectors at hadd ⊢
  generalize ({} : Expanded) = start at hadd ⊢
  induction selectors generalizing start w with
  | nil => rfl
  | cons s selectors ih =>
      rw [List.foldlM_cons] at hadd
      obtain ⟨done₁, w₂, h₁, h₂⟩ := Steps.on_bind_eq_ok hadd
      have hask : (Run.byResolver (tables.resolver.suitesFor s)).on w
          = (.ok (tables.suitesFor s), w) := rfl
      rw [addReached, Steps.on_bind_ok hask] at h₁
      rw [reachedBy, hask, List.flatMap_cons]
      dsimp only
      rw [h₁]
      exact congrArg (tables.suitesFor s ++ ·) (ih done₁ h₂)

end Expansion

end TestLauncher
