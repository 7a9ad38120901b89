import TestLauncher.Proofs.Discovery.Conforming

/-! # Engines that conform make a plan

    With engines that conform, and a resolver that answers with sound suites, every request
    whose filters do not fail makes a plan (`discover_ok_of_conforms`), however many selectors
    reach a suite and whatever suites select.  A plan compares the texts of all ids, which
    nothing before it does: the roots of engines have different ids because engines do, each
    suite is expanded once, and a suite is no engine (`nodup_root_ids`); below the roots ids
    spell out the way. -/

namespace TestLauncher

/-- A suite that has a node, with a name that can be told apart and filters that do not fail. -/
structure SuiteDeclaration.Sound (d : SuiteDeclaration) : Prop where
  named : Text.isBlank d.name = false
  displayed : Text.isBlank d.displayName = false
  whole : UniqueId.Whole d.name
  engineFilters : ∀ filter ∈ d.engineFilters, filter.Unfailing
  nodeFilters : ∀ filter ∈ d.nodeFilters, filter.Unfailing

/-! ## Plans are made -/

namespace Launcher

variable {κ ω ρ : Type} {l : Launcher κ ω ρ} {phase : Phase} {request : DiscoveryRequest}
  {w w' : World κ ω ρ} {rs : List (Resolution κ)}

/-- What a launcher needs for its requests to make plans: different engines that conform, and a
    resolver that answers with sound suites. -/
structure Conforms (l : Launcher κ ω ρ) : Prop where
  lenient : l.strict = false
  engines : ∀ e ∈ l.engines, e.Conforms
  named : ∀ e ∈ l.engines, Text.isBlank e.id = false ∧ UniqueId.Whole e.id
  distinct : (l.engines.map Engine.id).Nodup
  resolver : ∀ resolver, l.resolver? = some resolver →
    Expansion.Answers resolver SuiteDeclaration.Sound

theorem sound_of_mem_distinct (hl : l.Conforms) {d : SuiteDeclaration}
    (hd : d ∈ SuiteDeclaration.distinct (Expansion.reached l.resolver? request w)) : d.Sound := by
  have hreached := SuiteDeclaration.mem_of_mem_distinct hd
  cases hr : l.resolver? with
  | none =>
      rw [hr] at hreached
      exact absurd hreached List.not_mem_nil
  | some resolver =>
      rw [hr] at hreached
      exact (hl.resolver resolver hr).of_mem_reachedBy hreached

section

variable (hl : l.Conforms) (hengine : ∀ filter ∈ request.engineFilters, filter.Unfailing)
  (hnode : ∀ filter ∈ request.nodeFilters, filter.Unfailing)

include hl hengine hnode

/-- **A request and those of its suites are resolved.** -/
theorem resolve_ok_of_conforms (w : World κ ω ρ) :
    ∃ rs w', (l.resolve phase request).on w = (.ok rs, w') := by
  obtain ⟨further, w₁, hexpand⟩ : ∃ further w₁,
      (Expansion.ofRequest l.resolver? request).on w = (.ok further, w₁) := by
    cases hr : l.resolver? with
    | none => exact ⟨[], w, rfl⟩
    | some resolver =>
        exact (hl.resolver resolver hr).ofRequest_ok
          (fun d hd => SuiteDeclaration.node_ok hd.named hd.displayed) w
  obtain ⟨-, done, rfl, hplanned⟩ := Expansion.ofRequest_eq_ok hexpand
  let qs : List RootedRequest := ⟨request, none⟩ :: done.rooted
  have hg : w₁.forest.Holds none (.nil ++ .leaves (qs.filterMap RootedRequest.suite?)) :=
    hplanned.holds
  have hn : (Grove.nil ++ .leaves (qs.filterMap RootedRequest.suite?)).toList.Nodup := by
    rw [Grove.nil_append, Grove.toList_leaves]
    exact hplanned.nodup
  have hengines : ∀ q ∈ qs, ∀ filter ∈ q.request.engineFilters, filter.Unfailing := by
    intro q hq filter hfilter
    rcases List.mem_cons.mp hq with rfl | hq
    · exact hengine filter hfilter
    · rcases hplanned.mem_engineFilters hq hfilter with hfilter | ⟨d, hd, hfilter⟩
      · exact hengine filter hfilter
      · exact (sound_of_mem_distinct hl hd).engineFilters filter hfilter
  have hnodes : ∀ q ∈ qs, ∀ filter ∈ q.request.nodeFilters, filter.Unfailing := by
    intro q hq filter hfilter
    rcases List.mem_cons.mp hq with rfl | hq
    · exact hnode filter hfilter
    · rcases hplanned.mem_nodeFilters hq hfilter with hfilter | ⟨d, hd, hfilter⟩
      · exact hnode filter hfilter
      · exact (sound_of_mem_distinct hl hd).nodeFilters filter hfilter
  obtain ⟨rs, w', hrs⟩ : ∃ rs w',
      (qs.mapM (Resolution.ofRequest l.engines false phase)).on w₁ = (.ok rs, w') :=
    Resolution.mapM_ofRequest_ok hl.engines (fun e he => (hl.named e he).1) hl.distinct hengines
      hnodes hg hn
  rw [← hl.lenient] at hrs
  exact ⟨rs, w', by rw [resolve, Steps.on_bind_ok hexpand]; exact hrs⟩

end

/-- **The ids of the roots of a call**: those of engines, made of their ids, and those of suites, made
    of their names. -/
theorem map_id_allRoots {done : Expansion.Expanded} {ds : List SuiteDeclaration}
    {w₁ : World κ ω ρ} {f : Forest} (hplanned : Expansion.Planned request w₁.forest done ds)
    (hrooted : (l.surveys phase (⟨request, none⟩ :: done.rooted) w₁).map Survey.rooted
      = ⟨request, none⟩ :: done.rooted)
    (hbare : ∀ p ∈ done.rooted.filterMap RootedRequest.suite?, f.bare? p = w₁.forest.bare? p)
    (hlaid : ∀ s ∈ l.surveys phase (⟨request, none⟩ :: done.rooted) w₁, ∃ G, s.Laid f G) :
    ∃ es : List (Engine κ), es.Sublist l.engines ∧
      (Resolution.allRoots ((l.surveys phase (⟨request, none⟩ :: done.rooted) w₁).map
          (Survey.resolution f))).map f.id?
        = es.map (fun e => (UniqueId.forEngine e.id).toOption)
          ++ ds.map fun d => (UniqueId.root Segment.suiteType d.name).toOption := by
  obtain ⟨xs, rest, hsurveys, hxs⟩ : ∃ xs rest,
      l.surveys phase (⟨request, none⟩ :: done.rooted) w₁ = ⟨⟨request, none⟩, xs⟩ :: rest ∧
        (xs.map Find.engine).Sublist l.engines :=
    ⟨_, _, rfl, Resolution.engine_finds_sublist l.engines (Resolution.start ⟨request, none⟩ w₁) w₁⟩
  rw [hsurveys] at hrooted hlaid ⊢
  rw [List.map_cons, List.cons.injEq] at hrooted
  refine ⟨xs.map Find.engine, hxs, ?_⟩
  have hrest : Resolution.allRoots (rest.map (Survey.resolution f))
      = done.rooted.filterMap RootedRequest.suite? := by
    rw [Resolution.allRoots, ← hrooted.2, List.flatMap_map, List.filterMap_map,
      List.filterMap_eq_flatMap_toList]
    refine List.flatMap_congr ?_
    intro s hs
    obtain ⟨p, hp⟩ : ∃ p, s.rooted.suite? = some p := by
      refine hplanned.exists_suite ?_
      rw [← hrooted.2]
      exact List.mem_map_of_mem hs
    rw [Function.comp_apply, Resolution.planRoots, Survey.resolution, hp]
    rfl
  have hfirst : (xs.map Find.root).map f.id?
      = (xs.map Find.engine).map fun e => (UniqueId.forEngine e.id).toOption := by
    rw [List.map_map, List.map_map]
    refine List.map_congr_left ?_
    intro x hx
    obtain ⟨G, hG⟩ := hlaid ⟨⟨request, none⟩, xs⟩ (by simp)
    obtain ⟨n, hn, hid⟩ := hG.named x hx
    have hid' : UniqueId.forEngine x.engine.id = .ok n.id := hid
    rw [Function.comp_apply, Function.comp_apply, hid', Forest.id?_of_node? hn]
    rfl
  have hroots : Resolution.allRoots
      ((⟨⟨request, none⟩, xs⟩ :: rest : List (Survey κ)).map (Survey.resolution f))
        = xs.map Find.root ++ done.rooted.filterMap RootedRequest.suite? := by
    rw [← hrest, Resolution.allRoots, List.map_cons, List.flatMap_cons, Resolution.allRoots]
    congr 1
    show (xs.map fun x => (x.engine, x.root)).map Prod.snd = _
    rw [List.map_map]
    rfl
  rw [hroots, List.map_append, hfirst, ← hplanned.map_id_suites hbare]
  rfl

/-- Ids of roots that are made of different names are different, and have one segment each, the value
    of which can be told apart. -/
theorem nodup_root_ids (hl : l.Conforms) {es : List (Engine κ)} (hes : es.Sublist l.engines)
    {ds : List SuiteDeclaration} (hds : (ds.map SuiteDeclaration.name).Nodup)
    (hsound : ∀ d ∈ ds, d.Sound) {ids : List (Option UniqueId)}
    (hids : ids = es.map (fun e => (UniqueId.forEngine e.id).toOption)
      ++ ds.map fun d => (UniqueId.root Segment.suiteType d.name).toOption) :
    ids.Nodup ∧ ∀ id ∈ ids, ∃ s, id = some (.single s) ∧ UniqueId.Whole s.value := by
  have hengine : ∀ e ∈ es, ∃ s, UniqueId.forEngine e.id = .ok (.single s) ∧
      s.type = Segment.engineType ∧ s.value = e.id := by
    intro e he
    obtain ⟨s, hs⟩ : ∃ s, Segment.make Segment.engineType e.id = .ok s :=
      Segment.make_ok (by decide) (by decide) (hl.named e (hes.mem he)).1
    exact ⟨s, by rw [UniqueId.forEngine, UniqueId.root, hs]; rfl, Segment.type_of_make hs⟩
  have hsuite : ∀ d ∈ ds, ∃ s, UniqueId.root Segment.suiteType d.name = .ok (.single s) ∧
      s.type = Segment.suiteType ∧ s.value = d.name := by
    intro d hd
    obtain ⟨s, hs⟩ : ∃ s, Segment.make Segment.suiteType d.name = .ok s :=
      Segment.make_ok (by decide) (by decide) (hsound d hd).named
    exact ⟨s, by rw [UniqueId.root, hs]; rfl, Segment.type_of_make hs⟩
  have hsingle : ∀ {s t : Segment}, some (UniqueId.single s) = some (.single t) → s = t := by
    intro s t h
    have hsegments := congrArg UniqueId.segments (Option.some.inj h)
    exact List.singleton_inj.mp hsegments
  rw [hids]
  refine ⟨List.nodup_append'.mpr ⟨?_, ?_, ?_⟩, ?_⟩
  · refine List.pairwise_map.mpr (List.Pairwise.imp_of_mem ?_
      (List.pairwise_map.mp (hl.distinct.sublist (hes.map Engine.id))))
    intro e e' he he' hne h
    obtain ⟨s, hs, -, hvalue⟩ := hengine e he
    obtain ⟨t, ht, -, hvalue'⟩ := hengine e' he'
    rw [hs, ht] at h
    exact hne (by rw [← hvalue, ← hvalue', hsingle h])
  · refine List.pairwise_map.mpr (List.Pairwise.imp_of_mem ?_ (List.pairwise_map.mp hds))
    intro d d' hd hd' hne h
    obtain ⟨s, hs, -, hvalue⟩ := hsuite d hd
    obtain ⟨t, ht, -, hvalue'⟩ := hsuite d' hd'
    rw [hs, ht] at h
    exact hne (by rw [← hvalue, ← hvalue', hsingle h])
  · intro id hid hid'
    obtain ⟨e, he, rfl⟩ := List.mem_map.mp hid
    obtain ⟨d, hd, h⟩ := List.mem_map.mp hid'
    obtain ⟨s, hs, htype, -⟩ := hengine e he
    obtain ⟨t, ht, htype', -⟩ := hsuite d hd
    rw [hs, ht] at h
    have hsame : t = s := hsingle h
    rw [← hsame, htype'] at htype
    exact absurd htype (by decide)
  · intro id hid
    rcases List.mem_append.mp hid with hid | hid
    · obtain ⟨e, he, rfl⟩ := List.mem_map.mp hid
      obtain ⟨s, hs, -, hvalue⟩ := hengine e he
      refine ⟨s, by rw [hs]; rfl, ?_⟩
      rw [hvalue]
      exact (hl.named e (hes.mem he)).2
    · obtain ⟨d, hd, rfl⟩ := List.mem_map.mp hid
      obtain ⟨s, hs, -, hvalue⟩ := hsuite d hd
      refine ⟨s, by rw [hs]; rfl, ?_⟩
      rw [hvalue]
      exact (hsound d hd).whole

/-- **Engines that conform make a plan**, whatever the request selects and whatever suites that
    reaches, as long as its filters do not fail. -/
theorem discover_ok_of_conforms (hl : l.Conforms)
    (hengine : ∀ filter ∈ request.engineFilters, filter.Unfailing)
    (hnode : ∀ filter ∈ request.nodeFilters, filter.Unfailing) (w : World κ ω ρ) :
    ∃ plan w', (l.discover (some request)).on w = (.ok plan, w') := by
  have hfresh : ∀ e ∈ l.engines, e.BuildsFresh := fun e he => (hl.engines e he).fresh
  obtain ⟨rs, w', hresolve⟩ : ∃ rs w', (l.resolve .discovery request).on w = (.ok rs, w') :=
    resolve_ok_of_conforms hl hengine hnode w
  obtain ⟨done, w₁, -, hplanned, hrs, hrooted, hbare, parts, hparts, hholds, hnodup, hroots⟩ :=
    resolve_eq_ok hfresh hresolve
  have hsound : ∀ d ∈ SuiteDeclaration.distinct (Expansion.reached l.resolver? request w),
      d.Sound := fun d hd => sound_of_mem_distinct hl hd
  have hmem : ∀ s ∈ l.surveys .discovery (⟨request, none⟩ :: done.rooted) w₁, ∀ x ∈ s.finds,
      x.engine ∈ l.engines := fun s hs x hx => Resolution.engine_mem_of_surveys hs hx
  obtain ⟨hlaid, -, -⟩ := Survey.laid_row (G := .row parts) hparts
    (fun s hs x hx => (hl.engines _ (hmem s hs x hx)).named)
    (fun part hp r hr => by
      rw [Grove.roots_row]
      exact List.mem_flatMap.mpr ⟨part, hp, hr⟩)
    (fun part hp r hr => by
      rw [Grove.toList_row]
      exact List.mem_flatMap.mpr ⟨part, hp, hr⟩) hholds
    (fun s hs p hp => suite_of_surveys hplanned hrooted hbare hs hp)
  have hjoined : (Grove.row parts).Joined w'.forest.Spells := by
    refine Survey.joined_row hparts hlaid ?_
    exact fun s hs x hx => ⟨hl.engines _ (hmem s hs x hx), (hl.named _ (hmem s hs x hx)).2⟩
  obtain ⟨es, hes, hids⟩ := map_id_allRoots hplanned hrooted hbare fun s hs => ⟨_, hlaid s hs⟩
  rw [← hrs, hroots] at hids
  obtain ⟨hapart, hsingle⟩ := nodup_root_ids hl hes (SuiteDeclaration.nodup_distinct _)
    (fun d hd => sound_of_mem_distinct hl hd) hids
  have hrootIds : ∀ r ∈ (Grove.row parts).roots,
      ∃ s, w'.forest.id? r = some (.single s) ∧ UniqueId.Whole s.value :=
    fun r hr => hsingle _ (List.mem_map_of_mem hr)
  obtain ⟨plan, hplan⟩ := TestPlan.ofRoots_ok hholds hnodup
    (Forest.nodup_of_spelled hholds hjoined hnodup hrootIds hapart)
  rw [← hroots] at hplan
  exact ⟨plan, w', discover_of_resolve hresolve hplan⟩

/-! ## Two engines and a suite -/

/-- A root with a test below it. -/
def growPair (id : UniqueId) : Growing NodeRef := do
  let testId ← Steps.ofExcept (id.append "test" "t")
  let root ← Forest.plant (Node.make (some id) "root")
  let test ← Forest.plant (Node.make (some testId) "t" .test)
  Forest.attach root test
  return root

/-- An engine with one test. -/
def pair (engineId : String) : Engine Unit where
  id := engineId
  discover _ id := do return some (← (growPair id).first)
  execute _ _ := .done ()

theorem on_growPair (id : UniqueId) (f : Forest) : ∃ root test n f' t,
    (growPair id).on f = (.ok root, f') ∧ f.Raised f' root n (.tree test .nil) ∧ n.id = id ∧
      f'.id? test = some (id.push t) ∧ UniqueId.Whole t.value := by
  obtain ⟨t, ht⟩ : ∃ t, Segment.make "test" "t" = .ok t :=
    Segment.make_ok (by decide) (by decide) (by decide)
  have happend : id.append "test" "t" = .ok (id.push t) := by
    rw [UniqueId.append, ht]
    rfl
  let n : Node := { id, name := "root" }
  let m : Node := { id := id.push t, name := "t", kind := .test }
  have hn : Node.make (some id) "root" = .ok n := by
    rw [Node.make, if_neg (by decide)]
  have hm : Node.make (some (id.push t)) "t" .test = .ok m := by
    rw [Node.make, if_neg (by decide)]
  have hroot : (Forest.plant (Node.make (some id) "root")).on f
      = (.ok (f.add n).1, (f.add n).2) := by
    rw [hn]
    rfl
  have htest : (Forest.plant (Node.make (some (id.push t)) "t" .test)).on (f.add n).2
      = (.ok ((f.add n).2.add m).1, ((f.add n).2.add m).2) := by
    rw [hm]
    rfl
  have hrootNode : ((f.add n).2.add m).2.node? (f.add n).1 = some n :=
    Forest.extends_add _ m _ _ ((Forest.node?_add ..).trans (if_pos rfl))
  have htestNode : ((f.add n).2.add m).2.node? ((f.add n).2.add m).1 = some m :=
    (Forest.node?_add ..).trans (if_pos rfl)
  have hne : ((f.add n).2.add m).1 ≠ (f.add n).1 := by
    intro h
    have hindex : f.nodes.size + 1 = f.nodes.size := by
      simpa [Forest.add] using congrArg NodeRef.index h
    omega
  obtain ⟨f', hadd, hgraft⟩ := Forest.addChild_free htestNode rfl hrootNode hne rfl
  have hattach : (Forest.attach (f.add n).1 ((f.add n).2.add m).1).on ((f.add n).2.add m).2
      = (.ok (), f') := by
    rw [Forest.on_attach, hadd]
  refine ⟨_, _, _, f', t, ?_, (Forest.raised_plant hroot).attach (Forest.raised_plant htest) hattach,
    rfl, ?_, ?_⟩
  · rw [growPair, happend, Steps.on_bind_ok (Steps.on_ofExcept _ f), Steps.on_bind_ok hroot,
      Steps.on_bind_ok htest, Steps.on_bind_ok hattach]
    rfl
  · have hbare := hgraft.bare? ⟨m, htestNode⟩ ((f.add n).2.add m).1
    rw [Forest.id?_congr hbare]
    exact Forest.id?_of_node? htestNode
  · rw [(Segment.type_of_make ht).2]
    decide

theorem pair_conforms (engineId : String) : (pair engineId).Conforms := by
  have hon : ∀ request id (s : Forest × Unit), ∃ root test n f' t,
      ((pair engineId).discover request id).on s = (.ok (some root), (f', s.2)) ∧
        s.1.Raised f' root n (.tree test .nil) ∧ n.id = id ∧
        f'.id? test = some (id.push t) ∧ UniqueId.Whole t.value := by
    intro request id s
    obtain ⟨root, test, n, f', t, hgrow, h⟩ := on_growPair id s.1
    refine ⟨root, test, n, f', t, ?_, h⟩
    have hfirst : ((growPair id).first : Steps (Forest × Unit) NodeRef).on s
        = (.ok root, (f', s.2)) := by
      rw [Steps.on_first, hgrow]
    exact Steps.on_bind_ok hfirst _
  refine ⟨?_, ⟨?_, ?_⟩, ?_, ?_⟩
  · intro request id s f t h
    obtain ⟨root, test, n, f', t', hdiscover, -⟩ := hon request id s
    rw [hdiscover] at h
    cases h
  · intro request id s
    obtain ⟨root, test, n, f', t', hdiscover, hraised, -⟩ := hon request id s
    rw [hdiscover]
    exact hraised.leaves
  · intro request id s r t h
    obtain ⟨root, test, n, f', t', hdiscover, hraised, -⟩ := hon request id s
    rw [hdiscover] at h
    cases h
    exact ⟨_, hraised.holds, hraised.nodup, hraised.fresh⟩
  · intro request id s r t h
    obtain ⟨root, test, n, f', t', hdiscover, hraised, hid, -⟩ := hon request id s
    rw [hdiscover] at h
    cases h
    exact ⟨n, hraised.root, hid⟩
  · intro request id s r t h p c hp hc
    obtain ⟨root, test, n, f', t', hdiscover, hraised, hid, htest, hwhole⟩ := hon request id s
    rw [hdiscover] at h
    cases h
    obtain ⟨hrootStands, htestHolds⟩ := Forest.holds_tree.mp hraised.holds
    obtain ⟨htestStands, -⟩ := Forest.holds_tree.mp htestHolds
    have hrootId : f'.id? r = some id := by
      obtain ⟨m, hm, hmn⟩ := Option.map_eq_some_iff.mp hraised.root
      rw [Forest.id?_of_node? hm, ← hid, ← hmn]
      rfl
    have hreached : ∀ x, f'.Reached [r] x → x = r ∨ x = test := by
      intro x hx
      induction hx with
      | root hx => exact Or.inl (List.mem_singleton.mp hx)
      | child _ hx ih =>
          rcases ih with rfl | rfl
          · rw [hrootStands.children] at hx
            exact Or.inr (List.mem_singleton.mp hx)
          · rw [htestStands.children] at hx
            exact absurd hx List.not_mem_nil
    rcases hreached p hp with hpr | hpt
    · rw [hpr, hrootStands.children] at hc
      rw [hpr, List.mem_singleton.mp hc]
      exact ⟨id, t', hrootId, htest, hwhole⟩
    · rw [hpt, htestStands.children] at hc
      exact absurd hc List.not_mem_nil

/-- A suite that every selector reaches twice. -/
def everywhere : SuiteResolver Unit where
  suitesFor _ := pure [{ name := "s", displayName := "S", selectors := [] },
    { name := "s", displayName := "S", selectors := [] }]

/-- Two engines and the suite. -/
def couple : Launcher Unit Unit Unit where
  engines := [pair "A", pair "B"]
  resolver? := some everywhere

/-- Two selectors. -/
def twice : DiscoveryRequest where
  selectors := [.ofClass ⟨"n.K", by decide⟩, .ofClass ⟨"n.L", by decide⟩]

theorem discover_ok_of_conforms_couple :
    ∃ plan w', (couple.discover (some twice)).on Resolution.oneSuite = (.ok plan, w') ∧
      plan.identifiers.keys = ["[engine:A]", "[engine:A]/[test:t]", "[engine:B]",
        "[engine:B]/[test:t]", "[suite:s]", "[suite:s]/[engine:A]",
        "[suite:s]/[engine:A]/[test:t]", "[suite:s]/[engine:B]",
        "[suite:s]/[engine:B]/[test:t]"] := by
  have hengines : ∀ e ∈ couple.engines, e.Conforms := by
    intro e he
    rcases List.mem_cons.mp he with rfl | he
    · exact pair_conforms "A"
    · rw [List.mem_singleton.mp he]
      exact pair_conforms "B"
  have hsound : ∀ d ∈ ([{ name := "s", displayName := "S", selectors := [] },
      { name := "s", displayName := "S", selectors := [] }] : List SuiteDeclaration), d.Sound := by
    intro d hd
    have hd' : d = { name := "s", displayName := "S", selectors := [] } := by simpa using hd
    rw [hd']
    exact ⟨by decide, by decide, by decide, fun _ h => absurd h List.not_mem_nil,
      fun _ h => absurd h List.not_mem_nil⟩
  have hcouple : couple.Conforms := by
    refine ⟨rfl, hengines, ?_, by decide +kernel, ?_⟩
    · intro e he
      rcases List.mem_cons.mp he with rfl | he
      · exact ⟨by decide, by decide⟩
      · rw [List.mem_singleton.mp he]
        exact ⟨by decide, by decide⟩
    · intro resolver hresolver s t
      cases hresolver
      exact ⟨_, t, rfl, hsound⟩
  obtain ⟨plan, w', hplan⟩ : ∃ plan w',
      (couple.discover (some twice)).on Resolution.oneSuite = (.ok plan, w') :=
    discover_ok_of_conforms hcouple (fun _ h => absurd h List.not_mem_nil)
      (fun _ h => absurd h List.not_mem_nil) Resolution.oneSuite
  refine ⟨plan, w', hplan, ?_⟩
  have hkeys : ((couple.discover (some twice)).on Resolution.oneSuite).1.toOption.map
      (fun plan : TestPlan => plan.identifiers.keys) = some ["[engine:A]", "[engine:A]/[test:t]",
        "[engine:B]", "[engine:B]/[test:t]", "[suite:s]", "[suite:s]/[engine:A]",
        "[suite:s]/[engine:A]/[test:t]", "[suite:s]/[engine:B]",
        "[suite:s]/[engine:B]/[test:t]"] := by
    decide +kernel
  rw [hplan] at hkeys
  exact Option.some.inj hkeys

end Launcher

end TestLauncher
