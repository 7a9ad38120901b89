import TestLauncher.Proofs.Engine.Catalogue
import TestLauncher.Proofs.Execution.Brackets
import TestLauncher.Proofs.Plan.Owners
import TestLauncher.Proofs.Plan.Tour

/-! # What engines over a catalogue execute

    An engine over a catalogue walks its tree by child links and reports the start and the
    end of every node; between the start and the end of the plan, and of each suite, this
    makes a tour of the plan (`Part.tours_ofResolutions`).  What a launcher of such engines
    discovers it discovers again when it executes, so that executing a request announces
    the plan that discovering it returns, tours it, and ends with the fault that discovering
    it ends with if it ends with one (`execution_tours_discovery`). -/

namespace TestLauncher

/-! ## Walking a tree -/

namespace Catalogue

variable {c : Catalogue} {f : Forest} {plan : TestPlan}

/-- The result of a node, by its name. -/
def resultOf (c : Catalogue) (f : Forest) (r : NodeRef) : ExecutionResult :=
  c.resultFor (((f.node? r).map Node.name).getD "")

theorem resultOf_eq {r : NodeRef} {i : Identifier} (hi : f.identifier? r = some i) :
    c.resultOf f r = c.resultFor i.name := by
  cases hn : f.node? r with
  | none =>
      rw [Forest.identifier?, hn] at hi
      cases hi
  | some n =>
      obtain ⟨j, hj, -, -, hname, -⟩ := Forest.identifier?_of_node? hn
      rw [hi] at hj
      cases hj
      rw [resultOf, hn, hname]
      rfl

/-- Executing nodes one after the other reports what stands below them in the order of the
    trees. -/
theorem play_executeNodes {g : Grove NodeRef} {pp : Option NodeRef} {n : Nat} (hg : f.Holds pp g)
    (hn : g.height ≤ n) (k : Diaries) :
    (g.roots.forM (c.executeNode n)).play plan (f, k)
      = (plan.told f (c.resultOf f) g, .ok (), (f, k)) := by
  induction g generalizing pp n with
  | nil => rfl
  | cons r b s ihb ihs =>
      obtain ⟨hr, hb, hs⟩ := hg
      simp only [Grove.height] at hn
      obtain ⟨m, rfl⟩ : ∃ m, n = m + 1 := ⟨n - 1, by omega⟩
      have hbelow := ihb hb (n := m) (by omega)
      have hbeside := ihs hs (n := m + 1) (by omega)
      -- one node: its start, what is below it, its end
      have hnode : (c.executeNode (m + 1) r).play plan (f, k)
          = ((plan.identify? f (.started r)).toList ++ (plan.told f (c.resultOf f) b ++
              (plan.identify? f (.finished r (c.resultOf f r))).toList), .ok (), (f, k)) := by
        rw [executeNode]
        refine Activity.play_andThen (Activity.play_tell plan _ (f, k)) ?_
        show ((f.children r).forM (c.executeNode m) >>= fun _ =>
          Activity.tell (.finished r (c.resultOf f r))).play plan (f, k) = _
        rw [hr.children]
        exact Activity.play_andThen hbelow (Activity.play_tell plan _ (f, k))
      have hall := Activity.play_andThen (k := fun _ => s.roots.forM (c.executeNode (m + 1)))
        hnode hbeside
      rw [List.append_assoc, List.append_assoc] at hall
      exact hall

/-- Executing a tree reports it. -/
theorem play_execute {number : Nat} {root : NodeRef} {b : Grove NodeRef} {pp : Option NodeRef}
    (hfail : c.failExecute? = none) (hg : f.Holds pp (.tree root b))
    (hn : (Grove.tree root b).toList.Nodup) (k : Diaries) :
    ∃ k', (c.execute number root).play plan (f, k)
      = (plan.told f (c.resultOf f) (.tree root b), .ok (), (f, k')) := by
  have hle : (Grove.tree root b).height ≤ f.size + 1 :=
    Nat.le_succ_of_le (Forest.height_le_size hg hn)
  let k' := k.enter number fun d => { d with executions := d.executions + 1 }
  have henter : (Activity.ofSteps (Diaries.enterExecution number)).play plan (f, k)
      = ([], .ok (), (f, k')) := rfl
  have htree : (c.executeNode (f.size + 1) root).play plan (f, k')
      = (plan.told f (c.resultOf f) (.tree root b), .ok (), (f, k')) := by
    rw [← play_executeNodes hg hle k']
    show _ = (c.executeNode (f.size + 1) root >>= fun _ => pure ()).play plan (f, k')
    rw [bind_pure_unit]
  refine ⟨k', ?_⟩
  rw [execute, hfail, ← List.nil_append (plan.told f (c.resultOf f) (.tree root b))]
  exact Activity.play_andThen henter htree

end Catalogue

/-! ## Parts of an execution -/

namespace Part

/-- A part leaves the forest as it finds it, comes to its end, and tours nodes. -/
def Tours {κ : Type} (part : Part κ) (plan : TestPlan) (may : Identifier → ExecutionResult → Prop)
    (f : Forest) (is : List Identifier) : Prop :=
  ∀ k, ∃ calls es k', part (f, k) = (⟨calls, es.map .about, none⟩, (f, k')) ∧ plan.Tour may is es

section

variable {κ : Type} {plan : TestPlan} {may : Identifier → ExecutionResult → Prop} {f : Forest}

theorem tours_nothing : (nothing : Part κ).Tours plan may f [] :=
  fun k => ⟨[], [], k, rfl, .nil⟩

theorem Tours.andThen {a b : Part κ} {is js : List Identifier} (ha : a.Tours plan may f is)
    (hb : b.Tours plan may f js) : (a.andThen b).Tours plan may f (is ++ js) := by
  intro k
  obtain ⟨calls, es, k₁, hpart, htour⟩ := ha k
  obtain ⟨calls', es', k₂, hpart', htour'⟩ := hb k₁
  refine ⟨calls ++ calls', es ++ es', k₂, ?_, htour.append htour'⟩
  rw [Part.andThen, hpart]
  dsimp only
  rw [hpart', List.map_append]

/-- A suite's part tours its node when what is in between tours the children. -/
theorem Tours.inSuite {a : Part κ} {i : Identifier} (ha : a.Tours plan may f (plan.childrenOf i.id))
    (hi : may i .successful) :
    ((event (.about (.started i))).andThen
      (a.andThen (event (.about (.finished i .successful))))).Tours plan may f [i] := by
  intro k
  obtain ⟨calls, es, k', hpart, htour⟩ := ha k
  refine ⟨[] ++ (calls ++ []), .started i :: (es ++ [.finished i .successful]), k', ?_,
    .cons hi htour .nil⟩
  have hinner : (a.andThen (event (.about (.finished i .successful)))) (f, k)
      = (⟨calls ++ [], es.map .about ++ [.about (.finished i .successful)], none⟩, (f, k')) := by
    rw [Part.andThen, hpart]
    rfl
  rw [Part.andThen, event]
  dsimp only
  rw [hinner, List.map_cons, List.map_append]
  rfl

end

section

variable {plan : TestPlan} {may : Identifier → ExecutionResult → Prop} {f : Forest}
  {G : Grove NodeRef} {parameters : Parameters}

/-- What a catalogue's engine may report about the nodes below a root. -/
def MayReport (may : Identifier → ExecutionResult → Prop) (f : Forest) (G : Grove NodeRef)
    (e : Engine Diaries) (root : NodeRef) : Prop :=
  ∃ c number, e = Catalogue.engine c number ∧ c.failExecute? = none ∧
    ∀ r ∈ G.toList, f.Under root r → ∀ i, f.identifier? r = some i →
      may i (c.resultFor i.name)

theorem tours_ofEngine {e : Engine Diaries} {root : NodeRef} {b : Grove NodeRef}
    {pp : Option NodeRef} (h : plan.Indexes f G) (hG : f.Holds none G) (hn : G.toList.Nodup)
    (hg : f.Holds pp (.tree root b)) (hnb : (Grove.tree root b).toList.Nodup)
    (hsub : ∀ r ∈ (Grove.tree root b).toList, r ∈ G.toList) (he : MayReport may f G e root) :
    (ofEngine plan parameters (e, root)).Tours plan may f (f.identifiers [root]) := by
  obtain ⟨c, number, rfl, hfail, hmay⟩ := he
  intro k
  obtain ⟨k', hplay⟩ : ∃ k', ((c.engine number).execute root parameters).play plan (f, k)
      = (plan.told f (c.resultOf f) (.tree root b), .ok (), (f, k')) :=
    Catalogue.play_execute hfail hg hnb k
  refine ⟨[(c.id, root)], plan.told f (c.resultOf f) (.tree root b), k', ?_, ?_⟩
  · dsimp only [ofEngine]
    rw [hplay]
    rfl
  · refine h.tour (g := .tree root b) hG hn hg hsub ?_
    intro r hr i hi
    rw [Catalogue.resultOf_eq hi]
    refine hmay r (hsub r hr) ?_ i hi
    rcases Grove.mem_tree.mp hr with rfl | hr
    · exact .self
    · exact Forest.under_of_holds (Forest.holds_tree.mp hg).2 .self hr

/-- The engines of a resolution tour their trees one after the other. -/
theorem tours_ofEngines {xs : List (Find Diaries)} {g : Grove NodeRef} {pp : Option NodeRef}
    (h : plan.Indexes f G) (hG : f.Holds none G) (hn : G.toList.Nodup) (hg : f.Holds pp g)
    (hng : g.toList.Nodup) (hsub : ∀ r ∈ g.toList, r ∈ G.toList)
    (hroots : g.roots = xs.map Find.root)
    (hxs : ∀ x ∈ xs, MayReport may f G x.engine x.root) :
    (row (xs.map fun x => ofEngine plan parameters (x.engine, x.root))).Tours plan may f
      (f.identifiers g.roots) := by
  induction xs generalizing g with
  | nil =>
      rw [hroots]
      exact tours_nothing
  | cons x xs ih =>
      cases g with
      | nil => cases hroots
      | cons r b s =>
          rw [Grove.roots_cons, List.map_cons] at hroots
          injection hroots with hr hroots
          subst hr
          obtain ⟨hr, hb, hs⟩ := hg
          obtain ⟨hrb, -, hnb, hns, -⟩ := Grove.nodup_cons.mp hng
          have hsubtree : ∀ y ∈ (Grove.tree x.root b).toList, y ∈ G.toList := by
            intro y hy
            rcases Grove.mem_tree.mp hy with rfl | hy
            · exact hsub x.root (by simp)
            · exact hsub y (by simp [hy])
          have hfirst : (ofEngine plan parameters (x.engine, x.root)).Tours plan may f
              (f.identifiers [x.root]) :=
            tours_ofEngine h hG hn (Forest.holds_tree.mpr ⟨hr, hb⟩)
              (Grove.nodup_tree.mpr ⟨hrb, hnb⟩) hsubtree (hxs x (by simp))
          have hrest := ih hs hns (fun y hy => hsub y (by simp [hy])) hroots
            fun y hy => hxs y (by simp [hy])
          have hids : f.identifiers (Grove.cons x.root b s).roots
              = f.identifiers [x.root] ++ f.identifiers s.roots :=
            Forest.identifiers_append [x.root] s.roots
          rw [hids]
          exact hfirst.andThen hrest

/-- A resolution tours the roots it contributes to the plan. -/
theorem tours_ofResolution {s : Survey Diaries} {part : Grove NodeRef} (h : plan.Indexes f G)
    (hG : f.Holds none G) (hn : G.toList.Nodup) (hpart : s.Filled f part)
    (hf : f.Holds none part) (hnp : part.toList.Nodup) (hsub : ∀ r ∈ part.toList, r ∈ G.toList)
    (hxs : ∀ x ∈ s.finds, MayReport may f G x.engine x.root)
    (hsuite : ∀ p, s.rooted.suite? = some p → ∀ i, f.identifier? p = some i →
      may i .successful) :
    (ofResolution plan parameters (s.resolution f)).Tours plan may f
      (f.identifiers part.roots) := by
  obtain ⟨g, rfl, hroots, hg⟩ := hpart
  have hmap : (s.resolution f).roots.map (ofEngine plan parameters)
      = s.finds.map fun x => ofEngine plan parameters (x.engine, x.root) := by
    rw [Survey.resolution, List.map_map]
    rfl
  cases hs : s.rooted.suite? with
  | none =>
      rw [hs] at hg hnp hsub
      have hnone : (s.resolution f).suiteIdentifier? = none := by
        rw [Survey.resolution, hs]
        rfl
      rw [ofResolution, hnone, hmap]
      exact tours_ofEngines h hG hn hg hnp hsub hroots hxs
  | some p =>
      rw [hs] at hf hg hnp hsub
      have hf' : f.Holds none (.tree p g) := hf
      have hnp' : (Grove.tree p g).toList.Nodup := hnp
      have hsub' : ∀ r ∈ (Grove.tree p g).toList, r ∈ G.toList := hsub
      rw [Grove.toList_tree] at hnp' hsub'
      obtain ⟨n, hnode, -⟩ := (Forest.holds_tree.mp hf').1.exists_node
      obtain ⟨i, hi, -⟩ := Forest.identifier?_of_node? hnode
      have hsome : (s.resolution f).suiteIdentifier? = some i := by
        rw [Survey.resolution, hs]
        exact hi
      -- between the reports about the suite its engines tour the children of its node
      have hchildren : plan.childrenOf i.id = f.identifiers g.roots := by
        rw [h.childrenOf hG hn (hsub' p (by simp)) (Forest.id_of_identifier? hi).1,
          (Forest.holds_tree.mp hf').1.children]
      have hengines : (row (s.finds.map fun x => ofEngine plan parameters (x.engine, x.root))).Tours
          plan may f (plan.childrenOf i.id) := by
        rw [hchildren]
        exact tours_ofEngines h hG hn hg (List.nodup_cons.mp hnp').2
          (fun r hr => hsub' r (by simp [hr])) hroots hxs
      rw [ofResolution, hsome, hmap]
      show Tours _ plan may f (f.identifiers [p])
      rw [Forest.identifiers_cons hi]
      exact hengines.inSuite (hsuite p hs i hi)

/-- All resolutions tour the roots of the plan. -/
theorem tours_ofResolutions {ss : List (Survey Diaries)} {parts : List (Grove NodeRef)}
    (h : plan.Indexes f G) (hG : f.Holds none G) (hn : G.toList.Nodup)
    (hparts : List.Forall₂ (Survey.Filled f) ss parts) (hf : f.Holds none (.row parts))
    (hnp : (Grove.row parts).toList.Nodup) (hsub : ∀ r ∈ (Grove.row parts).toList, r ∈ G.toList)
    (hxs : ∀ s ∈ ss, ∀ x ∈ s.finds, MayReport may f G x.engine x.root)
    (hsuite : ∀ s ∈ ss, ∀ p, s.rooted.suite? = some p → ∀ i, f.identifier? p = some i →
      may i .successful) :
    (row ((ss.map (Survey.resolution f)).map (ofResolution plan parameters))).Tours plan may f
      (f.identifiers (Grove.row parts).roots) := by
  induction hparts with
  | nil => exact tours_nothing
  | cons hpart _ ih =>
      rename_i s part ss parts _
      rw [Grove.row, Forest.holds_append] at hf
      rw [Grove.row, Grove.toList_append] at hnp hsub
      obtain ⟨hnp₁, hnp₂, -⟩ := List.nodup_append'.mp hnp
      have hfirst : (ofResolution plan parameters (s.resolution f)).Tours plan may f
          (f.identifiers part.roots) :=
        tours_ofResolution h hG hn hpart hf.1 hnp₁
          (fun r hr => hsub r (List.mem_append_left _ hr)) (hxs s (by simp)) (hsuite s (by simp))
      have hrest := ih hf.2 hnp₂ (fun r hr => hsub r (List.mem_append_right _ hr))
        (fun s hs => hxs s (by simp [hs])) fun s hs => hsuite s (by simp [hs])
      rw [Grove.row, Grove.roots_append, Forest.identifiers_append]
      exact hfirst.andThen hrest

/-- A plan is executed from its start to its end, and toured in between. -/
theorem Tours.ofPlan {κ : Type} {rs : List (Resolution κ)} {is : List Identifier}
    (h : (row (rs.map (Part.ofResolution plan parameters))).Tours plan may f is) (k : κ) :
    ∃ es, plan.Tour may is es ∧ (Part.ofPlan plan parameters rs (f, k)).1.escape? = none ∧
      (Part.ofPlan plan parameters rs (f, k)).1.events
        = .planStarted plan :: (es.map .about ++ [.planFinished plan]) := by
  obtain ⟨calls, es, k', hrow, htour⟩ := h k
  have hinner : ((row (rs.map (Part.ofResolution plan parameters))).andThen
        (event (.planFinished plan))) (f, k)
      = (⟨calls ++ [], es.map .about ++ [.planFinished plan], none⟩, (f, k')) := by
    rw [Part.andThen, hrow]
    rfl
  have hall : Part.ofPlan plan parameters rs (f, k)
      = (⟨calls ++ [], .planStarted plan :: (es.map .about ++ [.planFinished plan]), none⟩,
          (f, k')) := by
    rw [Part.ofPlan, Part.andThen, event]
    dsimp only
    rw [hinner]
    rfl
  rw [hall]
  exact ⟨es, htour, rfl, rfl⟩

end

end Part

/-! ## Executing what was discovered -/

theorem SuiteTables.resolver_settled {ρ : Type} {tables : SuiteTables} {selectors : List Selector}
    (h : ∀ s ∈ selectors, ∀ d ∈ tables.suitesFor s, ∀ filter ∈ d.nodeFilters, filter.Placeless) :
    (tables.resolver : SuiteResolver ρ).Settled selectors := by
  intro s hs
  refine ⟨.ok (tables.suitesFor s), fun _ => rfl, ?_⟩
  intro ds hds
  cases hds
  exact h s hs

/-- The result a node of a plan is to have: a failure when it belongs to an engine whose catalogue
    lists its name among those that fail, and a success otherwise. -/
structure Catalogue.Verdict (cs : List Catalogue) (plan : TestPlan) (i : Identifier)
    (result : ExecutionResult) : Prop where
  failed : (∃ c ∈ cs, plan.BelongsTo c.id i ∧ i.name ∈ c.failing) →
    result = ⟨.failed, some (.testFailed i.name)⟩
  successful : (¬∃ c ∈ cs, plan.BelongsTo c.id i ∧ i.name ∈ c.failing) → result = .successful

namespace Survey

variable {f : Forest} {G : Grove NodeRef} {ss : List (Survey Diaries)} {plan : TestPlan}
  {cs : List Catalogue}

/-- The nodes below the root of an engine's tree get the results that its catalogue says. -/
theorem AllLaid.verdict (h : AllLaid f G ss) (hplan : plan.Indexes f G) (hG : f.Holds none G)
    (hn : G.toList.Nodup) (hids : (cs.map Catalogue.id).Nodup) {s : Survey Diaries} (hs : s ∈ ss)
    {x : Find Diaries} (hx : x ∈ s.finds) {c : Catalogue} (hc : c ∈ cs) {number : Nat}
    (he : x.engine = c.engine number) {r : NodeRef} (hr : r ∈ G.toList)
    (hunder : f.Under x.root r) {i : Identifier} (hi : f.identifier? r = some i) :
    Catalogue.Verdict cs plan i (c.resultFor i.name) := by
  have hxc : x.engine.id = c.id := by
    rw [he]
    rfl
  -- the catalogues have different ids, and the node has one owner
  have howner : ∀ c' ∈ cs, plan.BelongsTo c'.id i → c' = c := by
    intro c' hc' hbelongs
    obtain ⟨s', hs', y, hy, hyc, hyr⟩ := (h.belongsTo_iff hplan hG hn hr hi).mp hbelongs
    refine List.inj_on_of_nodup_map hids hc' hc ?_
    rw [← hyc, ← hxc]
    exact h.engineId_eq hs' hy hs hx hyr hunder
  have hbelongs : plan.BelongsTo c.id i :=
    (h.belongsTo_iff hplan hG hn hr hi).mpr ⟨s, hs, x, hx, hxc, hunder⟩
  constructor
  · rintro ⟨c', hc', hbelongs', hname⟩
    rw [howner c' hc' hbelongs'] at hname
    rw [Catalogue.resultFor, if_pos hname]
  · intro hnone
    have hname : i.name ∉ c.failing := fun hname => hnone ⟨c, hc, hbelongs, hname⟩
    rw [Catalogue.resultFor, if_neg hname]

/-- The node of a suite belongs to no engine. -/
theorem AllLaid.verdict_suite (h : AllLaid f G ss) (hplan : plan.Indexes f G)
    (hG : f.Holds none G) (hn : G.toList.Nodup) {s : Survey Diaries} (hs : s ∈ ss) {p : NodeRef}
    (hp : s.rooted.suite? = some p) {i : Identifier} (hi : f.identifier? p = some i) :
    Catalogue.Verdict cs plan i .successful := by
  obtain ⟨hpG, -⟩ := (h.laid s hs).suite p hp
  refine ⟨?_, fun _ => rfl⟩
  rintro ⟨c, -, hbelongs, -⟩
  obtain ⟨s', hs', y, hy, -, hyp⟩ :=
    (h.belongsTo_iff hplan hG hn (Grove.mem_toList_of_mem_roots hpG) hi).mp hbelongs
  exact absurd hyp (h.not_under_suite hs' hy hs hp)

end Survey

namespace Launcher

variable {ω ρ : Type} {l : Launcher Diaries ω ρ} {request : DiscoveryRequest}
  {more : List (Listener ω)} {w : World Diaries ω ρ}

/-- What cannot be planned is not executed, and nobody hears of it. -/
theorem recorded_eq_error {f : Fault} (h : ((l.planFor .execution request).on w).1 = .error f) :
    ∃ w', (l.recorded (some request) (more.map some)).on (w, []) = (.error f, w', []) := by
  rw [on_recorded_some]
  rcases hr : (l.resolve .execution request).on w with ⟨result, w'⟩
  have hfirst : ((l.resolve .execution request).first : Recording Diaries ω ρ _).on (w, [])
      = (result, w', []) := by
    rw [Steps.on_first, hr]
  refine ⟨w', ?_⟩
  cases result with
  | error e =>
      rw [planFor, Steps.on_bind_error hr] at h
      cases h
      exact Steps.on_bind_error hfirst _
  | ok rs =>
      rw [planFor, Steps.on_bind_ok hr, on_assemble] at h
      have hplan : TestPlan.ofRoots w'.forest (Resolution.allRoots rs) = .error f := h
      rw [Steps.on_bind_ok hfirst, Recording.dispatch, Steps.on_bind, Steps.on_first, on_assemble,
        hplan]

/-- A launcher whose engines are over catalogues, none of which is to fail when it is executed, and
    whose suites, if it looks for any, are in tables. -/
structure OverCatalogues (l : Launcher Diaries ω ρ) (cs : List (Nat × Catalogue))
    (tables? : Option SuiteTables) : Prop where
  engines : l.engines = cs.map fun c => c.2.engine c.1
  distinct : ((cs.map Prod.snd).map Catalogue.id).Nodup
  execute : ∀ c ∈ cs.map Prod.snd, c.failExecute? = none
  resolver : l.resolver? = tables?.map SuiteTables.resolver

section

variable {cs : List (Nat × Catalogue)} {tables? : Option SuiteTables} {plan : TestPlan}

theorem OverCatalogues.exists_catalogue (h : l.OverCatalogues cs tables?) {e : Engine Diaries}
    (he : e ∈ l.engines) : ∃ c number, c ∈ cs.map Prod.snd ∧ e = Catalogue.engine c number := by
  rw [h.engines] at he
  obtain ⟨c, hc, rfl⟩ := List.mem_map.mp he
  exact ⟨c.2, c.1, List.mem_map_of_mem hc, rfl⟩

theorem OverCatalogues.placeless (h : l.OverCatalogues cs tables?)
    (hfilters : ∀ filter ∈ request.nodeFilters, filter.Placeless)
    (hsuites : ∀ tables ∈ tables?, ∀ s ∈ request.selectors, ∀ d ∈ tables.suitesFor s,
      ∀ filter ∈ d.nodeFilters, filter.Placeless) : l.Placeless request where
  engines e he := by
    obtain ⟨c, number, -, rfl⟩ := h.exists_catalogue he
    exact c.engine_placeless number
  filters := hfilters
  resolver resolver hresolver := by
    rw [h.resolver] at hresolver
    obtain ⟨tables, htables, rfl⟩ := Option.map_eq_some_iff.mp hresolver
    exact SuiteTables.resolver_settled (hsuites tables htables)

/-- A plan that is found when a request is executed is executed to its end, and toured. -/
theorem OverCatalogues.execution (h : l.OverCatalogues cs tables?)
    (hcalm : ∀ x ∈ l.listeners ++ more, x.Calm)
    (hplan : ((l.planFor .execution request).on w).1 = .ok plan) :
    ((l.execute (some request) (more.map some)).on w).1 = .ok () ∧
      ∃ es, plan.Tour (Catalogue.Verdict (cs.map Prod.snd) plan) plan.roots es ∧
        ∀ i, i < (l.listeners ++ more).length →
          received i (l.chronicle (some request) (more.map some) w)
            = .planStarted plan :: (es.map .about ++ [.planFinished plan]) := by
  rcases hr : (l.resolve .execution request).on w with ⟨result, w'⟩
  cases result with
  | error e =>
      rw [planFor, Steps.on_bind_error hr] at hplan
      cases hplan
  | ok rs =>
      rw [planFor, Steps.on_bind_ok hr, on_assemble] at hplan
      have hplan' : TestPlan.ofRoots w'.forest (Resolution.allRoots rs) = .ok plan := hplan
      have hfresh : ∀ e ∈ l.engines, e.BuildsFresh ∧ e.RootsAtId := by
        intro e he
        obtain ⟨c, number, -, rfl⟩ := h.exists_catalogue he
        exact ⟨c.engine_buildsFresh number, c.engine_rootsAtId number⟩
      obtain ⟨ss, parts, rfl, hfilled, hlaid, hholds, hnodup, hroots, hmem⟩ :=
        resolve_laid (fun e he => (hfresh e he).1) (fun e he => (hfresh e he).2) hr
      have hindex : plan.Indexes w'.forest (.row parts) := by
        rw [hroots] at hplan'
        exact TestPlan.indexes_of_ofRoots hholds hnodup hplan'
      have hxs : ∀ s ∈ ss, ∀ x ∈ s.finds,
          Part.MayReport (Catalogue.Verdict (cs.map Prod.snd) plan) w'.forest (.row parts)
            x.engine x.root := by
        intro s hs x hx
        obtain ⟨c, number, hc, he⟩ := h.exists_catalogue (hmem s hs x hx)
        refine ⟨c, number, he, h.execute c hc, ?_⟩
        intro r hr hunder i hi
        exact hlaid.verdict hindex hholds hnodup h.distinct hs hx hc he hr hunder hi
      -- each engine tours its own tree, and together they tour the roots of the plan
      have htours : (Part.row ((ss.map (Survey.resolution w'.forest)).map
            (Part.ofResolution plan request.parameters))).Tours plan
          (Catalogue.Verdict (cs.map Prod.snd) plan) w'.forest plan.roots := by
        rw [hindex.roots]
        exact Part.tours_ofResolutions hindex hholds hnodup hfilled hholds hnodup
          (fun r hr => hr) hxs fun s hs p hp i hi =>
            hlaid.verdict_suite hindex hholds hnodup hs hp hi
      obtain ⟨es, htour, hescape, hevents⟩ := htours.ofPlan w'.engines
      obtain ⟨hend, hhears⟩ := comes_execution hcalm hr hplan'
      refine ⟨?_, es, htour, ?_⟩
      · rw [hend, Score.outcome, hescape]
      · intro i hi
        rw [hhears.received i hi, hevents]

end

/-- **Discovering and executing agree.**  What a launcher discovers in one world it announces when
    it executes the same request in another, and every listener hears the start of this plan, a
    tour of it in which nodes fail as the catalogues say, and its end.  If it cannot discover
    anything it ends with the same fault when it executes, and nothing else happens.  What
    listeners hear is what the execution tells them when they are watched. -/
theorem execution_tours_discovery (l : Launcher Diaries ω ρ) (cs : List (Nat × Catalogue))
    (tables? : Option SuiteTables) (request? : Option DiscoveryRequest)
    (more : List (Listener ω)) (v w : World Diaries ω ρ) (h : l.OverCatalogues cs tables?)
    (hfilters : ∀ request ∈ request?, ∀ filter ∈ request.nodeFilters, filter.Placeless)
    (hsuites : ∀ request ∈ request?, ∀ tables ∈ tables?, ∀ s ∈ request.selectors,
      ∀ d ∈ tables.suitesFor s, ∀ filter ∈ d.nodeFilters, filter.Placeless)
    (hcalm : ∀ x ∈ l.listeners ++ more, x.Calm) :
    l.Witnessed request? (more.map some) w (l.chronicle request? (more.map some) w) ∧
    (∀ plan, ((l.discover request?).on v).1 = .ok plan →
      ((l.execute request? (more.map some)).on w).1 = .ok () ∧
        ∃ es, plan.Tour (Catalogue.Verdict (cs.map Prod.snd) plan) plan.roots es ∧
          ∀ i, i < (l.listeners ++ more).length →
            received i (l.chronicle request? (more.map some) w)
              = .planStarted plan :: (es.map .about ++ [.planFinished plan])) ∧
      ∀ e, ((l.discover request?).on v).1 = .error e →
        ((l.execute request? (more.map some)).on w).1 = .error e ∧
          l.chronicle request? (more.map some) w = [] := by
  refine ⟨l.witnessed_chronicle _ _ w, ?_⟩
  cases request? with
  | none =>
      -- no request, nothing to discover or to execute
      refine ⟨fun plan hplan => (by cases hplan), ?_⟩
      intro e he
      cases he
      exact ⟨rfl, rfl⟩
  | some request =>
      have hagree : ((l.discover (some request)).on v).1
          = ((l.planFor .execution request).on w).1 :=
        plan_agrees (h.placeless (hfilters request rfl) (hsuites request rfl)) .discovery
          .execution v w
      rw [hagree]
      refine ⟨fun plan hplan => h.execution hcalm hplan, ?_⟩
      intro e he
      obtain ⟨w', hrec⟩ : ∃ w', (l.recorded (some request) (more.map some)).on (w, [])
          = (.error e, w', []) := recorded_eq_error he
      constructor
      · have hrun := l.on_recorded (some request) (more.map some) w
        rw [hrec] at hrun
        exact (congrArg Prod.fst hrun).symm
      · rw [chronicle, hrec]

/-- The sample is discovered, and executed in the world this leaves: seven nodes start and
    finish. -/
theorem execution_tours_sample :
    let w := ((sample.discover (some .sample)).on World.sample).2
    ∃ plan es, ((sample.discover (some .sample)).on World.sample).1 = .ok plan ∧
      sample.Witnessed (some .sample) [] w (sample.chronicle (some .sample) [] w) ∧
      ((sample.execute (some .sample) []).on w).1 = .ok () ∧
      plan.Tour (Catalogue.Verdict [Catalogue.sample] plan) plan.roots es ∧
      received 0 (sample.chronicle (some .sample) [] w)
        = .planStarted plan :: (es.map .about ++ [.planFinished plan]) ∧
      es.length = 14 := by
  intro w
  have hover : sample.OverCatalogues [(0, Catalogue.sample)] (some SuiteTables.sample) :=
    ⟨rfl, by decide, by simp [Catalogue.sample], rfl⟩
  have hfilters : ∀ request ∈ some DiscoveryRequest.sample, ∀ filter ∈ request.nodeFilters,
      filter.Placeless := by
    intro request hrequest filter hfilter rule hrule
    cases hrequest
    rw [List.mem_singleton.mp hfilter] at hrule
    cases List.mem_singleton.mp hrule
  have hnone : DiscoveryRequest.sample.selectors.all (fun s =>
      (SuiteTables.sample.suitesFor s).all fun d => d.nodeFilters.isEmpty) = true := by
    decide +kernel
  have hsuites : ∀ request ∈ some DiscoveryRequest.sample, ∀ tables ∈ some SuiteTables.sample,
      ∀ s ∈ request.selectors, ∀ d ∈ tables.suitesFor s, ∀ filter ∈ d.nodeFilters,
        filter.Placeless := by
    intro request hrequest tables htables s hs d hd filter hfilter
    cases hrequest
    cases htables
    have hempty := List.all_eq_true.mp (List.all_eq_true.mp hnone s hs) d hd
    rw [List.isEmpty_iff.mp hempty] at hfilter
    exact absurd hfilter List.not_mem_nil
  have hcalm : ∀ x ∈ sample.listeners ++ ([] : List (Listener Unit)), x.Calm := by
    intro x hx e s
    rw [List.mem_singleton.mp hx]
    exact ⟨s, rfl⟩
  have hfound : ((sample.discover (some .sample)).on World.sample).1.toOption.isSome = true := by
    decide +kernel
  have hlength : (received 0 (sample.chronicle (some .sample) [] w)).length = 16 := by
    decide +kernel
  obtain ⟨hwitnessed, hagree, -⟩ := sample.execution_tours_discovery [(0, Catalogue.sample)]
    (some SuiteTables.sample) (some .sample) [] .sample w hover hfilters hsuites hcalm
  cases hplan : ((sample.discover (some .sample)).on World.sample).1 with
  | error e =>
      rw [hplan] at hfound
      cases hfound
  | ok plan =>
      obtain ⟨hend, es, htour, hreceived⟩ := hagree plan hplan
      have htr := hreceived 0 (by decide)
      rw [List.map_nil] at htr hend
      refine ⟨plan, es, rfl, hwitnessed, hend, htour, htr, ?_⟩
      rw [htr, List.length_cons, List.length_append, List.length_map] at hlength
      simpa using hlength

end Launcher

end TestLauncher
