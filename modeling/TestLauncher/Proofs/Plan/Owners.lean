import TestLauncher.Proofs.Discovery.Requests

/-! # Whose a node of a plan is

    A plan tells by its ids which roots are those of engines' trees: a root of the plan
    whose id names an engine, or a child of a suite's node whose id names one below the
    suite's (`EngineRoot`).  What stands below such a root belongs to its engine
    (`BelongsTo`).  For a plan of resolved requests this is the engine that found the tree
    (`belongsTo_iff`), and there is one engine at most (`AllLaid.root_eq`): climbing from a
    node towards the roots passes the root of one engine's tree only. -/

namespace TestLauncher

/-- One parent has no two engines' roots under one id. -/
theorem Resolution.engineId_of_rootId {suite? : Option UniqueId} {e e' : String} {id : UniqueId}
    (h : rootId suite? e = .ok id) (h' : rootId suite? e' = .ok id) : e = e' := by
  cases suite? with
  | none => exact UniqueId.value_of_root h h' rfl
  | some u => exact UniqueId.value_of_append h h' rfl rfl

/-! ## Climbing -/

/-- Climbing from a node along parents passes the other, or starts there. -/
inductive Forest.Under (f : Forest) (a : NodeRef) : NodeRef → Prop where
  | self : f.Under a a
  | child {r c : NodeRef} (hr : f.Under a r) (hc : f.parent? c = some r) : f.Under a c

/-- Nodes passed on one way up are passed one after the other. -/
theorem Forest.Under.comparable {f : Forest} {a b r : NodeRef} (ha : f.Under a r)
    (hb : f.Under b r) : f.Under a b ∨ f.Under b a := by
  induction ha with
  | self => exact Or.inr hb
  | child hr hc ih =>
      cases hb with
      | self => exact Or.inl (.child hr hc)
      | child hr' hc' =>
          rw [hc] at hc'
          cases hc'
          exact ih hr'

theorem Forest.Under.eq_or_parent {f : Forest} {a r : NodeRef} (h : f.Under a r) :
    a = r ∨ ∃ q, f.parent? r = some q ∧ f.Under a q := by
  cases h with
  | self => exact Or.inl rfl
  | child hr hc => exact Or.inr ⟨_, hc, hr⟩

theorem Forest.under_of_holds {f : Forest} {g : Grove NodeRef} {a q r : NodeRef}
    (hg : f.Holds (some q) g) (hq : f.Under a q) (hr : r ∈ g.toList) : f.Under a r := by
  induction g generalizing q with
  | nil => exact absurd hr List.not_mem_nil
  | cons c b s ihb ihs =>
      obtain ⟨hc, hb, hs⟩ := hg
      rw [Grove.toList_cons, List.mem_cons, List.mem_append] at hr
      rcases hr with rfl | hr | hr
      · exact .child hq hc.parent
      · exact ihb hb (.child hq hc.parent) hr
      · exact ihs hs hq hr

/-! ## Owners of identifiers -/

namespace TestPlan

/-- The root of an engine's tree, by its id. -/
inductive EngineRoot (plan : TestPlan) (engineId : String) : Identifier → Prop where
  | alone {i : Identifier} {id : UniqueId} (hi : i ∈ plan.roots)
      (hid : UniqueId.forEngine engineId = .ok id) (h : i.id = id.render) :
      EngineRoot plan engineId i
  | inSuite {suite i : Identifier} {name : String} {suiteId id : UniqueId}
      (hs : suite ∈ plan.roots) (hname : UniqueId.root Segment.suiteType name = .ok suiteId)
      (hsuite : suite.id = suiteId.render) (hi : i ∈ plan.childrenOf suite.id)
      (hid : suiteId.append Segment.engineType engineId = .ok id) (h : i.id = id.render) :
      EngineRoot plan engineId i

/-- An identifier belongs to an engine: it is the root of the engine's tree or stands below it. -/
inductive BelongsTo (plan : TestPlan) (engineId : String) : Identifier → Prop where
  | root {i : Identifier} (h : plan.EngineRoot engineId i) : BelongsTo plan engineId i
  | child {i j : Identifier} (hi : BelongsTo plan engineId i)
      (hj : j ∈ plan.childrenOf i.id) : BelongsTo plan engineId j

theorem BelongsTo.mem {plan : TestPlan} {e : String} {i : Identifier} {f : Forest}
    {G : Grove NodeRef} (h : plan.BelongsTo e i) (hplan : plan.Indexes f G) :
    i ∈ f.identifiers G.toList := by
  have hchild : ∀ {i : Identifier} {t : String}, i ∈ plan.childrenOf t →
      i ∈ f.identifiers G.toList := by
    intro i t hi
    rw [hplan.lists.children] at hi
    exact (List.mem_filter.mp hi).1
  cases h with
  | child hi hj => exact hchild hj
  | root hroot =>
      cases hroot with
      | inSuite _ _ _ hi => exact hchild hi
      | alone hi =>
          rw [hplan.roots] at hi
          obtain ⟨r, hr, hri⟩ := List.mem_filterMap.mp hi
          exact List.mem_filterMap.mpr ⟨r, Grove.mem_toList_of_mem_roots hr, hri⟩

end TestPlan

/-! ## Owners of nodes -/

namespace Survey

variable {κ : Type}

/-- Where the nodes that were found for a request are among some trees, and what their ids say. -/
structure Laid (f : Forest) (G : Grove NodeRef) (s : Survey κ) : Prop where
  roots : s.rooted.suite? = none → ∀ x ∈ s.finds, x.root ∈ G.roots
  below : ∀ x ∈ s.finds, x.root ∈ G.toList ∧ f.parent? x.root = s.rooted.suite?
  named : ∀ x ∈ s.finds, ∃ n, f.node? x.root = some n ∧
    Resolution.rootId ((s.rooted.suite?.bind f.node?).map Node.id) x.engine.id = .ok n.id
  suite : ∀ p, s.rooted.suite? = some p → p ∈ G.roots ∧
    f.children p = s.finds.map Find.root ∧
    ∃ n name, f.node? p = some n ∧ n.parent = none ∧
      UniqueId.root Segment.suiteType name = .ok n.id

/-- Requests account for all roots of some trees. -/
structure AllLaid (f : Forest) (G : Grove NodeRef) (ss : List (Survey κ)) : Prop where
  laid : ∀ s ∈ ss, s.Laid f G
  covered : ∀ r ∈ G.roots, ∃ s ∈ ss, s.rooted.suite? = some r ∨
    s.rooted.suite? = none ∧ ∃ x ∈ s.finds, r = x.root

section

variable {f : Forest} {G : Grove NodeRef} {ss : List (Survey κ)} {s s' : Survey κ}
  {x y : Find κ} {plan : TestPlan} {e : String} {i : Identifier} {r : NodeRef}

/-- The node of a suite is not the root of an engine's tree. -/
theorem AllLaid.suite_ne_root (h : AllLaid f G ss) (hs : s ∈ ss) (hx : x ∈ s.finds)
    (hs' : s' ∈ ss) {p : NodeRef} (hp : s'.rooted.suite? = some p) : x.root ≠ p := by
  intro e
  obtain ⟨-, -, n, name, hn, hparent, hname⟩ := (h.laid s' hs').suite p hp
  obtain ⟨m, hm, hid⟩ := (h.laid s hs).named x hx
  -- both are roots, and their ids are of different types
  have hpx := ((h.laid s hs).below x hx).2
  rw [e, Forest.parent?, hn, Option.bind_some, hparent] at hpx
  rw [← hpx] at hid
  rw [e, hn] at hm
  cases hm
  exact UniqueId.render_engine_ne_suite hid hname rfl

theorem Laid.parent_suite {p : NodeRef} (h : s.Laid f G) (hp : s.rooted.suite? = some p) :
    f.parent? p = none := by
  obtain ⟨-, -, n, name, hn, hparent, -⟩ := h.suite p hp
  rw [Forest.parent?, hn]
  exact hparent

/-- The node of a suite does not stand below the root of an engine's tree. -/
theorem AllLaid.not_under_suite (h : AllLaid f G ss) (hs : s ∈ ss) (hx : x ∈ s.finds)
    (hs' : s' ∈ ss) {p : NodeRef} (hp : s'.rooted.suite? = some p) : ¬f.Under x.root p := by
  intro hunder
  rcases hunder.eq_or_parent with heq | ⟨q, hq, -⟩
  · exact h.suite_ne_root hs hx hs' hp heq
  · rw [(h.laid s' hs').parent_suite hp] at hq
    cases hq

/-- **One owner.**  Only one root of an engine's tree is passed on the way up from a node. -/
theorem AllLaid.root_eq (h : AllLaid f G ss) (hs : s ∈ ss) (hx : x ∈ s.finds) (hs' : s' ∈ ss)
    (hy : y ∈ s'.finds) (hxr : f.Under x.root r) (hyr : f.Under y.root r) :
    x.root = y.root := by
  -- below the root of an engine's tree there is at most the node of a suite
  have key : ∀ {s s' : Survey κ} {x y : Find κ}, s ∈ ss → x ∈ s.finds → s' ∈ ss → y ∈ s'.finds →
      f.Under x.root y.root → x.root = y.root := by
    intro s s' x y hs hx hs' hy hunder
    rcases hunder.eq_or_parent with heq | ⟨p, hp, hxp⟩
    · exact heq
    · rw [((h.laid s' hs').below y hy).2] at hp
      exact absurd hxp (h.not_under_suite hs hx hs' hp)
  rcases hxr.comparable hyr with hxy | hyx
  · exact key hs hx hs' hy hxy
  · exact (key hs' hy hs hx hyx).symm

theorem AllLaid.engineId_eq (h : AllLaid f G ss) (hs : s ∈ ss) (hx : x ∈ s.finds) (hs' : s' ∈ ss)
    (hy : y ∈ s'.finds) (hxr : f.Under x.root r) (hyr : f.Under y.root r) :
    x.engine.id = y.engine.id := by
  have hroot := h.root_eq hs hx hs' hy hxr hyr
  obtain ⟨n, hn, hid⟩ := (h.laid s hs).named x hx
  obtain ⟨m, hm, hid'⟩ := (h.laid s' hs').named y hy
  have hparent := ((h.laid s hs).below x hx).2
  rw [hroot, ((h.laid s' hs').below y hy).2] at hparent
  rw [← hparent] at hid
  rw [hroot, hm] at hn
  cases hn
  exact Resolution.engineId_of_rootId hid hid'

/-- The roots of engines' trees are what their ids say. -/
theorem Laid.engineRoot (h : s.Laid f G) (hplan : plan.Indexes f G) (hG : f.Holds none G)
    (hn : G.toList.Nodup) (hx : x ∈ s.finds) (hi : f.identifier? x.root = some i) :
    plan.EngineRoot x.engine.id i := by
  obtain ⟨n, hnode, hid⟩ := h.named x hx
  have hjid := Forest.render_of_identifier? hnode hi
  cases hs : s.rooted.suite? with
  | none =>
      rw [hs] at hid
      refine .alone ?_ hid hjid
      rw [hplan.roots]
      exact List.mem_filterMap.mpr ⟨x.root, h.roots hs x hx, hi⟩
  | some p =>
      obtain ⟨hp, hchildren, m, name, hm, -, hname⟩ := h.suite p hs
      rw [hs, Option.bind_some, hm] at hid
      obtain ⟨k, hk, hkid, -⟩ := Forest.identifier?_of_node? hm
      refine .inSuite (?_ : k ∈ plan.roots) hname hkid ?_ hid hjid
      · rw [hplan.roots]
        exact List.mem_filterMap.mpr ⟨p, hp, hk⟩
      · have ht := (Forest.id_of_identifier? hk).1
        rw [hplan.childrenOf hG hn (Grove.mem_toList_of_mem_roots hp) ht, hchildren]
        exact List.mem_filterMap.mpr ⟨x.root, List.mem_map_of_mem hx, hi⟩

/-- What an id says about the root of an engine's tree is so. -/
theorem AllLaid.exists_root (h : AllLaid f G ss) (hplan : plan.Indexes f G)
    (hG : f.Holds none G) (hn : G.toList.Nodup) (hroot : plan.EngineRoot e i) :
    ∃ s ∈ ss, ∃ x ∈ s.finds, x.engine.id = e ∧ f.identifier? x.root = some i := by
  cases hroot with
  | alone hi hid hrender =>
      rw [hplan.roots] at hi
      obtain ⟨r, hr, hri⟩ := List.mem_filterMap.mp hi
      -- no id names both an engine and a suite
      obtain ⟨s, hs, hp | ⟨hnone, x, hx, rfl⟩⟩ := h.covered r hr
      · obtain ⟨-, -, n, name, hnode, -, hname⟩ := (h.laid s hs).suite r hp
        have hjid := Forest.render_of_identifier? hnode hri
        exact absurd (hrender.symm.trans hjid) (UniqueId.render_engine_ne_suite hid hname)
      · obtain ⟨n, hnode, hid'⟩ := (h.laid s hs).named x hx
        have hjid := Forest.render_of_identifier? hnode hri
        rw [hnone] at hid'
        exact ⟨s, hs, x, hx, UniqueId.value_of_root hid' hid (hjid.symm.trans hrender), hri⟩
  | inSuite hsuite hname hrender hi hid hrender' =>
      rename_i suite name suiteId id
      rw [hplan.roots] at hsuite
      obtain ⟨r, hr, hri⟩ := List.mem_filterMap.mp hsuite
      obtain ⟨s, hs, hp | ⟨hnone, x, hx, rfl⟩⟩ := h.covered r hr
      · obtain ⟨-, hchildren, n, name', hnode, -, hname'⟩ := (h.laid s hs).suite r hp
        have hjid := Forest.render_of_identifier? hnode hri
        have ht := (Forest.id_of_identifier? hri).1
        rw [hplan.childrenOf hG hn (Grove.mem_toList_of_mem_roots hr) ht, hchildren] at hi
        obtain ⟨c, hc, hci⟩ := List.mem_filterMap.mp hi
        obtain ⟨x, hx, rfl⟩ := List.mem_map.mp hc
        obtain ⟨m, hm, hid'⟩ := (h.laid s hs).named x hx
        rw [hp, Option.bind_some, hnode] at hid'
        have hkid := Forest.render_of_identifier? hm hci
        refine ⟨s, hs, x, hx, ?_, hci⟩
        exact UniqueId.value_of_append hid' hid (hjid.symm.trans hrender)
          (hkid.symm.trans hrender')
      · obtain ⟨n, hnode, hid'⟩ := (h.laid s hs).named x hx
        have hjid := Forest.render_of_identifier? hnode hri
        rw [hnone] at hid'
        exact absurd (hjid.symm.trans hrender) (UniqueId.render_engine_ne_suite hid' hname)

/-- **Whose a node is.**  An identifier belongs to an engine when the root of a tree that this
    engine found is passed on the way up from its node. -/
theorem AllLaid.belongsTo_iff (h : AllLaid f G ss) (hplan : plan.Indexes f G)
    (hG : f.Holds none G) (hn : G.toList.Nodup) (hr : r ∈ G.toList)
    (hi : f.identifier? r = some i) :
    plan.BelongsTo e i ↔ ∃ s ∈ ss, ∃ x ∈ s.finds, x.engine.id = e ∧ f.Under x.root r := by
  have hpp : ∀ r : NodeRef, (none : Option NodeRef) ≠ some r := fun _ h => by cases h
  -- ids tell the nodes of a plan apart
  have hone : ∀ a b, a ∈ G.toList → b ∈ G.toList → ∀ j, f.identifier? a = some j →
      f.identifier? b = some j → a = b := fun a b ha hb j hja hjb =>
    Forest.eq_of_idText? hplan.lists.distinct ha hb (Forest.id_of_identifier? hja).1
      (Forest.id_of_identifier? hjb).1
  constructor
  -- along the plan's children, which are those of the nodes
  · intro hbelongs
    induction hbelongs generalizing r with
    | root hroot =>
        obtain ⟨s, hs, x, hx, he, hxi⟩ := h.exists_root hplan hG hn hroot
        refine ⟨s, hs, x, hx, he, ?_⟩
        rw [hone r x.root hr ((h.laid s hs).below x hx).1 _ hi hxi]
        exact .self
    | child hbelongs hj ih =>
        obtain ⟨q, hq, hqk⟩ := List.mem_filterMap.mp (hbelongs.mem hplan)
        have ht := (Forest.id_of_identifier? hqk).1
        rw [hplan.childrenOf hG hn hq ht] at hj
        obtain ⟨c, hc, hcj⟩ := List.mem_filterMap.mp hj
        obtain ⟨hcG, hcq⟩ := Forest.parent_of_mem_children hG hn (hpp q) hq hc
        obtain ⟨s, hs, x, hx, he, hxq⟩ := ih hq hqk
        refine ⟨s, hs, x, hx, he, ?_⟩
        rw [hone r c hr hcG _ hi hcj]
        exact .child hxq hcq
  -- along parents, down from the root of the engine's tree
  · rintro ⟨s, hs, x, hx, rfl, hunder⟩
    induction hunder generalizing i with
    | self => exact .root ((h.laid s hs).engineRoot hplan hG hn hx hi)
    | child hxr hc ih =>
        rename_i q c
        have hq : q ∈ G.toList :=
          (Forest.parent_mem_of_holds hG hr hc).resolve_right (hpp q)
        obtain ⟨n, hnode⟩ := Forest.exists_node_of_holds hG hq
        obtain ⟨k, hk, -⟩ := Forest.identifier?_of_node? hnode
        refine .child (ih hq hk) ?_
        rw [hplan.childrenOf hG hn hq (Forest.id_of_identifier? hk).1,
          ← Forest.filter_parent hG hn (hpp q) hq]
        exact List.mem_filterMap.mpr ⟨c, List.mem_filter.mpr ⟨hr, decide_eq_true hc⟩, hi⟩

end

end Survey

/-! ## The requests of a call -/

/-- An engine whose roots have the ids it is given. -/
def Engine.RootsAtId {κ : Type} (e : Engine κ) : Prop :=
  ∀ request id s r t, (e.discover request id).on s = (.ok (some r), t) →
    ∃ n, t.1.bare? r = some n ∧ n.id = id

namespace Survey

variable {κ : Type}

/-- Trees are those below the roots that were found for a request, below the node of the suite if
    there is one. -/
def Filled (f : Forest) (s : Survey κ) (part : Grove NodeRef) : Prop :=
  ∃ g, part = Resolution.topped s.rooted.suite? g ∧ g.roots = s.finds.map Find.root ∧
    f.Holds s.rooted.suite? g

/-- What is left for a request is laid out among the trees it is left among. -/
theorem Left.laid {f : Forest} {G part : Grove NodeRef} {s : Survey κ} (h : s.Left f part)
    (hengines : ∀ x ∈ s.finds, x.engine.RootsAtId) (hroots : ∀ r ∈ part.roots, r ∈ G.roots)
    (hsub : ∀ r ∈ part.toList, r ∈ G.toList) (hf : f.Holds none part)
    (hsuite : ∀ p, s.rooted.suite? = some p →
      ∃ n name, f.bare? p = some n ∧ UniqueId.root Segment.suiteType name = .ok n.id) :
    s.Laid f G ∧ s.Filled f part := by
  obtain ⟨f₀, f₁, f₂, g, hg, rfl, hframe⟩ := h
  have hholds : f.Holds s.rooted.suite? g := Resolution.holds_of_topped hf
  have hfind : ∀ x ∈ s.finds, x.root ∈ g.roots := by
    intro x hx
    rw [hg.roots]
    exact List.mem_map_of_mem hx
  have hroot : ∀ x ∈ s.finds, x.root ∈ (Resolution.topped s.rooted.suite? g).toList :=
    fun x hx => Resolution.mem_topped.mpr (Or.inr (Grove.mem_toList_of_mem_roots (hfind x hx)))
  -- the suite's node has the id it had when the engines were asked
  have hid : (s.rooted.suite?.bind f.node?).map Node.id
      = (s.rooted.suite?.bind f₀.bare?).map Node.id := by
    cases hs : s.rooted.suite? with
    | none => rfl
    | some p =>
        rw [hs] at hg hframe
        have hbare : f.bare? p = f₀.bare? p := by
          rw [Forest.bare?_congr (hframe p (Resolution.mem_topped.mpr (Or.inl rfl))), hg.suite.2.1]
        show (f.node? p).map Node.id = (f₀.bare? p).map Node.id
        rw [← hbare, Forest.bare?, Option.map_map]
        rfl
  refine ⟨⟨?_, ?_, ?_, ?_⟩, g, rfl, hg.roots, hholds⟩
  · intro hs x hx
    refine hroots x.root ?_
    rw [hs]
    exact hfind x hx
  · intro x hx
    refine ⟨hsub x.root (hroot x hx), ?_⟩
    exact Forest.parent_of_mem_roots hholds (hfind x hx)
  · intro x hx
    obtain ⟨request, id, t, u, hid', hdiscover, hu⟩ := hg.planted.asked x hx
    obtain ⟨n, hn, hnid⟩ := hengines x hx request id t x.root u hdiscover
    -- the root is what the engine returned, and nothing but its links has changed since
    have hbare : f.bare? x.root = some n := by
      rw [Forest.bare?_congr (hframe x.root (hroot x hx)), hg.bare,
        hg.planted.bare x hx x.root (Find.root_mem x), ← hu, hn]
    rw [Forest.bare?] at hbare
    obtain ⟨m, hm, hmn⟩ := Option.map_eq_some_iff.mp hbare
    refine ⟨m, hm, ?_⟩
    rw [hid, hid', ← hnid, ← hmn]
    rfl
  · intro p hs
    obtain ⟨n, name, hn, hname⟩ := hsuite p hs
    rw [hs] at hf hroots
    obtain ⟨hp, -⟩ := Forest.holds_tree.mp hf
    obtain ⟨m, hm, hparent, -⟩ := hp.exists_node
    rw [Forest.bare?, hm] at hn
    cases hn
    refine ⟨hroots p (List.mem_singleton.mpr rfl), ?_, m, name, hm, hparent, hname⟩
    rw [hp.children, hg.roots]

/-- What is left for all requests. -/
theorem laid_row {f : Forest} {G : Grove NodeRef} {ss : List (Survey κ)}
    {parts : List (Grove NodeRef)} (h : List.Forall₂ (Left f) ss parts)
    (hengines : ∀ s ∈ ss, ∀ x ∈ s.finds, x.engine.RootsAtId)
    (hroots : ∀ part ∈ parts, ∀ r ∈ part.roots, r ∈ G.roots)
    (hsub : ∀ part ∈ parts, ∀ r ∈ part.toList, r ∈ G.toList) (hf : f.Holds none (.row parts))
    (hsuite : ∀ s ∈ ss, ∀ p, s.rooted.suite? = some p →
      ∃ n name, f.bare? p = some n ∧ UniqueId.root Segment.suiteType name = .ok n.id) :
    (∀ s ∈ ss, s.Laid f G) ∧ List.Forall₂ (Filled f) ss parts ∧
      ∀ r ∈ (Grove.row parts).roots, ∃ s ∈ ss, s.rooted.suite? = some r ∨
        s.rooted.suite? = none ∧ ∃ x ∈ s.finds, r = x.root := by
  induction h with
  | nil =>
      exact ⟨fun _ hs => absurd hs List.not_mem_nil, .nil, fun _ hr => absurd hr List.not_mem_nil⟩
  | cons hs _ ih =>
      rename_i s part ss parts _
      rw [Grove.row, Forest.holds_append] at hf
      obtain ⟨hlaid, hfilled⟩ := hs.laid (hengines s (by simp)) (hroots part (by simp))
        (hsub part (by simp)) hf.1 (hsuite s (by simp))
      obtain ⟨hlaids, hfilleds, hcovered⟩ := ih (fun s hs => hengines s (by simp [hs]))
        (fun part hp => hroots part (by simp [hp])) (fun part hp => hsub part (by simp [hp])) hf.2
        fun s hs => hsuite s (by simp [hs])
      refine ⟨List.forall_mem_cons.mpr ⟨hlaid, hlaids⟩, .cons hfilled hfilleds, ?_⟩
      intro r hr
      rw [Grove.row, Grove.roots_append] at hr
      rcases List.mem_append.mp hr with hr | hr
      · refine ⟨s, by simp, ?_⟩
        obtain ⟨g, rfl, hg, -⟩ := hfilled
        cases hs : s.rooted.suite? with
        | none =>
            rw [hs] at hr
            have hr' : r ∈ g.roots := hr
            rw [hg] at hr'
            obtain ⟨x, hx, rfl⟩ := List.mem_map.mp hr'
            exact Or.inr ⟨rfl, x, hx, rfl⟩
        | some p =>
            rw [hs] at hr
            exact Or.inl (congrArg some (List.mem_singleton.mp hr).symm)
      · obtain ⟨s', hs', hr'⟩ := hcovered r hr
        exact ⟨s', by simp [hs'], hr'⟩

end Survey

/-- The node of a suite has an id that says so, when the suite's request has been resolved as well. -/
theorem Launcher.suite_of_surveys {κ ω ρ : Type} {l : Launcher κ ω ρ} {phase : Phase}
    {request : DiscoveryRequest} {done : Expansion.Expanded} {ds : List SuiteDeclaration}
    {w₁ : World κ ω ρ} {f : Forest} (hplanned : Expansion.Planned request w₁.forest done ds)
    (hrooted : (l.surveys phase (⟨request, none⟩ :: done.rooted) w₁).map Survey.rooted
      = ⟨request, none⟩ :: done.rooted)
    (hbare : ∀ p ∈ done.rooted.filterMap RootedRequest.suite?, f.bare? p = w₁.forest.bare? p)
    {s : Survey κ} (hs : s ∈ l.surveys phase (⟨request, none⟩ :: done.rooted) w₁) {p : NodeRef}
    (hp : s.rooted.suite? = some p) :
    ∃ n name, f.bare? p = some n ∧ UniqueId.root Segment.suiteType name = .ok n.id := by
  rcases Survey.rooted_eq_or_mem hrooted hs with he | hq
  · rw [he] at hp
    cases hp
  · obtain ⟨-, n, name, hn, hname⟩ := hplanned.suite hq hp
    refine ⟨n, name, ?_, hname⟩
    rw [hbare p (List.mem_filterMap.mpr ⟨_, hq, hp⟩), hn]

/-- **The trees of a call**, and whose they are: the resolutions of a request and of those of its
    suites have their trees side by side, and the ids of their roots tell their engines. -/
theorem Launcher.resolve_laid {κ ω ρ : Type} {l : Launcher κ ω ρ} {phase : Phase}
    {request : DiscoveryRequest} {w w' : World κ ω ρ} {rs : List (Resolution κ)}
    (hfresh : ∀ e ∈ l.engines, e.BuildsFresh) (hid : ∀ e ∈ l.engines, e.RootsAtId)
    (h : (l.resolve phase request).on w = (.ok rs, w')) :
    ∃ ss parts, rs = ss.map (Survey.resolution w'.forest) ∧
      List.Forall₂ (Survey.Filled w'.forest) ss parts ∧
      Survey.AllLaid w'.forest (.row parts) ss ∧ w'.forest.Holds none (.row parts) ∧
      (Grove.row parts).toList.Nodup ∧ Resolution.allRoots rs = (Grove.row parts).roots ∧
      ∀ s ∈ ss, ∀ x ∈ s.finds, x.engine ∈ l.engines := by
  obtain ⟨done, w₁, -, hplanned, hrs, hrooted, hbare, parts, hparts, hholds, hnodup, hroots⟩ :=
    resolve_eq_ok hfresh h
  have hmem : ∀ s ∈ l.surveys phase (⟨request, none⟩ :: done.rooted) w₁, ∀ x ∈ s.finds,
      x.engine ∈ l.engines := fun s hs x hx => Resolution.engine_mem_of_surveys hs hx
  obtain ⟨hlaid, hfilled, hcovered⟩ := Survey.laid_row (G := .row parts) hparts
    (fun s hs x hx => hid _ (hmem s hs x hx))
    (fun part hp r hr => by
      rw [Grove.roots_row]
      exact List.mem_flatMap.mpr ⟨part, hp, hr⟩)
    (fun part hp r hr => by
      rw [Grove.toList_row]
      exact List.mem_flatMap.mpr ⟨part, hp, hr⟩) hholds
    (fun s hs p hp => suite_of_surveys hplanned hrooted hbare hs hp)
  exact ⟨_, parts, hrs, hfilled, ⟨hlaid, hcovered⟩, hholds, hnodup, hroots, hmem⟩

end TestLauncher
