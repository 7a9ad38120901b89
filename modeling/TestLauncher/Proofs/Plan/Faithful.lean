import Mathlib.Data.List.Induction
import TestLauncher.Proofs.Forest.Rooted
import TestLauncher.Proofs.UniqueId

/-! # A plan tells the trees it was made from

    A plan is made in one walk and keeps texts only: who the children of a node are, and
    what is below it, is read off two maps afterwards.  Nothing is lost on the way
    (`TestPlan.ofRoots_faithful`).  Making it fails exactly when the walk meets an id text
    for the second time; else what the plan tells about an id is what the forest tells
    about the node with that id (`TestPlan.Faithful`).

    That the maps can be gone down without end is excluded by the trees behind them: the
    ids are different texts, so a step down in the plan is a step down in the forest. -/

namespace TestLauncher

/-- Where a list repeats itself for the first time. -/
theorem exists_first_repeat {α : Type} {l : List α} (h : ¬ l.Nodup) :
    ∃ before a after, l = before ++ a :: after ∧ before.Nodup ∧ a ∈ before := by
  induction l using List.reverseRecOn with
  | nil => exact absurd List.nodup_nil h
  | append_singleton l a ih =>
      by_cases hl : l.Nodup
      · refine ⟨l, a, [], rfl, hl, ?_⟩
        by_contra ha
        refine h (List.nodup_append'.mpr ⟨hl, List.nodup_singleton a, ?_⟩)
        exact List.disjoint_singleton.mpr ha
      · obtain ⟨before, b, after, rfl, hbefore, hb⟩ := ih hl
        exact ⟨before, b, after ++ [a], by simp, hbefore, hb⟩

namespace Forest

variable {f : Forest} {rs : List NodeRef}

/-- The nodes of the trees below some nodes, in pre-order. -/
def preorder (f : Forest) (rs : List NodeRef) : List NodeRef := rs.flatMap f.subtree

theorem exists_of_mem_identifiers {i : Identifier} {rs : List NodeRef}
    (h : i ∈ f.identifiers rs) : ∃ r ∈ rs, f.identifier? r = some i :=
  List.mem_filterMap.mp h

/-- Nodes that exist have identifiers, one each. -/
theorem map_idText? {rs : List NodeRef} (h : ∀ r ∈ rs, ∃ n, f.node? r = some n) :
    rs.map f.idText? = ((f.identifiers rs).map Identifier.id).map some := by
  induction rs with
  | nil => rfl
  | cons r rs ih =>
      obtain ⟨n, hn⟩ := h r (by simp)
      obtain ⟨i, hi, -⟩ := identifier?_of_node? hn
      rw [identifiers_cons hi, List.map_cons, (id_of_identifier? hi).1,
        ih fun x hx => h x (by simp [hx])]
      rfl

end Forest

namespace TestPlan

variable {f : Forest} {rs : List NodeRef} {plan : TestPlan}

/-- What a plan tells about each node of the trees below some roots, and about no other id. -/
structure Faithful (plan : TestPlan) (f : Forest) (rs : List NodeRef) : Prop where
  /-- Its roots are the roots, in order. -/
  roots : plan.roots.map some = rs.map f.identifier?
  /-- It holds as many identifiers as there are nodes. -/
  size : plan.size = (f.preorder rs).length
  /-- Under the id of a node it has the identifier of that node. -/
  get : ∀ r ∈ f.preorder rs, ∃ i, f.identifier? r = some i ∧ f.idText? r = some i.id ∧
    plan.get i.id = .ok i
  /-- Every other text is refused. -/
  unknown : ∀ text, some text ∉ (f.preorder rs).map f.idText? →
    ∃ fault, plan.get text = .error fault ∧ fault.kind = .precondition
  /-- Below it come the identifiers of the children, in order. -/
  children : ∀ r ∈ f.preorder rs, ∀ i, f.identifier? r = some i →
    (plan.childrenOf i.id).map some = (f.children r).map f.identifier?
  /-- Going down from it ends, with the identifiers of the nodes below in pre-order. -/
  descendants : ∀ r ∈ f.preorder rs, ∀ i, f.identifier? r = some i →
    ∃ ds is, f.descendants r = .ok ds ∧ plan.descendantsOf i = .ok is ∧
      is.map some = ds.map f.identifier?
  /-- A root has no parent. -/
  root : ∀ r ∈ rs, ∀ i, f.identifier? r = some i → plan.parentOf i = none
  /-- Every other node has the parent it has in the forest. -/
  parent : ∀ r ∈ f.preorder rs, r ∉ rs → ∀ i, f.identifier? r = some i →
    ∃ p j, f.parent? r = some p ∧ f.identifier? p = some j ∧ plan.parentOf i = some j

/-! ## Where the walk stops -/

/-- Identifiers are pushed up to the first one whose id is taken. -/
theorem Lists.pushAll_taken {is before after : List Identifier} {i : Identifier}
    (h : plan.Lists is) (hn : ((is ++ before).map Identifier.id).Nodup)
    (hi : i.id ∈ (is ++ before).map Identifier.id) :
    TestPlan.pushAll (before ++ i :: after) plan = .error (.refused (.repeatedPlanId i.id)) := by
  induction before generalizing plan is with
  | nil =>
      rw [List.append_nil] at hi
      have htaken : plan.identifiers.contains i.id = true := by
        rw [OrderedMap.contains_iff, h.keys]
        exact hi
      rw [List.nil_append, TestPlan.pushAll, TestPlan.push, if_pos htaken]
      rfl
  | cons j before ih =>
      obtain ⟨plan₁, hpush⟩ : ∃ plan₁, plan.push j = .ok plan₁ := by
        rw [List.append_cons, List.map_append] at hn
        obtain ⟨plan₂, hall⟩ := h.pushAll_ok hn.of_append_left
        obtain ⟨plan₁, hpush, -⟩ := bind_eq_ok hall
        exact ⟨plan₁, hpush⟩
      rw [List.append_cons] at hn hi
      rw [List.cons_append, TestPlan.pushAll, hpush]
      exact ih (h.push hpush) hn hi

section

variable (h : f.Rooted rs)

include h

theorem exists_node_of_mem_preorder {r : NodeRef} (hr : r ∈ f.preorder rs) :
    ∃ n, f.node? r = some n :=
  h.hung.exists_node (h.hung.reached_of_mem_subtree hr)

theorem ofRoots_eq_of_rooted :
    ofRoots f rs = (pushAll (f.identifiers (f.preorder rs)) {}).map fun plan =>
      { plan with roots := (rs.filterMap f.idText?).filterMap plan.identifiers.get? } := by
  have heq := ofRoots_eq_of_height h.holds_grove (f.height_grove rs)
  have hroots : (f.grove rs).roots = rs := Forest.roots_rowFrom f.size rs
  rw [h.toList_grove, hroots] at heq
  exact heq

/-- A plan of roots whose ids are met once is the index of the trees below them. -/
theorem indexes_of_rooted (hids : ((f.identifiers (f.preorder rs)).map Identifier.id).Nodup)
    (hplan : ofRoots f rs = .ok plan) :
    plan.Indexes f (f.grove rs) ∧ (f.grove rs).toList.Nodup := by
  have hroots : (f.grove rs).roots = rs := Forest.roots_rowFrom f.size rs
  have hnodup : (f.grove rs).toList.Nodup := by
    -- one node twice would be one id twice
    have htexts : ((f.preorder rs).map f.idText?).Nodup := by
      rw [Forest.map_idText? fun r hr => exists_node_of_mem_preorder h hr]
      exact hids.map fun _ _ => Option.some.inj
    rw [h.toList_grove]
    exact List.Nodup.of_map _ htexts
  refine ⟨indexes_of_ofRoots h.holds_grove hnodup ?_, hnodup⟩
  rw [hroots]
  exact hplan

end

/-! ## What the index tells -/

section

variable {g : Grove NodeRef} (hidx : plan.Indexes f g) (hg : f.Holds none g)

include hidx

theorem Indexes.get_unknown {text : String} (htext : some text ∉ g.toList.map f.idText?) :
    ∃ fault, plan.get text = .error fault ∧ fault.kind = .precondition := by
  have hnone : plan.identifiers.get? text = none := by
    refine Option.eq_none_iff_forall_ne_some.mpr ?_
    intro i hi
    obtain ⟨hmem, rfl⟩ := (hidx.lists.get?_iff text i).mp hi
    obtain ⟨r, hr, hir⟩ := Forest.exists_of_mem_identifiers hmem
    exact htext (List.mem_map.mpr ⟨r, hr, (Forest.id_of_identifier? hir).1⟩)
  cases hblank : Text.isBlank text with
  | true => exact ⟨.refused .blankPlanId, by rw [TestPlan.get, hblank]; rfl, rfl⟩
  | false => exact ⟨.refused (.unknownPlanId text), by rw [TestPlan.get, hblank, hnone]; rfl, rfl⟩

/-- An identifier is among the roots of the plan when its node is among those of the trees. -/
theorem Indexes.mem_roots_iff {r : NodeRef} {i : Identifier} (hr : r ∈ g.toList)
    (hi : f.identifier? r = some i) : i ∈ plan.roots ↔ r ∈ g.roots := by
  rw [hidx.roots]
  constructor
  · intro hmem
    obtain ⟨s, hs, his⟩ := Forest.exists_of_mem_identifiers hmem
    have heq := Forest.eq_of_idText? hidx.lists.distinct hr (Grove.mem_toList_of_mem_roots hs)
      (Forest.id_of_identifier? hi).1 (Forest.id_of_identifier? his).1
    exact heq ▸ hs
  · intro hmem
    exact List.mem_filterMap.mpr ⟨r, hmem, hi⟩

theorem Indexes.parentOf_root {r : NodeRef} {i : Identifier} (hr : r ∈ g.roots)
    (hi : f.identifier? r = some i) : plan.parentOf i = none := by
  have hmem := (hidx.mem_roots_iff (Grove.mem_toList_of_mem_roots hr) hi).mpr hr
  rw [TestPlan.parentOf, if_pos hmem]

include hg

theorem Indexes.get {r : NodeRef} (hr : r ∈ g.toList) :
    ∃ i, f.identifier? r = some i ∧ f.idText? r = some i.id ∧ plan.get i.id = .ok i := by
  obtain ⟨n, hnode⟩ := Forest.exists_node_of_holds hg hr
  obtain ⟨i, hi, hid, -⟩ := Forest.identifier?_of_node? hnode
  refine ⟨i, hi, (Forest.id_of_identifier? hi).1, ?_⟩
  have hmem : i ∈ f.identifiers g.toList := List.mem_filterMap.mpr ⟨r, hr, hi⟩
  have hget := (hidx.lists.get?_iff i.id i).mpr ⟨hmem, rfl⟩
  have hblank : Text.isBlank i.id = false := by
    rw [hid]
    exact UniqueId.isBlank_render n.id
  rw [TestPlan.get, hblank, hget]
  rfl

theorem Indexes.parentOf {r p : NodeRef} {i : Identifier} (hr : r ∈ g.toList)
    (hroot : r ∉ g.roots) (hi : f.identifier? r = some i) (hp : f.parent? r = some p) :
    ∃ j, f.identifier? p = some j ∧ plan.parentOf i = some j := by
  have hpg : p ∈ g.toList := (Forest.parent_mem_of_holds hg hr hp).resolve_right fun e => by
    cases e
  obtain ⟨j, hj, hid⟩ := Forest.exists_identifier hg hpg
  have hnot : i ∉ plan.roots := fun hmem => hroot ((hidx.mem_roots_iff hr hi).mp hmem)
  have hpar : i.parentId = some j.id := by
    rw [(Forest.id_of_identifier? hi).2, hp]
    exact hid
  have hmem : j ∈ f.identifiers g.toList := List.mem_filterMap.mpr ⟨p, hpg, hj⟩
  refine ⟨j, hj, ?_⟩
  rw [TestPlan.parentOf, if_neg hnot, hpar]
  exact (hidx.lists.get?_iff j.id j).mpr ⟨hmem, rfl⟩

end

/-! ## The plan as a whole -/

/-- Nodes that exist have the identifiers they are listed with. -/
theorem map_some_identifiers {rs : List NodeRef} (h : ∀ r ∈ rs, ∃ n, f.node? r = some n) :
    (f.identifiers rs).map some = rs.map f.identifier? := by
  induction rs with
  | nil => rfl
  | cons r rs ih =>
      obtain ⟨n, hn⟩ := h r (by simp)
      obtain ⟨i, hi, -⟩ := Forest.identifier?_of_node? hn
      rw [Forest.identifiers_cons hi, List.map_cons, List.map_cons, hi,
        ih fun x hx => h x (by simp [hx])]

section

variable (h : f.Rooted rs)

include h

theorem faithful_of_rooted (hids : ((f.identifiers (f.preorder rs)).map Identifier.id).Nodup)
    (hplan : ofRoots f rs = .ok plan) : plan.Faithful f rs := by
  obtain ⟨hidx, hn⟩ := indexes_of_rooted h hids hplan
  have hg := h.holds_grove
  have hlist : (f.grove rs).toList = f.preorder rs := h.toList_grove
  have hroots : (f.grove rs).roots = rs := Forest.roots_rowFrom f.size rs
  have hnode : ∀ r ∈ f.preorder rs, ∃ n, f.node? r = some n := fun r hr =>
    exists_node_of_mem_preorder h hr
  have hmem : ∀ r ∈ f.preorder rs, r ∈ (f.grove rs).toList := fun r hr => hlist ▸ hr
  have hpp : ∀ r : NodeRef, (none : Option NodeRef) ≠ some r := fun r e => by cases e
  refine ⟨?_, ?_, ?_, ?_, ?_, ?_, ?_, ?_⟩
  · rw [hidx.roots, hroots]
    refine map_some_identifiers fun r hr => h.hung.exists_node (.root hr)
  · rw [TestPlan.size, OrderedMap.size, hidx.lists.identifiers, List.length_map,
      Forest.length_identifiers hg, hlist]
  · intro r hr
    exact hidx.get hg (hmem r hr)
  · intro text htext
    refine hidx.get_unknown ?_
    rwa [hlist]
  · intro r hr i hi
    rw [hidx.childrenOf hg hn (hmem r hr) (Forest.id_of_identifier? hi).1]
    refine map_some_identifiers fun c hc => ?_
    have hcg := (Forest.parent_of_mem_children hg hn (hpp r) (hmem r hr) hc).1
    exact Forest.exists_node_of_holds hg hcg
  · intro r hr i hi
    have hunder := Forest.subtree_eq hg hn (hmem r hr)
    have hdown := h.hung.descendants (h.hung.reached_of_mem_subtree hr)
    rw [h.hung.subtree (h.hung.reached_of_mem_subtree hr)] at hunder
    refine ⟨_, _, hdown, hidx.descendantsOf hg hn hi (hmem r hr) hunder.symm, ?_⟩
    refine map_some_identifiers fun d hd => ?_
    have hdr : d ∈ (f.grove rs).under r := hunder ▸ List.mem_cons_of_mem r hd
    exact Forest.exists_node_of_holds hg (Grove.under_subset hdr)
  · intro r hr i hi
    refine hidx.parentOf_root ?_ hi
    rwa [hroots]
  · intro r hr hroot i hi
    obtain ⟨n, hn'⟩ := hnode r hr
    obtain ⟨p, hp⟩ : ∃ p, f.parent? r = some p := by
      cases h.hung.reached_of_mem_subtree hr with
      | root hmem' => exact absurd hmem' hroot
      | child hq hc => exact ⟨_, h.hung.parent_of_mem_children hq hc⟩
    obtain ⟨j, hj, hparent⟩ := hidx.parentOf hg (hmem r hr) (by rwa [hroots]) hi hp
    exact ⟨p, j, hp, hj, hparent⟩

/-- **A plan is a faithful index.**  Making one of nodes without parents fails exactly when two
    nodes of the trees below them have one id text, and says which text is the first to come
    again in pre-order; else the plan tells about each node what the forest tells. -/
theorem ofRoots_faithful :
    ∃ ids : List String, (f.preorder rs).map f.idText? = ids.map some ∧
      ((∃ fault, ofRoots f rs = .error fault) ↔ ¬ ids.Nodup) ∧
      (∀ fault, ofRoots f rs = .error fault → fault.kind = .precondition ∧
        ∃ before id after, ids = before ++ id :: after ∧ before.Nodup ∧ id ∈ before ∧
          fault.message = "duplicate unique ID in test plan: " ++ id) ∧
      ∀ plan, ofRoots f rs = .ok plan → plan.Faithful f rs := by
  have hok : ((f.identifiers (f.preorder rs)).map Identifier.id).Nodup →
      ∃ plan, ofRoots f rs = .ok plan := by
    intro hids
    obtain ⟨plan, hpush⟩ : ∃ plan, pushAll (f.identifiers (f.preorder rs)) {} = .ok plan :=
      lists_empty.pushAll_ok hids
    exact ⟨_, by rw [ofRoots_eq_of_rooted h, hpush]; rfl⟩
  have herror : ¬ ((f.identifiers (f.preorder rs)).map Identifier.id).Nodup →
      ∃ before id after,
        (f.identifiers (f.preorder rs)).map Identifier.id = before ++ id :: after ∧
        before.Nodup ∧ id ∈ before ∧
        ofRoots f rs = .error (.refused (.repeatedPlanId id)) := by
    intro hids
    obtain ⟨before, id, after, hsplit, hbefore, hid⟩ := exists_first_repeat hids
    obtain ⟨is, js, hlist, rfl, hjs⟩ := List.map_eq_append_iff.mp hsplit
    obtain ⟨i, js, rfl, rfl, rfl⟩ := List.map_eq_cons_iff.mp hjs
    refine ⟨_, _, _, hsplit, hbefore, hid, ?_⟩
    rw [ofRoots_eq_of_rooted h, hlist, lists_empty.pushAll_taken hbefore hid]
    rfl
  refine ⟨(f.identifiers (f.preorder rs)).map Identifier.id, ?_, ⟨?_, ?_⟩, ?_, ?_⟩
  · exact Forest.map_idText? fun r hr => exists_node_of_mem_preorder h hr
  · rintro ⟨fault, hfault⟩ hids
    obtain ⟨plan, hplan⟩ := hok hids
    rw [hfault] at hplan
    cases hplan
  · intro hids
    obtain ⟨-, id, -, -, -, -, hfault⟩ := herror hids
    exact ⟨_, hfault⟩
  · intro fault hfault
    by_cases hids : ((f.identifiers (f.preorder rs)).map Identifier.id).Nodup
    · obtain ⟨plan, hplan⟩ := hok hids
      rw [hfault] at hplan
      cases hplan
    · obtain ⟨before, id, after, hsplit, hbefore, hid, hfault'⟩ := herror hids
      rw [hfault] at hfault'
      cases hfault'
      exact ⟨rfl, before, id, after, hsplit, hbefore, hid, rfl⟩
  · intro plan hplan
    refine faithful_of_rooted h ?_ hplan
    by_contra hids
    obtain ⟨-, id, -, -, -, -, hfault⟩ := herror hids
    rw [hfault] at hplan
    cases hplan

end

/-- A root with a node below it, and a second root with the id of the first. -/
def twins : Forest := Forest.Edit.outcome [
  .build (UniqueId.forEngine "e").toOption "first" .container ∅ none,
  .build ((UniqueId.forEngine "e").bind fun id => id.append "test" "t").toOption "t" .test ∅ none,
  .addChild ⟨0⟩ (some ⟨1⟩),
  .build (UniqueId.forEngine "e").toOption "second" .container ∅ none]

/-- The first root alone makes a plan, and the two together do not. -/
theorem ofRoots_faithful_twins :
    (twins.Rooted [⟨0⟩] ∧ ∃ plan, ofRoots twins [⟨0⟩] = .ok plan ∧ plan.size = 2 ∧
      plan.Faithful twins [⟨0⟩]) ∧
    (twins.Rooted [⟨0⟩, ⟨2⟩] ∧ ∃ fault, ofRoots twins [⟨0⟩, ⟨2⟩] = .error fault ∧
      fault.message = "duplicate unique ID in test plan: [engine:e]") := by
  have hrooted : ∀ rs : List NodeRef,
      (∀ r ∈ rs, (twins.node? r).any (fun n => n.parent = none) = true) → twins.Rooted rs := by
    intro rs hrs
    refine (Forest.linked_outcome _).rooted fun r hr => ?_
    have hr := hrs r hr
    cases hn : twins.node? r with
    | none =>
        rw [hn] at hr
        cases hr
    | some n =>
        rw [hn] at hr
        exact ⟨n, hn, of_decide_eq_true hr⟩
  have hone : twins.Rooted [⟨0⟩] := hrooted _ (by decide +kernel)
  have htwo : twins.Rooted [⟨0⟩, ⟨2⟩] := hrooted _ (by decide +kernel)
  obtain ⟨-, -, -, -, hfaithful⟩ := ofRoots_faithful hone
  obtain ⟨plan, hplan, hsize⟩ : ∃ plan, ofRoots twins [⟨0⟩] = .ok plan ∧ plan.size = 2 := by
    have hok : ((ofRoots twins [⟨0⟩]).toOption.map TestPlan.size) = some 2 := by decide +kernel
    cases hr : ofRoots twins [⟨0⟩] with
    | error e => rw [hr] at hok; cases hok
    | ok plan =>
        rw [hr] at hok
        exact ⟨plan, rfl, Option.some.inj hok⟩
  have herror : ofRoots twins [⟨0⟩, ⟨2⟩] = .error (.refused (.repeatedPlanId "[engine:e]")) := by
    decide +kernel
  exact ⟨⟨hone, plan, hplan, hsize, hfaithful plan hplan⟩, htwo, _, herror, by decide⟩

end TestPlan

end TestLauncher
