import TestLauncher.Proofs.Forest.Standing
import TestLauncher.TestPlan

/-! # The index of trees that stand

    A plan visits the trees below its roots in pre-order and pushes the identifier of each
    node.  For trees that stand this comes down to the list of their nodes (`ofRoots_eq`):
    there is a plan when all ids are different texts, and then it lists the identifiers in
    that order and keeps, under each id, those that have it as the id of their parent
    (`Indexes`). -/

namespace TestLauncher

namespace Forest

variable {f : Forest}

/-- The identifiers of nodes, in order. -/
def identifiers (f : Forest) (rs : List NodeRef) : List Identifier := rs.filterMap f.identifier?

/-- The text of a node's id. -/
def idText? (f : Forest) (r : NodeRef) : Option String := (f.node? r).map fun n => n.id.render

/-- Identifiers are listed in the order of the nodes. -/
theorem identifiers_append (rs ss : List NodeRef) :
    f.identifiers (rs ++ ss) = f.identifiers rs ++ f.identifiers ss :=
  List.filterMap_append

/-- A node with an identifier is listed first. -/
theorem identifiers_cons {r : NodeRef} {i : Identifier} (h : f.identifier? r = some i)
    (rs : List NodeRef) : f.identifiers (r :: rs) = i :: f.identifiers rs := by
  rw [identifiers, List.filterMap_cons, h]
  rfl

/-- A node that is there has an identifier, made of its id, its parent's id, its name and its
    kind. -/
theorem identifier?_of_node? {r : NodeRef} {n : Node} (h : f.node? r = some n) :
    ∃ i, f.identifier? r = some i ∧ i.id = n.id.render ∧
      i.parentId = n.parent.bind f.idText? ∧ i.name = n.name ∧ i.kind = n.kind := by
  refine ⟨_, by rw [identifier?, h]; rfl, rfl, ?_, rfl, rfl⟩
  show (n.parent.bind f.node?).map (fun p => p.id.render) = n.parent.bind f.idText?
  cases n.parent <;> rfl

/-- An identifier tells the node's id, and its parent's if it has a parent. -/
theorem id_of_identifier? {r : NodeRef} {i : Identifier} (h : f.identifier? r = some i) :
    f.idText? r = some i.id ∧ i.parentId = (f.parent? r).bind f.idText? := by
  cases hn : f.node? r with
  | none =>
      rw [identifier?, hn] at h
      cases h
  | some n =>
      obtain ⟨j, hj, hid, hpar, -⟩ := identifier?_of_node? hn
      rw [h] at hj
      cases hj
      rw [idText?, parent?, hn, hid, hpar]
      exact ⟨rfl, rfl⟩

/-- The id of an identifier is the written form of the id of its node. -/
theorem render_of_identifier? {r : NodeRef} {n : Node} {i : Identifier}
    (hn : f.node? r = some n) (hi : f.identifier? r = some i) : i.id = n.id.render := by
  obtain ⟨j, hj, hid, -⟩ := identifier?_of_node? hn
  rw [hi] at hj
  cases hj
  exact hid

/-- The ids of the identifiers are the texts of the ids of the nodes. -/
theorem map_id_identifiers (rs : List NodeRef) :
    (f.identifiers rs).map Identifier.id = rs.filterMap f.idText? := by
  rw [identifiers, List.map_filterMap]
  refine List.filterMap_congr ?_
  intro x _
  cases hx : f.node? x with
  | none => rw [identifier?, idText?, hx]; rfl
  | some n => rw [identifier?, idText?, hx]; rfl

/-- Two nodes of which the first has an id of its own are the same when they have one id text. -/
theorem eq_of_idText? {rs : List NodeRef} {r s : NodeRef} {t : String}
    (hn : ((f.identifiers rs).map Identifier.id).Nodup) (hr : r ∈ rs) (hs : s ∈ rs)
    (hrt : f.idText? r = some t) (hst : f.idText? s = some t) : r = s := by
  rw [map_id_identifiers] at hn
  induction rs with
  | nil => simp at hr
  | cons x xs ih =>
      cases hx : f.idText? x with
      | none =>
          rw [List.filterMap_cons_none hx] at hn
          have hrx : r ≠ x := fun e => by rw [e, hx] at hrt; cases hrt
          have hsx : s ≠ x := fun e => by rw [e, hx] at hst; cases hst
          exact ih hn ((List.mem_cons.mp hr).resolve_left hrx)
            ((List.mem_cons.mp hs).resolve_left hsx)
      | some u =>
          rw [List.filterMap_cons_some hx, List.nodup_cons] at hn
          have hmem : ∀ {y}, y ∈ xs → f.idText? y = some t → u ≠ t := fun hy hyt e =>
            hn.1 (e ▸ List.mem_filterMap.mpr ⟨_, hy, hyt⟩)
          rcases List.mem_cons.mp hr with hrx | hrxs
          · rcases List.mem_cons.mp hs with hsx | hsxs
            · rw [hrx, hsx]
            · rw [hrx, hx] at hrt
              exact absurd (Option.some.inj hrt) (hmem hsxs hst)
          · rcases List.mem_cons.mp hs with hsx | hsxs
            · rw [hsx, hx] at hst
              exact absurd (Option.some.inj hst) (hmem hrxs hrt)
            · exact ih hn.2 hrxs hsxs

/-! ## Walking in pre-order -/

/-- Walking down trees that stand visits their nodes in pre-order. -/
theorem acceptFrom_grove {m : Type → Type} [Monad m] [LawfulMonad m] [MonadExceptOf Fault m]
    (visit : NodeRef → m Unit) {g : Grove NodeRef} {pp : Option NodeRef} {n : Nat}
    (hg : f.Holds pp g) (hn : g.height ≤ n) :
    g.roots.forM (acceptFrom (pure f) visit n) = g.toList.forM visit := by
  induction g generalizing pp n with
  | nil => rfl
  | cons r b s ihb ihs =>
      obtain ⟨hr, hb, hs⟩ := hg
      obtain ⟨k, rfl⟩ : ∃ k, n = k + 1 := by
        cases n with
        | zero => simp [Grove.height] at hn
        | succ k => exact ⟨k, rfl⟩
      have hbk : b.height ≤ k := by
        simp only [Grove.height] at hn
        omega
      have hsk : s.height ≤ k + 1 := by
        simp only [Grove.height] at hn
        omega
      show (acceptFrom (pure f) visit (k + 1) r >>= fun _ =>
        s.roots.forM (acceptFrom (pure f) visit (k + 1))) = _
      rw [ihs hs hsk, acceptFrom]
      simp only [pure_bind, hr.children, ihb hb hbk, bind_assoc]
      have happ : (b.toList ++ s.toList).forM visit
          = (b.toList.forM visit >>= fun _ => s.toList.forM visit) := List.forM_append
      show _ = (visit r >>= fun _ => (b.toList ++ s.toList).forM visit)
      rw [happ]

end Forest

namespace TestPlan

variable {f : Forest}

/-- The index with more identifiers. -/
def pushAll : List Identifier → TestPlan → Except Fault TestPlan
  | [], plan => .ok plan
  | i :: is, plan => do pushAll is (← plan.push i)

/-- Nodes are put into the index by their identifiers, in order. -/
theorem forM_index (rs : List NodeRef) (plan : TestPlan) :
    (rs.forM (index f)).run plan
      = (pushAll (f.identifiers rs) plan).map fun plan => ((), plan) := by
  induction rs generalizing plan with
  | nil => rfl
  | cons r rs ih =>
      show (index f r >>= fun _ => rs.forM (index f)).run plan = _
      rw [StateT.run_bind, Forest.identifiers, List.filterMap_cons]
      cases hr : f.identifier? r with
      | none =>
          have hindex : (index f r).run plan = .ok ((), plan) := by
            rw [index, hr]
            rfl
          rw [hindex]
          exact ih plan
      | some i =>
          have hindex : (index f r).run plan = (plan.push i).map fun plan => ((), plan) := by
            rw [index, hr]
            cases h : plan.push i with
            | error e =>
                simp [h]
                rfl
            | ok plan' =>
                simp [h]
                rfl
          rw [hindex]
          show _ = (plan.push i >>= pushAll (f.identifiers rs)).map fun plan => ((), plan)
          cases plan.push i with
          | error e => rfl
          | ok plan' => exact ih plan'

/-- **The plan of trees that stand.**  It depends on the identifiers of their nodes in pre-order
    and of their roots, and on nothing else. -/
theorem ofRoots_eq_of_height {g : Grove NodeRef} {pp : Option NodeRef} (hg : f.Holds pp g)
    (hle : g.height ≤ f.depthBound) :
    ofRoots f g.roots = (pushAll (f.identifiers g.toList) {}).map fun plan =>
      { plan with roots := (g.roots.filterMap f.idText?).filterMap plan.identifiers.get? } := by
  have hwalk : g.roots.forM (Forest.accept (pure f) (index f)) = g.toList.forM (index f) := by
    rw [← Forest.acceptFrom_grove (index f) hg hle]
    rfl
  rw [ofRoots, hwalk, forM_index]
  cases pushAll (f.identifiers g.toList) {} <;> rfl

/-- The plan of trees that stand is the index of their nodes in pre-order, with their roots. -/
theorem ofRoots_eq {g : Grove NodeRef} {pp : Option NodeRef} (hg : f.Holds pp g)
    (hn : g.toList.Nodup) :
    ofRoots f g.roots = (pushAll (f.identifiers g.toList) {}).map fun plan =>
      { plan with roots := (g.roots.filterMap f.idText?).filterMap plan.identifiers.get? } :=
  ofRoots_eq_of_height hg (Nat.le_succ_of_le (Forest.height_le_size hg hn))

/-! ## What is pushed -/

/-- A plan holds identifiers: under their ids, and under the ids of their parents. -/
structure Lists (plan : TestPlan) (is : List Identifier) : Prop where
  distinct : (is.map Identifier.id).Nodup
  identifiers : plan.identifiers.toList = is.map fun i => (i.id, i)
  children : ∀ p, plan.childrenOf p = is.filter fun i => i.parentId = some p

/-- An empty plan lists nothing. -/
theorem lists_empty : Lists {} [] := ⟨List.nodup_nil, rfl, fun _ => rfl⟩

/-- A plan has the ids of what it lists as keys. -/
theorem Lists.keys {plan : TestPlan} {is : List Identifier} (h : plan.Lists is) :
    plan.identifiers.keys = is.map Identifier.id := by
  rw [OrderedMap.keys, h.identifiers, List.map_map]
  rfl

/-- A plan has what it lists as values, in order. -/
theorem Lists.values {plan : TestPlan} {is : List Identifier} (h : plan.Lists is) :
    plan.identifiers.values = is := by
  rw [OrderedMap.values, h.identifiers, List.map_map]
  exact List.map_id' is

/-- A plan finds an id when it lists an identifier with it. -/
theorem Lists.get?_iff {plan : TestPlan} {is : List Identifier} (h : plan.Lists is) (t : String)
    (i : Identifier) : plan.identifiers.get? t = some i ↔ i ∈ is ∧ i.id = t := by
  rw [OrderedMap.get?_eq_some_iff, h.identifiers, List.mem_map]
  constructor
  · rintro ⟨j, hj, he⟩
    cases he
    exact ⟨hj, rfl⟩
  · rintro ⟨hi, rfl⟩
    exact ⟨i, hi, rfl⟩

/-- A plan lists one identifier more after it is added. -/
theorem Lists.push {plan plan' : TestPlan} {is : List Identifier} {i : Identifier}
    (h : plan.Lists is) (hpush : plan.push i = .ok plan') : plan'.Lists (is ++ [i]) := by
  rw [TestPlan.push] at hpush
  split at hpush
  · cases hpush
  · rename_i hnew
    have hkeys : i.id ∉ plan.identifiers.keys := fun hmem =>
      hnew ((OrderedMap.contains_iff ..).mpr hmem)
    have hdistinct : ((is ++ [i]).map Identifier.id).Nodup := by
      rw [List.map_append]
      refine List.nodup_append.mpr ⟨h.distinct, by simp, ?_⟩
      intro a ha b hb hab
      rw [h.keys] at hkeys
      rw [List.map_cons, List.map_nil, List.mem_singleton] at hb
      exact hkeys (hb ▸ hab ▸ ha)
    have hids : (plan.identifiers.insert i.id i).toList
        = (is ++ [i]).map fun i => (i.id, i) := by
      rw [OrderedMap.toList_insert_of_not_mem hkeys, h.identifiers, List.map_append]
      rfl
    cases hp : i.parentId with
    | none =>
        rw [hp] at hpush
        cases hpush
        refine ⟨hdistinct, hids, ?_⟩
        intro p
        rw [List.filter_append, List.filter_cons_of_neg (by simp [hp]), List.filter_nil,
          List.append_nil]
        exact h.children p
    | some q =>
        rw [hp] at hpush
        cases hpush
        refine ⟨hdistinct, hids, ?_⟩
        intro p
        have hold := h.children p
        rw [List.filter_append, ← hold]
        show ((plan.children.insert q _).get? p).getD [] = _
        rw [OrderedMap.get?_insert]
        by_cases hpq : q = p
        · subst hpq
          rw [if_pos rfl, List.filter_cons_of_pos (by simp [hp])]
          rfl
        · rw [if_neg hpq, List.filter_cons_of_neg (by simpa [hp] using hpq), List.filter_nil,
            List.append_nil]
          rfl

/-- A plan lists all that is added to it. -/
theorem Lists.pushAll {plan plan' : TestPlan} {is js : List Identifier} (h : plan.Lists is)
    (hpush : TestPlan.pushAll js plan = .ok plan') : plan'.Lists (is ++ js) := by
  induction js generalizing plan is with
  | nil =>
      cases hpush
      rw [List.append_nil]
      exact h
  | cons j js ih =>
      rw [TestPlan.pushAll] at hpush
      cases hj : plan.push j with
      | error e => rw [hj] at hpush; cases hpush
      | ok plan₁ =>
          rw [hj] at hpush
          have hall := ih (h.push hj) hpush
          rw [List.append_assoc] at hall
          exact hall

/-- Identifiers with new ids can be pushed. -/
theorem Lists.pushAll_ok {plan : TestPlan} {is js : List Identifier} (h : plan.Lists is)
    (hn : ((is ++ js).map Identifier.id).Nodup) : ∃ plan', TestPlan.pushAll js plan = .ok plan' := by
  induction js generalizing plan is with
  | nil => exact ⟨plan, rfl⟩
  | cons j js ih =>
      have hnew : plan.identifiers.contains j.id = false := by
        refine Bool.eq_false_iff.mpr ?_
        rw [ne_eq, OrderedMap.contains_iff, h.keys]
        rw [List.map_append, List.map_cons] at hn
        exact fun hmem => (List.nodup_append'.mp hn).2.2 hmem (List.mem_cons_self ..)
      obtain ⟨plan₁, hpush⟩ : ∃ plan₁, plan.push j = .ok plan₁ := by
        rw [TestPlan.push, hnew]
        cases j.parentId with
        | none => exact ⟨_, rfl⟩
        | some p => exact ⟨_, rfl⟩
      rw [List.append_cons] at hn
      obtain ⟨plan', hall⟩ := ih (h.push hpush) hn
      exact ⟨plan', by rw [TestPlan.pushAll, hpush]; exact hall⟩

/-- A plan of trees that stand: it lists their nodes in pre-order, and its roots are theirs. -/
structure Indexes (plan : TestPlan) (f : Forest) (g : Grove NodeRef) : Prop where
  lists : plan.Lists (f.identifiers g.toList)
  roots : plan.roots = f.identifiers g.roots

/-- The identifiers under the ids of nodes that are listed. -/
theorem Lists.filterMap_get? {plan : TestPlan} {rs ss : List NodeRef}
    (h : plan.Lists (f.identifiers rs)) (hss : ∀ r ∈ ss, r ∈ rs) :
    (ss.filterMap f.idText?).filterMap plan.identifiers.get? = f.identifiers ss := by
  rw [List.filterMap_filterMap, Forest.identifiers]
  refine List.filterMap_congr ?_
  intro r hr
  cases hi : f.identifier? r with
  | none =>
      have hnone : f.idText? r = none := by
        cases hn : f.node? r with
        | none => rw [Forest.idText?, hn]; rfl
        | some n => rw [Forest.identifier?, hn] at hi; cases hi
      rw [hnone]
      rfl
  | some i =>
      have hmem : i ∈ f.identifiers rs := List.mem_filterMap.mpr ⟨r, hss r hr, hi⟩
      rw [(Forest.id_of_identifier? hi).1]
      exact (h.get?_iff i.id i).mpr ⟨hmem, rfl⟩

/-- A plan made of trees that stand indexes them. -/
theorem indexes_of_ofRoots {plan : TestPlan} {g : Grove NodeRef} {pp : Option NodeRef}
    (hg : f.Holds pp g) (hn : g.toList.Nodup) (h : ofRoots f g.roots = .ok plan) :
    plan.Indexes f g := by
  rw [ofRoots_eq hg hn] at h
  cases hpush : TestPlan.pushAll (f.identifiers g.toList) {} with
  | error e => rw [hpush] at h; cases h
  | ok plan₁ =>
      rw [hpush] at h
      cases h
      have hlists : plan₁.Lists (f.identifiers g.toList) := lists_empty.pushAll hpush
      refine ⟨⟨hlists.distinct, hlists.identifiers, hlists.children⟩, ?_⟩
      exact hlists.filterMap_get? fun r hr => Grove.mem_toList_of_mem_roots hr

/-- Trees that stand make a plan when all their ids are different texts. -/
theorem ofRoots_ok {g : Grove NodeRef} {pp : Option NodeRef} (hg : f.Holds pp g)
    (hn : g.toList.Nodup) (hids : ((f.identifiers g.toList).map Identifier.id).Nodup) :
    ∃ plan, ofRoots f g.roots = .ok plan := by
  obtain ⟨plan, hpush⟩ : ∃ plan, TestPlan.pushAll (f.identifiers g.toList) {} = .ok plan :=
    lists_empty.pushAll_ok hids
  exact ⟨_, by rw [ofRoots_eq hg hn, hpush]; rfl⟩

end TestPlan

/-! ## The children under an id -/

namespace Forest

variable {f : Forest}

/-- No node of a grove has a parent that is neither in the grove nor above it. -/
theorem filter_parent_eq_nil {g : Grove NodeRef} {pp : Option NodeRef} {r : NodeRef}
    (hg : f.Holds pp g) (hpp : pp ≠ some r) (hr : r ∉ g.toList) :
    g.toList.filter (fun x => f.parent? x = some r) = [] := by
  induction g generalizing pp with
  | nil => rfl
  | cons c b s ihb ihs =>
      obtain ⟨hc, hb, hs⟩ := hg
      simp only [Grove.toList_cons, List.mem_cons, List.mem_append, not_or] at hr
      have hcr : some c ≠ some r := fun e => hr.1 (Option.some.inj e).symm
      have hskip : f.parent? c ≠ some r := by
        rw [hc.parent]
        exact hpp
      rw [Grove.toList_cons, List.filter_cons_of_neg (by simpa using hskip), List.filter_append,
        ihb hb hcr hr.2.1, ihs hs hpp hr.2.2]
      rfl

/-- The children of what is above some trees are their roots. -/
theorem filter_parent_of_above {g : Grove NodeRef} {r : NodeRef} (hg : f.Holds (some r) g)
    (hr : r ∉ g.toList) : g.toList.filter (fun x => f.parent? x = some r) = g.roots := by
  induction g with
  | nil => rfl
  | cons c b s _ ihs =>
      obtain ⟨hc, hb, hs⟩ := hg
      simp only [Grove.toList_cons, List.mem_cons, List.mem_append, not_or] at hr
      have hcr : some c ≠ some r := fun e => hr.1 (Option.some.inj e).symm
      have hkeep : f.parent? c = some r := hc.parent
      rw [Grove.toList_cons, List.filter_cons_of_pos (by simpa using hkeep), List.filter_append,
        filter_parent_eq_nil hb hcr hr.2.1, ihs hs hr.2.2]
      rfl

/-- The nodes whose parent is a given node of a grove are its children. -/
theorem filter_parent {g : Grove NodeRef} {pp : Option NodeRef} {r : NodeRef} (hg : f.Holds pp g)
    (hn : g.toList.Nodup) (hpp : pp ≠ some r) (hr : r ∈ g.toList) :
    g.toList.filter (fun x => f.parent? x = some r) = f.children r := by
  induction g generalizing pp with
  | nil => simp at hr
  | cons c b s ihb ihs =>
      obtain ⟨hc, hb, hs⟩ := hg
      obtain ⟨hcb, hcs, hnb, hns, hbs⟩ := Grove.nodup_cons.mp hn
      have hskip : f.parent? c ≠ some r := by
        rw [hc.parent]
        exact hpp
      rw [Grove.toList_cons, List.filter_cons_of_neg (by simpa using hskip), List.filter_append]
      by_cases hcr : c = r
      · subst hcr
        rw [filter_parent_of_above hb hcb, filter_parent_eq_nil hs hpp hcs, hc.children,
          List.append_nil]
      · have hcr' : some c ≠ some r := fun e => hcr (Option.some.inj e)
        simp only [Grove.toList_cons, List.mem_cons, Ne.symm hcr, false_or, List.mem_append] at hr
        rcases hr with hr | hr
        · rw [ihb hb hnb hcr' hr, filter_parent_eq_nil hs hpp (hbs r hr), List.append_nil]
        · have hrb : r ∉ b.toList := fun h => hbs r h hr
          rw [filter_parent_eq_nil hb hcr' hrb, ihs hs hns hpp hr, List.nil_append]

/-- A child of a node in the trees is in them, with the node as its parent. -/
theorem parent_of_mem_children {g : Grove NodeRef} {pp : Option NodeRef} {r c : NodeRef}
    (hg : f.Holds pp g) (hn : g.toList.Nodup) (hpp : pp ≠ some r) (hr : r ∈ g.toList)
    (hc : c ∈ f.children r) : c ∈ g.toList ∧ f.parent? c = some r := by
  rw [← filter_parent hg hn hpp hr, List.mem_filter] at hc
  exact ⟨hc.1, of_decide_eq_true hc.2⟩

/-- The parent of a node in the trees is in them, or what they hang from. -/
theorem parent_mem_of_holds {g : Grove NodeRef} {pp : Option NodeRef} {x q : NodeRef}
    (hg : f.Holds pp g) (hx : x ∈ g.toList) (hq : f.parent? x = some q) :
    q ∈ g.toList ∨ pp = some q := by
  induction g generalizing pp with
  | nil => simp at hx
  | cons c b s ihb ihs =>
      obtain ⟨hc, hb, hs⟩ := hg
      simp only [Grove.toList_cons, List.mem_cons, List.mem_append] at hx
      rcases hx with rfl | hx | hx
      · exact Or.inr (hc.parent.symm.trans hq)
      · rcases ihb hb hx with h | h
        · exact Or.inl (by simp [h])
        · exact Or.inl (by simp [Option.some.inj h])
      · rcases ihs hs hx with h | h
        · exact Or.inl (by simp [h])
        · exact Or.inr h

/-- Identifiers whose parent has the id of a node are those of its children, in order. -/
theorem filter_parentId {g : Grove NodeRef} {r : NodeRef} {t : String} (hg : f.Holds none g)
    (hn : g.toList.Nodup) (hids : ((f.identifiers g.toList).map Identifier.id).Nodup)
    (hr : r ∈ g.toList) (ht : f.idText? r = some t) :
    (f.identifiers g.toList).filter (fun i => i.parentId = some t)
      = f.identifiers (f.children r) := by
  have hpp : (none : Option NodeRef) ≠ some r := fun e => by cases e
  rw [identifiers, List.filter_filterMap, ← filter_parent hg hn hpp hr, identifiers,
    List.filterMap_filter]
  refine List.filterMap_congr ?_
  intro x hx
  cases hi : f.identifier? x with
  | none => simp
  | some i =>
      obtain ⟨-, hpar⟩ := id_of_identifier? hi
      have hiff : i.parentId = some t ↔ f.parent? x = some r := by
        rw [hpar]
        constructor
        · intro hbind
          obtain ⟨q, hq, hqt⟩ := Option.bind_eq_some_iff.mp hbind
          have hqg : q ∈ g.toList :=
            (parent_mem_of_holds hg hx hq).resolve_right fun e => by cases e
          rw [hq, eq_of_idText? hids hqg hr hqt ht]
        · intro hq
          rw [hq]
          exact ht
      by_cases hxr : f.parent? x = some r
      · simp [hiff, hxr]
      · simp [hiff, hxr]

end Forest

/-- Under the id of a node of the plan's trees are the identifiers of its children, in order. -/
theorem TestPlan.Indexes.childrenOf {plan : TestPlan} {f : Forest} {g : Grove NodeRef}
    {r : NodeRef} {t : String} (h : plan.Indexes f g) (hg : f.Holds none g) (hn : g.toList.Nodup)
    (hr : r ∈ g.toList) (ht : f.idText? r = some t) :
    plan.childrenOf t = f.identifiers (f.children r) :=
  (h.lists.children t).trans (Forest.filter_parentId hg hn h.lists.distinct hr ht)

end TestLauncher
