import Mathlib.Data.List.Induction
import Mathlib.Logic.Relation
import TestLauncher.Proofs.Forest.Winnowing
import TestLauncher.Proofs.Plan.Index

/-! # Nodes above themselves

    A node is refused as its own child, and nothing keeps it from getting below itself in
    more steps than one: a node may be put under what is below it, and then both are on a
    cycle.  No other call makes a cycle (`acyclic_perform_iff`), so none is ever there
    exactly as long as no node is put under one that it is above
    (`acyclic_throughout_iff`).

    Where links agree a node has one way up, so what is below a node that is not above itself
    is a tree, even if there are cycles elsewhere (`Linked.tree_below`), and every walk from
    it goes over that tree and ends (`WalksOver`).  From a node on a cycle no walk comes to
    an end of its own, at whatever depth it is stopped (`NeverEnds`). -/

namespace TestLauncher.Forest

variable {f g : Forest} {r p c x : NodeRef} {n q : Node}

/-- The second node is the parent of the first, or further up. -/
def Above (f : Forest) : NodeRef → NodeRef → Prop :=
  Relation.TransGen fun c p => f.parent? c = some p

/-- The second node is the first, or above it. -/
def AtOrAbove (f : Forest) : NodeRef → NodeRef → Prop :=
  Relation.ReflTransGen fun c p => f.parent? c = some p

/-- No node is above itself. -/
def Acyclic (f : Forest) : Prop := ∀ r, ¬ f.Above r r

/-- What is at or above a node is the node or above it. -/
theorem AtOrAbove.eq_or_above (h : f.AtOrAbove c p) : p = c ∨ f.Above c p :=
  Relation.reflTransGen_iff_eq_or_transGen.mp h

/-- There is one way up: from a node on a cycle it stays there. -/
theorem Above.of_atOrAbove (hx : f.Above x x) (h : f.AtOrAbove x r) : f.Above r r := by
  induction h with
  | refl => exact hx
  | @tail y z _ hyz ih =>
      obtain ⟨z', hyz', hz'y⟩ := Relation.TransGen.head'_iff.mp ih
      rw [hyz] at hyz'
      cases hyz'
      exact .tail' hz'y hyz

/-! ## What makes a cycle -/

/-- The call puts a node under one that it is above, and is not refused. -/
def Edit.Closes (f : Forest) (e : Edit) : Prop :=
  (e.perform.on f).1 = .ok () ∧ ∃ p c, e = .addChild p (some c) ∧ f.Above p c

/-- Adding a child closes a cycle if it succeeds and the child is above its new parent. -/
theorem Edit.closes_addChild_iff :
    (Edit.addChild p (some c)).Closes f ↔
      ((Edit.addChild p (some c)).perform.on f).1 = .ok () ∧ f.Above p c := by
  constructor
  · rintro ⟨htaken, _, _, he, habove⟩
    cases he
    exact ⟨htaken, habove⟩
  · rintro ⟨htaken, habove⟩
    exact ⟨htaken, p, c, rfl, habove⟩

/-- There is no cycle in the empty forest. -/
theorem acyclic_empty : (∅ : Forest).Acyclic := by
  intro r h
  obtain ⟨p, hp, -⟩ := Relation.TransGen.head'_iff.mp h
  cases hp

/-- Without new links there are no new cycles. -/
theorem Acyclic.of_parents (hf : f.Acyclic)
    (h : ∀ x p, g.parent? x = some p → f.parent? x = some p) : g.Acyclic :=
  fun r hr => hf r (Relation.TransGen.mono h r r hr)

/-- Undoing links makes no cycle. -/
theorem Loosened.acyclic (h : f.Loosened g) (hf : f.Acyclic) : g.Acyclic := by
  refine hf.of_parents ?_
  intro x p hp
  rcases h.parent x with hx | hx
  · rwa [← hx]
  · rw [hx] at hp
    cases hp

/-- A node that is put under another has that one as its parent; no other node is touched. -/
theorem parent?_addChild (hp : f.node? p = some q) (hc : f.node? c = some n)
    (h : f.addChild p (some c) = .ok g) (x : NodeRef) :
    g.parent? x = if x = c then some p else f.parent? x := by
  have hlink : ∀ {f' : Forest} {n' : Node}, f'.node? c = some n' →
      (∀ x, x ≠ c → f'.parent? x = f.parent? x) →
      (f'.link p c n.id).parent? x = if x = c then some p else f.parent? x := by
    intro f' n' hc' hsame
    rw [parent?_link hc']
    split
    · rfl
    · rename_i hxc
      exact hsame x hxc
  rw [addChild] at h
  split at h
  · cases h
  · rw [hp, hc] at h
    dsimp only at h
    split at h
    · cases h
    · cases h
      cases ho : n.parent with
      | none => exact hlink hc fun _ _ => rfl
      | some o =>
          dsimp only
          split
          · exact hlink hc fun _ _ => rfl
          · rcases removeChild_cases f o c with hsame | ⟨m, hm, -, hunlink⟩
            · rw [hsame]
              exact hlink hc fun _ _ => rfl
            · obtain ⟨m₁, hm₁⟩ : ∃ m₁, (f.dropChild o m.id).node? c = some m₁ :=
                exists_node_modify hm
              obtain ⟨m₂, hm₂⟩ : ∃ m₂, (f.unlink o c m.id).node? c = some m₂ :=
                exists_node_modify hm₁
              rw [hunlink]
              refine hlink hm₂ fun x hx => ?_
              rw [parent?_unlink hm, if_neg hx]

section

variable (hg : ∀ x, g.parent? x = if x = c then some p else f.parent? x)

include hg

/-- A way up after one node was put under another either was there, or leads through the two. -/
theorem above_of_rehung {a b : NodeRef} (h : g.Above a b) :
    f.Above a b ∨ f.AtOrAbove a c ∧ f.AtOrAbove p b := by
  have hstep : ∀ {y z : NodeRef}, g.parent? y = some z →
      y = c ∧ z = p ∨ f.parent? y = some z := by
    intro y z hyz
    rw [hg] at hyz
    split at hyz
    · rename_i hy
      exact Or.inl ⟨hy, (Option.some.inj hyz).symm⟩
    · exact Or.inr hyz
  induction h with
  | single hab =>
      rcases hstep hab with ⟨rfl, rfl⟩ | hab
      · exact Or.inr ⟨.refl, .refl⟩
      · exact Or.inl (.single hab)
  | tail _ hyz ih =>
      rcases hstep hyz with ⟨rfl, rfl⟩ | hyz
      · rcases ih with hay | ⟨hac, -⟩
        · exact Or.inr ⟨hay.to_reflTransGen, .refl⟩
        · exact Or.inr ⟨hac, .refl⟩
      · rcases ih with hay | ⟨hac, hpy⟩
        · exact Or.inl (hay.tail hyz)
        · exact Or.inr ⟨hac, hpy.tail hyz⟩

/-- Up to the node that was moved, a way up is as it was. -/
theorem atOrAbove_rehung (h : f.AtOrAbove x c) : g.AtOrAbove x c := by
  induction h using Relation.ReflTransGen.head_induction_on with
  | refl => exact .refl
  | @head y z hyz _ ih =>
      by_cases hy : y = c
      · rw [hy]
        exact .refl
      · refine .head ?_ ih
        rw [hg, if_neg hy]
        exact hyz

/-- Putting a node under another closes a cycle exactly when the node was above the other. -/
theorem acyclic_rehung_iff (hcp : c ≠ p) (hf : f.Acyclic) : g.Acyclic ↔ ¬ f.Above p c := by
  constructor
  · intro hacyclic habove
    refine hacyclic c (.head' ?_ (atOrAbove_rehung hg habove.to_reflTransGen))
    rw [hg, if_pos rfl]
  · intro hnot r hr
    rcases above_of_rehung hg hr with hr | ⟨hrc, hpr⟩
    · exact hf r hr
    · rcases AtOrAbove.eq_or_above (hpr.trans hrc) with hpc | hpc
      · exact hcp hpc
      · exact hnot hpc

end

/-- **What a call can close.**  From a forest without cycles a call leads to one with a cycle
    exactly when it puts a node under one that it is above. -/
theorem acyclic_perform_iff (hf : f.Linked) (ha : f.Acyclic) (e : Edit) :
    (e.perform.on f).2.Acyclic ↔ ¬ e.Closes f := by
  have hsettle : ∀ result : Except Fault Forest, (∀ g, result = .ok g → g.Acyclic) →
      (Edit.settle f result).2.Acyclic := by
    rintro (fault | g) h
    · exact ha
    · exact h g rfl
  have hother : (∀ p c, e ≠ .addChild p (some c)) → ¬ e.Closes f := by
    rintro hne ⟨-, p, c, he, -⟩
    exact hne p c he
  rw [← Edit.on_writes]
  cases e with
  | build id name kind tags source =>
      refine iff_of_true ?_ (hother fun _ _ h => by cases h)
      cases hn : Node.make id name kind tags source with
      | error fault =>
          rw [Edit.writes, hn]
          exact ha
      | ok n =>
          rw [Edit.writes, hn]
          cases id with
          | none => cases hn
          | some id =>
              rw [Node.make_eq_ok hn]
              show (f.add _).2.Acyclic
              exact ha.of_parents fun x p hx => by rwa [parent?_add rfl] at hx
  | removeChild p c =>
      refine iff_of_true ?_ (hother fun _ _ h => by cases h)
      rw [Edit.writes, Edit.on_removeChildWrites]
      exact (loosened_removeChild f p c).acyclic ha
  | detach r =>
      refine iff_of_true ?_ (hother fun _ _ h => by cases h)
      rw [Edit.writes, Edit.on_detachWrites]
      exact hsettle _ fun g hg => (loosened_detach hg).acyclic ha
  | addChild p c =>
      have hcall : (Edit.addChild p c).writes.on f = Edit.settle f (f.addChild p c) :=
        Edit.on_addChildWrites p c f
      cases c with
      | none =>
          rw [hcall]
          exact iff_of_true ha (hother fun _ _ h => by cases h)
      | some c =>
          rw [Edit.closes_addChild_iff, ← Edit.on_writes, hcall]
          cases hadd : f.addChild p (some c) with
          | error fault =>
              refine iff_of_true ha fun h => ?_
              cases h.1
          | ok g =>
              show g.Acyclic ↔ ¬ (Except.ok () = Except.ok () ∧ f.Above p c)
              rw [and_iff_right rfl]
              rcases addChild_cases hadd with rfl | ⟨_, q, n, hsome, hcp, hq, hn, -⟩
              · refine iff_of_true ha ?_
                intro habove
                -- both nodes are there, so the forest would not have been left as it was
                obtain ⟨o, ho, -⟩ := Relation.TransGen.head'_iff.mp habove
                obtain ⟨b, -, hb⟩ := Relation.TransGen.tail'_iff.mp habove
                obtain ⟨q, hq, -⟩ := Option.bind_eq_some_iff.mp ho
                obtain ⟨id, hid⟩ := mem_children_iff.mp (hf.mem_children_iff.mpr hb)
                obtain ⟨n, hn, -⟩ := Option.bind_eq_some_iff.mp hid
                have hparent := parent?_addChild hq hn hadd c
                rw [if_pos rfl] at hparent
                exact ha c (.head hparent habove)
              · cases hsome
                exact acyclic_rehung_iff (parent?_addChild hq hn hadd) hcp ha

/-! ## Below a node that is not above itself -/

/-- What is below a node depends on the links down alone. -/
theorem belowFrom_congr (h : ∀ x, g.children x = f.children x) (k : Nat) (r : NodeRef) :
    g.belowFrom k r = f.belowFrom k r := by
  induction k generalizing r with
  | zero => rfl
  | succ k ih =>
      have hbelow : g.belowFrom k = f.belowFrom k := funext ih
      rw [belowFrom, belowFrom, h, hbelow]

/-- In a linked forest a node reaches what it is at or above. -/
theorem Linked.reached_iff (hf : f.Linked) : f.Reached [r] x ↔ f.AtOrAbove x r := by
  constructor
  · intro h
    induction h with
    | root hr =>
        rw [List.mem_singleton.mp hr]
        exact .refl
    | child _ hc ih => exact .head (hf.mem_children_iff.mp hc) ih
  · intro h
    induction h using Relation.ReflTransGen.head_induction_on with
    | refl => exact reached_self
    | head hyz _ ih => exact .child ih (hf.mem_children_iff.mpr hyz)

/-- What is reached depends on the children only. -/
theorem reached_congr (h : ∀ x, g.children x = f.children x) (hx : g.Reached [r] x) :
    f.Reached [r] x := by
  induction hx with
  | root hr => exact .root hr
  | child _ hc ih => exact .child ih (h _ ▸ hc)

section

variable (hf : f.Linked) (hr : f.node? r = some n) (h : ¬ f.Above r r)

include hf hr

/-- In a linked forest a node stands between its parent and its children. -/
theorem Linked.stands : f.Stands r (f.parent? r) (f.children r) :=
  stands_of_kept hr fun id c hc => ((hf.kept_iff r id c).mp hc).1

include h

/-- Without its link up the way up from the node ends, and what is below it is as it was. -/
theorem Linked.hung_freed : (f.setParent r none).Hung [r] where
  up := by
    intro x hx
    rw [List.mem_singleton.mp hx]
    refine ⟨0, .top (n := { n with parent := none }) ?_ rfl⟩
    rw [setParent, node?_modify, if_pos rfl, hr]
    rfl
  kept := by
    intro p hp id c hc
    rw [child?_setParent] at hc
    obtain ⟨hid, hparent⟩ := (hf.kept_iff p id c).mp hc
    have hpr : f.AtOrAbove p r :=
      hf.reached_iff.mp (reached_congr (fun _ => children_setParent) hp)
    have hcr : c ≠ r := by
      rintro rfl
      exact h (.head' hparent hpr)
    rw [id?_setParent, parent?_setParent hr, if_neg hcr]
    exact ⟨hid, hparent⟩

/-- **What is below a node that is not above itself is a tree**, whatever is above it: it stands
    in the forest, and the nodes that the node is above are in it, each once. -/
theorem Linked.tree_below :
    (f.below r).roots = f.children r ∧ f.Holds (f.parent? r) (Grove.tree r (f.below r)) ∧
      (Grove.tree r (f.below r)).toList.Nodup ∧
      ∀ x, x ∈ (Grove.tree r (f.below r)).toList ↔ f.AtOrAbove x r := by
  have hhung := hf.hung_freed hr h
  have hsame : ∀ x, (f.setParent r none).children x = f.children x := fun _ => children_setParent
  have hsize : (f.setParent r none).size = f.size := size_modify f r _
  have hbelow : (f.setParent r none).below r = f.below r := by
    rw [below, below, hsize]
    exact belowFrom_congr hsame f.size r
  obtain ⟨hroots, hholds⟩ := hhung.holds_below reached_self
  have hnodup := hhung.nodup_below reached_self
  rw [hbelow, hsame] at hroots
  rw [hbelow] at hholds hnodup
  refine ⟨hroots, holds_tree.mpr ⟨?_, holds_congr ?_ hholds⟩, hnodup, ?_⟩
  · rw [hroots]
    exact hf.stands hr
  · intro x hx
    have hxr : r ≠ x := by
      rintro rfl
      exact (Grove.nodup_tree.mp hnodup).1 hx
    rw [setParent, node?_modify, if_neg hxr]
  · intro x
    rw [Grove.toList_tree, ← hbelow, ← hhung.subtree reached_self,
      hhung.mem_subtree_iff reached_self, ← hf.reached_iff]
    exact ⟨reached_congr hsame, reached_congr fun x => (hsame x).symm⟩

end

/-! ## Walks that end -/

/-- A node has an id when its id is that one. -/
theorem any_id_eq (id : UniqueId) :
    ((f.node? r).any fun x => x.id = id) = decide (f.id? r = some id) := by
  rw [id?]
  cases f.node? r with
  | none => rfl
  | some n => simp

/-- A search of trees that stand finds the first node with the id. -/
theorem findSomeM?_findFrom {t : Grove NodeRef} {pp : Option NodeRef} {k : Nat} {id : UniqueId}
    (ht : f.Holds pp t) (hk : t.height ≤ k) :
    t.roots.findSomeM? (f.findFrom id k) = .ok (t.toList.find? fun x => f.id? x = some id) := by
  induction t generalizing pp k with
  | nil => rfl
  | cons r b s ihb ihs =>
      obtain ⟨hr, hb, hs⟩ := ht
      simp only [Grove.height] at hk
      obtain ⟨m, rfl⟩ : ∃ m, k = m + 1 := by
        cases k with
        | zero => omega
        | succ m => exact ⟨m, rfl⟩
      have hbelow := ihb hb (k := m) (by omega)
      have hbeside := ihs hs (k := m + 1) (by omega)
      have hfirst : f.findFrom id (m + 1) r =
          .ok ((r :: b.toList).find? fun x => f.id? x = some id) := by
        rw [findFrom, hr.children, hbelow, List.find?_cons, any_id_eq]
        cases decide (f.id? r = some id) <;> rfl
      rw [Grove.roots_cons, List.findSomeM?, hfirst, hbeside, Grove.toList_cons,
        ← List.cons_append, List.find?_append]
      cases (r :: b.toList).find? fun x => f.id? x = some id <;> rfl

/-- Every walk from a node comes to an end, and goes over one tree: the tree stands in the
    forest, and in it are the nodes at or below the node, each once. -/
structure WalksOver (f : Forest) (r : NodeRef) (t : Grove NodeRef) : Prop where
  stands : f.Holds (f.parent? r) t
  nodup : t.toList.Nodup
  mem_iff : ∀ x, x ∈ t.toList ↔ f.AtOrAbove x r
  descendants : f.descendants r = .ok t.toList.tail
  postOrder : f.postOrder r = .ok t.postOrder
  hasTests : f.hasTests r = .ok (t.toList.any f.isTest)
  find? : ∀ id, f.find? id r = .ok (t.toList.find? fun x => f.id? x = some id)
  accept : ∀ {m : Type → Type} [Monad m] [LawfulMonad m] [MonadExceptOf Fault m]
    (visit : NodeRef → m Unit), accept (pure f) visit r = t.toList.forM visit

/-- From a node that is not above itself every walk goes over its tree. -/
theorem Linked.walksOver (hf : f.Linked) (hr : f.node? r = some n) (h : ¬ f.Above r r) :
    f.WalksOver r (Grove.tree r (f.below r)) := by
  obtain ⟨hroots, hstands, hnodup, hmem⟩ := hf.tree_below hr h
  have hbelow := (holds_tree.mp hstands).2
  have hheight := height_belowFrom (f := f) f.size r
  have hlist := Grove.toList_tree r (f.below r)
  refine ⟨hstands, hnodup, hmem, ?_, postOrder_of_holds hroots hbelow, ?_, ?_, ?_⟩
  · rw [hlist]
    exact descendants_of_holds hroots hbelow
  · rw [hlist]
    exact hasTests_of_holds hroots hbelow
  · intro id
    rw [find?, depthBound, findFrom, ← hroots, findSomeM?_findFrom hbelow hheight, hlist,
      List.find?_cons, any_id_eq]
    cases decide (f.id? r = some id) <;> rfl
  · intro m _ _ _ visit
    rw [accept, pure_bind, depthBound, acceptFrom, pure_bind, ← hroots,
      acceptFrom_grove visit hbelow hheight, hlist]
    rfl

/-! ## Walks that do not end -/

/-- No walk from a node comes to an end of its own, however deep it may go: listing goes down
    for ever, a search ends only where it finds something, and going by all nodes only where the
    visitor fails. -/
structure NeverEnds (f : Forest) (r : NodeRef) : Prop where
  descendants : ∀ k, f.descendantsFrom k r = .error .endlessDescent
  postOrder : ∀ k, f.postOrderFrom k r = .error .endlessDescent
  hasTests : ∀ k, f.hasTestsFrom k r ≠ .ok false
  find? : ∀ id k, f.findFrom id k r ≠ .ok none
  accept : ∀ (visit : NodeRef → Except Fault Unit) k, acceptFrom (pure f) visit k r ≠ .ok ()

section

variable {α β : Type} {as : List α} {fault : Fault}

/-- If each thing is listed or fails in the same way, so do all of them in turn. -/
theorem mapM_ok_or {φ : α → Except Fault β}
    (h : ∀ a ∈ as, (∃ b, φ a = .ok b) ∨ φ a = .error fault) :
    (∃ bs, as.mapM φ = .ok bs) ∧ (∀ a ∈ as, ∃ b, φ a = .ok b) ∨ as.mapM φ = .error fault := by
  induction as with
  | nil => exact Or.inl ⟨⟨[], rfl⟩, fun _ ha => absurd ha List.not_mem_nil⟩
  | cons a as ih =>
      rw [List.forall_mem_cons] at h
      rw [List.mapM_cons, List.forall_mem_cons]
      rcases h.1 with ⟨b, hb⟩ | ha
      · rcases ih h.2 with ⟨⟨bs, hbs⟩, hall⟩ | has
        · rw [hb, hbs]
          exact Or.inl ⟨⟨b :: bs, rfl⟩, ⟨b, rfl⟩, hall⟩
        · rw [hb, has]
          exact Or.inr rfl
      · rw [ha]
        exact Or.inr rfl

/-- A step from what ends or descends for ever does the same. -/
theorem entered_or_endless {l : Except Fault α} {enter : α → β}
    (h : (∃ a, l = .ok a) ∨ l = .error fault) :
    (∃ b, (do return enter (← l)) = Except.ok (ε := Fault) b) ∨
      (do return enter (← l)) = Except.error fault := by
  rcases h with ⟨a, rfl⟩ | rfl
  · exact Or.inl ⟨enter a, rfl⟩
  · exact Or.inr rfl

/-- A loop that succeeds has succeeded for each value. -/
theorem forM_eq_ok {φ : α → Except Fault Unit} (h : as.forM φ = .ok ()) :
    ∀ a ∈ as, φ a = .ok () := by
  induction as with
  | nil => exact fun _ ha => absurd ha List.not_mem_nil
  | cons a as ih =>
      obtain ⟨⟨⟩, ha, has⟩ := bind_eq_ok h
      exact List.forall_mem_cons.mpr ⟨ha, ih has⟩

/-- A test that no value meets fails for each of them. -/
theorem anyM_eq_ok_false {φ : α → Except Fault Bool} (h : as.anyM φ = .ok false) :
    ∀ a ∈ as, φ a = .ok false := by
  induction as with
  | nil => exact fun _ ha => absurd ha List.not_mem_nil
  | cons a as ih =>
      obtain ⟨b, ha, has⟩ := bind_eq_ok h
      cases b with
      | true => cases has
      | false => exact List.forall_mem_cons.mpr ⟨ha, ih has⟩

/-- A search that finds nothing finds nothing in any value. -/
theorem findSomeM?_eq_ok_none {φ : α → Except Fault (Option β)}
    (h : as.findSomeM? φ = .ok none) : ∀ a ∈ as, φ a = .ok none := by
  induction as with
  | nil => exact fun _ ha => absurd ha List.not_mem_nil
  | cons a as ih =>
      obtain ⟨b, ha, has⟩ := bind_eq_ok h
      cases b with
      | some b => cases has
      | none => exact List.forall_mem_cons.mpr ⟨ha, ih has⟩

end

/-- A node on a cycle has a child that is on it as well. -/
theorem Linked.exists_child_above (hf : f.Linked) (hr : f.Above r r) :
    ∃ c ∈ f.children r, f.Above c c := by
  obtain ⟨c, hrc, hcr⟩ := Relation.TransGen.tail'_iff.mp hr
  exact ⟨c, hf.mem_children_iff.mpr hcr, hr.of_atOrAbove hrc⟩

section

variable {α β : Type} {list : Nat → NodeRef → Except Fault α} (enter : NodeRef → α → β)
  (join : NodeRef → List β → α) (hstop : ∀ r, list 0 r = .error .endlessDescent)
  (hdown : ∀ k r, list (k + 1) r = do
    let below ← (f.children r).mapM fun c => do return enter c (← list k c)
    return join r below)

include hstop hdown

/-- A list that is put together from lists for the children fails, if at all, at the depth where
    it stops. -/
theorem listed_or_endless (k : Nat) (r : NodeRef) :
    (∃ l, list k r = .ok l) ∨ list k r = .error .endlessDescent := by
  induction k generalizing r with
  | zero => exact Or.inr (hstop r)
  | succ k ih =>
      rw [hdown]
      rcases mapM_ok_or fun c _ => entered_or_endless (ih c) with ⟨⟨below, hbelow⟩, -⟩ | hfail
      · rw [hbelow]
        exact Or.inl ⟨join r below, rfl⟩
      · rw [hfail]
        exact Or.inr rfl

/-- A node that is above itself is listed without end. -/
theorem Linked.list_endless (hf : f.Linked) (hr : f.Above r r) (k : Nat) :
    list k r = .error .endlessDescent := by
  induction k generalizing r with
  | zero => exact hstop r
  | succ k ih =>
      obtain ⟨c, hc, hcc⟩ := hf.exists_child_above hr
      rw [hdown]
      rcases mapM_ok_or fun c _ => entered_or_endless
        (listed_or_endless enter join hstop hdown k c) with ⟨-, hall⟩ | hfail
      · obtain ⟨b, hb⟩ := hall c hc
        rw [ih hcc] at hb
        cases hb
      · rw [hfail]
        rfl

end

/-- **Going down from a node that is above itself has no end.** -/
theorem Linked.neverEnds (hf : f.Linked) (hr : f.Above r r) : f.NeverEnds r where
  descendants := hf.list_endless (fun c l => c :: l) (fun _ below => below.flatten)
    (fun _ => rfl) (fun _ _ => rfl) hr
  postOrder := by
    refine hf.list_endless (fun _ l => l) (fun r below => below.flatten ++ [r])
      (fun _ => rfl) (fun k r => ?_) hr
    rw [postOrderFrom]
    simp only [bind_pure]
  hasTests := by
    intro k
    induction k generalizing r with
    | zero =>
        intro h
        cases h
    | succ k ih =>
        intro h
        obtain ⟨c, hc, hcc⟩ := hf.exists_child_above hr
        rw [hasTestsFrom] at h
        split at h
        · cases h
        · exact ih hcc (anyM_eq_ok_false h c hc)
  find? := by
    intro id k
    induction k generalizing r with
    | zero =>
        intro h
        cases h
    | succ k ih =>
        intro h
        obtain ⟨c, hc, hcc⟩ := hf.exists_child_above hr
        rw [findFrom] at h
        split at h
        · cases h
        · exact ih hcc (findSomeM?_eq_ok_none h c hc)
  accept := by
    intro visit k
    induction k generalizing r with
    | zero =>
        intro h
        cases h
    | succ k ih =>
        intro h
        obtain ⟨c, hc, hcc⟩ := hf.exists_child_above hr
        obtain ⟨⟨⟩, -, h⟩ := bind_eq_ok h
        exact ih hcc (forM_eq_ok h c hc)

/-! ## Any calls -/

/-- The last edit is made on what the others leave. -/
theorem Edit.outcome_snoc (edits : List Edit) (e : Edit) :
    outcome (edits ++ [e]) = (e.perform.on (outcome edits)).2 := by
  rw [outcome, List.foldl_append]
  rfl

/-- As long as no node is put under one that it is above, there is no cycle, and no longer. -/
theorem acyclic_so_far_iff (edits : List Edit) :
    (∀ before, before <+: edits → (Edit.outcome before).Acyclic) ↔
      ∀ before e, before ++ [e] <+: edits → ¬ e.Closes (Edit.outcome before) := by
  induction edits using List.reverseRecOn with
  | nil =>
      refine iff_of_true ?_ ?_
      · intro before h
        rw [List.prefix_nil.mp h]
        exact acyclic_empty
      · intro before e h
        exact absurd (List.prefix_nil.mp h) (by simp)
  | append_singleton edits e ih =>
      constructor
      · intro h before e' hbefore
        have hacyclic := h before ((List.prefix_append before [e']).trans hbefore)
        rw [← acyclic_perform_iff (linked_outcome before) hacyclic, ← Edit.outcome_snoc]
        exact h _ hbefore
      · intro h before hbefore
        have hedits := ih.mpr fun before e' hbefore' =>
          h before e' (hbefore'.trans (List.prefix_append edits [e]))
        rcases List.prefix_concat_iff.mp hbefore with rfl | hbefore
        · rw [Edit.outcome_snoc,
            acyclic_perform_iff (linked_outcome edits) (hedits edits List.prefix_rfl)]
          exact h edits e List.prefix_rfl
        · exact hedits before hbefore

/-- **Cycles come from one kind of call, and walks end off them.**  No calls, refused or not,
    ever make a cycle, up to the first that puts a node under one that it is above, and that
    call does.  Whatever calls were made, every walk from a node that is not above itself goes
    over a tree and ends, and none from any other node does. -/
theorem acyclic_throughout_iff (edits : List Edit) :
    ((∀ before, before <+: edits → (Edit.outcome before).Acyclic) ↔
      ∀ before e, before ++ [e] <+: edits → ¬ e.Closes (Edit.outcome before)) ∧
    ∀ r n, (Edit.outcome edits).node? r = some n →
      (¬ (Edit.outcome edits).Above r r →
        (Edit.outcome edits).WalksOver r (Grove.tree r ((Edit.outcome edits).below r))) ∧
      ((Edit.outcome edits).Above r r → (Edit.outcome edits).NeverEnds r) := by
  refine ⟨acyclic_so_far_iff edits, fun r n hr => ⟨fun h => ?_, fun h => ?_⟩⟩
  · exact (linked_outcome edits).walksOver hr h
  · exact (linked_outcome edits).neverEnds h

/-- Two nodes, each put under the other. -/
def crossing : List Edit :=
  let id (name : String) : Option UniqueId := (UniqueId.forEngine name).toOption
  [.build (id "a") "a" .container ∅ none, .build (id "b") "b" .container ∅ none,
    .addChild ⟨0⟩ (some ⟨1⟩), .addChild ⟨1⟩ (some ⟨0⟩)]

/-- Putting the second under the first is not refused, and then both are above themselves. -/
theorem acyclic_throughout_crossing :
    (Edit.addChild ⟨1⟩ (some ⟨0⟩)).Closes (Edit.outcome (crossing.take 3)) ∧
    (¬ ∀ before, before <+: crossing → (Edit.outcome before).Acyclic) ∧
    (Edit.outcome crossing).Above ⟨0⟩ ⟨0⟩ ∧ (Edit.outcome crossing).NeverEnds ⟨0⟩ := by
  obtain ⟨hiff, hwalks⟩ := acyclic_throughout_iff crossing
  have hone : (Edit.outcome (crossing.take 3)).parent? ⟨1⟩ = some ⟨0⟩ := by decide +kernel
  have hup : (Edit.outcome crossing).parent? ⟨0⟩ = some ⟨1⟩ := by decide +kernel
  have hdown : (Edit.outcome crossing).parent? ⟨1⟩ = some ⟨0⟩ := by decide +kernel
  have htaken : ((Edit.addChild ⟨1⟩ (some ⟨0⟩)).perform.on
      (Edit.outcome (crossing.take 3))).1 = .ok () := by decide +kernel
  have habove : (Edit.outcome crossing).Above ⟨0⟩ ⟨0⟩ := .tail (.single hup) hdown
  have hcloses : (Edit.addChild ⟨1⟩ (some ⟨0⟩)).Closes (Edit.outcome (crossing.take 3)) :=
    ⟨htaken, ⟨1⟩, ⟨0⟩, rfl, .single hone⟩
  obtain ⟨n, hn, -⟩ := Option.bind_eq_some_iff.mp hup
  refine ⟨hcloses, ?_, habove, (hwalks ⟨0⟩ n hn).2 habove⟩
  intro hacyclic
  exact hiff.mp hacyclic (crossing.take 3) _ List.prefix_rfl hcloses

end TestLauncher.Forest
