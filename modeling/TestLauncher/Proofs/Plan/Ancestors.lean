import Mathlib.Logic.Relation
import TestLauncher.Proofs.Plan.Faithful

/-! # What is above an identifier of a plan

    A plan tells one parent at a time who is above an identifier, and all at once what is
    below one.  In a plan made from roots the two agree (`Layered`): going down from an
    identifier lists, each once, exactly those from which the way up passes it. -/

namespace TestLauncher.TestPlan

variable {f : Forest} {rs : List NodeRef} {plan : TestPlan}

/-- The second identifier is the first one, or the plan has it above the first one. -/
def AtOrAbove (plan : TestPlan) : Identifier → Identifier → Prop :=
  Relation.ReflTransGen fun c p => plan.parentOf c = some p

/-- Nobody stands above an identifier without a parent. -/
theorem AtOrAbove.mem_singleton {i a : Identifier} (h : plan.AtOrAbove i a)
    (hi : plan.parentOf i = none) : a ∈ [i] := by
  rcases h.cases_head with rfl | ⟨p, hp, -⟩
  · exact List.mem_singleton_self _
  · rw [hi] at hp
    cases hp

/-- Above an identifier stand its parent and who is above that. -/
theorem AtOrAbove.mem_cons {i p a : Identifier} {above : List Identifier}
    (h : plan.AtOrAbove i a) (hi : plan.parentOf i = some p)
    (habove : ∀ b, plan.AtOrAbove p b → b ∈ above) : a ∈ i :: above := by
  rcases h.cases_head with rfl | ⟨q, hq, hrest⟩
  · exact List.mem_cons_self ..
  · rw [hi] at hq
    cases hq
    exact List.mem_cons_of_mem _ (habove a hrest)

/-- A plan that lists below an identifier what has that identifier above it. -/
structure Layered (plan : TestPlan) : Prop where
  distinct : plan.identifiers.values.Nodup
  contains : ∀ i ∈ plan.identifiers.values, plan.contains i.id = true
  descendants : ∀ a ∈ plan.identifiers.values, ∃ ds, plan.descendantsOf a = .ok ds ∧
    (a :: ds).Nodup ∧
    ∀ i, i ∈ a :: ds ↔ i ∈ plan.identifiers.values ∧ plan.AtOrAbove i a

section

variable (h : f.Rooted rs)

include h

/-- A plan is made of nodes with different ids only. -/
theorem distinct_of_ofRoots (hplan : ofRoots f rs = .ok plan) :
    ((f.identifiers (f.preorder rs)).map Identifier.id).Nodup := by
  rw [ofRoots_eq_of_rooted h] at hplan
  cases hpush : pushAll (f.identifiers (f.preorder rs)) {} with
  | error e =>
      rw [hpush] at hplan
      cases hplan
  | ok made => exact (lists_empty.pushAll hpush).distinct

/-- The parent that the plan has for a child is the node that has the child. -/
theorem parentOf_child (hplan : ofRoots f rs = .ok plan) {p c : NodeRef} {i : Identifier}
    (hp : f.Reached rs p) (hc : c ∈ f.children p) (hcr : c ∈ f.preorder rs)
    (hi : f.identifier? c = some i) :
    p ∈ f.preorder rs ∧ ∃ k, f.identifier? p = some k ∧ plan.parentOf i = some k := by
  obtain ⟨hidx, -⟩ := indexes_of_rooted h (distinct_of_ofRoots h hplan) hplan
  have hg := h.holds_grove
  have hlist : (f.grove rs).toList = f.preorder rs := h.toList_grove
  have hroots : (f.grove rs).roots = rs := Forest.roots_rowFrom f.size rs
  have hcp := h.hung.parent_of_mem_children hp hc
  have htop : c ∉ (f.grove rs).roots := by
    rw [hroots]
    intro hmem
    obtain ⟨n, hn, hnone⟩ := h.parentless c hmem
    rw [Forest.parent?_of_node? hn, hnone] at hcp
    cases hcp
  rw [← hlist] at hcr ⊢
  refine ⟨(Forest.parent_mem_of_holds hg hcr hcp).resolve_right ?_,
    hidx.parentOf hg hcr htop hi hcp⟩
  rintro ⟨⟩

/-- The way up in the plan is the way up in the forest. -/
theorem atOrAbove_iff (hplan : ofRoots f rs = .ok plan) {r x : NodeRef} {a i : Identifier}
    (hr : r ∈ f.preorder rs) (ha : f.identifier? r = some a) (hx : x ∈ f.preorder rs)
    (hi : f.identifier? x = some i) : plan.AtOrAbove i a ↔ x ∈ f.subtree r := by
  have hids := distinct_of_ofRoots h hplan
  obtain ⟨hidx, -⟩ := indexes_of_rooted h hids hplan
  have hreached := h.hung.reached_of_mem_subtree hr
  rw [h.hung.mem_subtree_iff hreached]
  constructor
  · intro hup
    induction hup using Relation.ReflTransGen.head_induction_on generalizing x with
    | refl =>
        have hsame := Forest.eq_of_idText? hids hx hr (Forest.id_of_identifier? hi).1
          (Forest.id_of_identifier? ha).1
        rw [hsame]
        exact Forest.reached_self
    | @head c p hcp _ ih =>
        cases h.hung.reached_of_mem_subtree hx with
        | root hmem =>
            have hroots : (f.grove rs).roots = rs := Forest.roots_rowFrom f.size rs
            rw [hidx.parentOf_root (by rwa [hroots]) hi] at hcp
            cases hcp
        | child hq hxq =>
            obtain ⟨hqr, k, hk, hkp⟩ := parentOf_child h hplan hq hxq hx hi
            rw [hcp] at hkp
            cases hkp
            exact .child (ih hqr hk) hxq
  · intro hdown
    induction hdown generalizing i with
    | root hmem =>
        rw [List.mem_singleton.mp hmem, ha] at hi
        cases hi
        exact .refl
    | child hp hc ih =>
        obtain ⟨hpr, k, hk, hkp⟩ := parentOf_child h hplan (hreached.trans hp) hc hx hi
        exact .head hkp (ih hpr hk)

/-- **Going down a plan undoes going up.** -/
theorem layered_of_ofRoots (hplan : ofRoots f rs = .ok plan) : plan.Layered := by
  have hids := distinct_of_ofRoots h hplan
  obtain ⟨hidx, hn⟩ := indexes_of_rooted h hids hplan
  have hg := h.holds_grove
  have hlist : (f.grove rs).toList = f.preorder rs := h.toList_grove
  have hvalues : plan.identifiers.values = f.identifiers (f.preorder rs) := by
    rw [hidx.lists.values, hlist]
  rw [← hlist] at hids
  refine ⟨?_, ?_, ?_⟩
  · rw [hidx.lists.values]
    exact List.Nodup.of_map _ hids
  · intro i hi
    rw [contains, OrderedMap.contains_iff, hidx.lists.keys]
    rw [hidx.lists.values] at hi
    exact List.mem_map_of_mem hi
  · intro a ha
    rw [hvalues] at ha ⊢
    obtain ⟨r, hr, hra⟩ := Forest.exists_of_mem_identifiers ha
    have hrg : r ∈ (f.grove rs).toList := hlist ▸ hr
    have hunder := Forest.subtree_eq hg hn hrg
    have hsubtree := h.hung.subtree (h.hung.reached_of_mem_subtree hr)
    rw [hsubtree] at hunder
    have hwhole : a :: f.identifiers (f.below r).toList = f.identifiers (f.subtree r) := by
      rw [hsubtree, Forest.identifiers_cons hra]
    have hsub : (f.subtree r).Sublist (f.preorder rs) := by
      rw [hsubtree, hunder, ← hlist]
      exact (f.grove rs).under_sublist r
    refine ⟨_, hidx.descendantsOf hg hn hra hrg hunder.symm, ?_, ?_⟩
    · rw [hwhole]
      rw [hlist] at hids
      exact (List.Nodup.of_map _ hids).sublist (hsub.filterMap _)
    · intro i
      rw [hwhole]
      constructor
      · intro hi
        obtain ⟨x, hx, hxi⟩ := Forest.exists_of_mem_identifiers hi
        exact ⟨List.mem_filterMap.mpr ⟨x, hsub.mem hx, hxi⟩,
          (atOrAbove_iff h hplan hr hra (hsub.mem hx) hxi).mpr hx⟩
      · rintro ⟨hi, hup⟩
        obtain ⟨x, hx, hxi⟩ := Forest.exists_of_mem_identifiers hi
        exact List.mem_filterMap.mpr ⟨x, (atOrAbove_iff h hplan hr hra hx hxi).mp hup, hxi⟩

end

end TestLauncher.TestPlan
