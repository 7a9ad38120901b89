import TestLauncher.Proofs.Forest.Rooted
import TestLauncher.Proofs.Forest.Thinning

/-! # Thinning where links agree

    Trees that are thinned one after the other need not stand apart: one root may stand in
    the tree of another, or be given twice.  Thinning only cuts links (`Loosened`), both
    ends of each at once, so links that agree still agree after it, and a way up that ended
    still ends, perhaps sooner.  So thinning trees one after the other comes to an end when
    every question is answered, as long as no root stands on a cycle
    (`Linked.forM_thinBelow`). -/

namespace TestLauncher.Forest

variable {f g h : Forest} {roots : List NodeRef} {r p c : NodeRef} {k : Nat}

/-! ## Cutting links -/

/-- Some links may have been cut, and none were made. -/
structure Loosened (f g : Forest) : Prop where
  bare : ∀ x, g.bare? x = f.bare? x
  parent : ∀ x, g.parent? x = f.parent? x ∨ g.parent? x = none
  children : ∀ x, g.children x ⊆ f.children x
  size : g.size = f.size

theorem Loosened.refl (f : Forest) : f.Loosened f :=
  ⟨fun _ => rfl, fun _ => Or.inl rfl, fun _ => List.Subset.refl _, rfl⟩

theorem Loosened.trans (hfg : f.Loosened g) (hgh : g.Loosened h) : f.Loosened h := by
  refine ⟨fun x => (hgh.bare x).trans (hfg.bare x), ?_,
    fun x => List.Subset.trans (hgh.children x) (hfg.children x), hgh.size.trans hfg.size⟩
  intro x
  rcases hgh.parent x with hx | hx
  · rw [hx]
    exact hfg.parent x
  · exact Or.inr hx

theorem Loosened.exists_node (hfg : f.Loosened g) {n : Node} (hr : f.node? r = some n) :
    ∃ m, g.node? r = some m := by
  have hbare := hfg.bare r
  rw [bare?, bare?, hr] at hbare
  obtain ⟨m, hm, -⟩ := Option.map_eq_some_iff.mp hbare
  exact ⟨m, hm⟩

/-- A way up that ends still ends. -/
theorem Loosened.deep (hfg : f.Loosened g) (hr : f.Deep k r) : ∃ j, g.Deep j r := by
  have htop : ∀ {r : NodeRef} {n : Node}, f.node? r = some n → g.parent? r = none →
      ∃ j, g.Deep j r := by
    intro r n hn hp
    obtain ⟨m, hm⟩ := hfg.exists_node hn
    rw [parent?_of_node? hm] at hp
    exact ⟨0, .top hm hp⟩
  induction hr with
  | @top r n hn hp =>
      refine htop hn ?_
      rcases hfg.parent r with h | h
      · rw [h, parent?_of_node? hn, hp]
      · exact h
  | @under k p c hc _ ih =>
      rcases hfg.parent c with h | h
      · obtain ⟨j, hj⟩ := ih
        exact ⟨j + 1, .under (h.trans hc) hj⟩
      · obtain ⟨n, hn, -⟩ := Option.bind_eq_some_iff.mp hc
        exact htop hn h

theorem loosened_unlink {n q : Node} (hc : f.node? c = some n) (hp : f.node? p = some q)
    (id : UniqueId) : f.Loosened (f.unlink p c id) := by
  refine ⟨?_, ?_, ?_, ?_⟩
  · intro x
    have hdrop : (f.dropChild p id).bare? x = f.bare? x := by
      rw [bare?, bare?, dropChild, node?_modify]
      split
      · rw [Option.map_map]
        rfl
      · rfl
    rw [← hdrop, bare?, bare?, unlink, setParent, node?_modify]
    split
    · rw [Option.map_map]
      rfl
    · rfl
  · intro x
    rw [parent?_unlink hc]
    split
    · exact Or.inr rfl
    · exact Or.inl rfl
  · intro x d hd
    obtain ⟨k, hk⟩ := mem_children_iff.mp hd
    rw [child?_unlink hp] at hk
    split at hk
    · cases hk
    · exact mem_children_iff.mpr ⟨k, hk⟩
  · rw [unlink, setParent, dropChild, size_modify, size_modify]

theorem loosened_removeChild (f : Forest) (p c : NodeRef) : f.Loosened (f.removeChild p c) := by
  rcases removeChild_cases f p c with h | ⟨n, hc, hkept, h⟩
  · rw [h]
    exact .refl f
  · obtain ⟨q, hq, -⟩ := Option.bind_eq_some_iff.mp hkept
    rw [h]
    exact loosened_unlink hc hq n.id

/-- A node keeps all other children. -/
theorem mem_children_removeChild {d : NodeRef} (hd : d ∈ f.children r) (hdc : d ≠ c) :
    d ∈ (f.removeChild p c).children r := by
  rcases removeChild_cases f p c with h | ⟨n, -, hkept, h⟩
  · rw [h]
    exact hd
  · obtain ⟨k, hk⟩ := mem_children_iff.mp hd
    obtain ⟨q, hq, -⟩ := Option.bind_eq_some_iff.mp hkept
    rw [h, mem_children_iff]
    refine ⟨k, ?_⟩
    rw [child?_unlink hq, if_neg ?_]
    · exact hk
    · rintro ⟨rfl, rfl⟩
      exact hdc (Option.some.inj (hk.symm.trans hkept))

theorem loosened_detach (hd : f.detach r = .ok g) : f.Loosened g := by
  have hfold : ∀ (cs : List NodeRef) (f : Forest),
      f.Loosened (cs.foldl (fun f c => f.removeChild r c) f) := by
    intro cs
    induction cs with
    | nil => exact .refl
    | cons c cs ih => exact fun f => (loosened_removeChild f r c).trans (ih _)
  rw [Forest.detach] at hd
  split at hd
  · cases hd
    exact .refl f
  · split at hd
    · cases hd
    · cases hd
      exact (loosened_removeChild f _ r).trans (hfold _ _)

/-- When a node without children is taken away, no other link is cut. -/
theorem mem_children_detach (hd : f.detach r = .ok g) (hr : f.children r = []) (hc : c ∈ f.children p)
    (hcr : c ≠ r) : c ∈ g.children p := by
  rw [Forest.detach] at hd
  split at hd
  · cases hd
    exact hc
  · rename_i n _
    cases hp : n.parent with
    | none =>
        rw [hp] at hd
        cases hd
    | some q =>
        rw [hp] at hd
        have hleaf : (f.removeChild q r).children r = [] :=
          List.subset_nil.mp (hr ▸ (loosened_removeChild f q r).children r)
        dsimp only at hd
        rw [hleaf] at hd
        cases hd
        exact mem_children_removeChild hc hcr

/-- Where there are no links, links agree. -/
theorem linked_of_unlinked
    (h : ∀ r n, f.node? r = some n → n.parent = none ∧ n.children.values = []) : f.Linked := by
  have hparent : ∀ x, f.parent? x = none := by
    intro x
    cases hx : f.node? x with
    | none => rw [parent?, hx, Option.bind_none]
    | some n => rw [parent?_of_node? hx, (h x n hx).1]
  have hchild : ∀ p id c, f.child? p id ≠ some c := by
    intro p id c hc
    have hmem : c ∈ f.children p := mem_children_iff.mpr ⟨id, hc⟩
    cases hp : f.node? p with
    | none =>
        rw [children, hp] at hmem
        cases hmem
    | some n =>
        rw [children, hp] at hmem
        dsimp only at hmem
        rw [(h p n hp).2] at hmem
        cases hmem
  refine ⟨fun p id c => ⟨fun hc => absurd hc (hchild p id c), ?_⟩, ?_⟩
  · rintro ⟨-, hp⟩
    rw [hparent] at hp
    cases hp
  · intro c hc
    rw [hparent] at hc
    cases hc

/-! ## Thinning -/

section

variable {σ : Type} {P : σ → Prop} {look : Steps σ Forest} {visit : NodeRef → Steps σ Unit}
  (hlook : ∀ s, (look.on s).2 = s) (hvisit : ∀ r s t, P s → (visit r).on s = (.ok (), t) → P t)
  {s t : σ} (hs : P s)

include hlook hvisit hs

/-- What every visit preserves, a walk preserves. -/
theorem visitPostOrderFrom_preserves {n : Nat}
    (h : (visitPostOrderFrom look visit n r).on s = (.ok (), t)) : P t := by
  induction n generalizing r s t with
  | zero => cases h
  | succ n ih =>
      obtain ⟨f, s', hon, h⟩ := Steps.on_bind_eq_ok h
      obtain rfl : s = s' := by rw [← hlook s, hon]
      obtain ⟨u, s₁, hloop, h⟩ := Steps.on_bind_eq_ok h
      exact hvisit r s₁ t (Steps.forM_preserves (fun _ _ _ _ hs hon => ih hs hon) hs hloop) h

theorem visitPostOrder_preserves (h : (visitPostOrder look visit r).on s = (.ok (), t)) : P t := by
  obtain ⟨f, s', hon, h⟩ := Steps.on_bind_eq_ok h
  obtain rfl : s = s' := by rw [← hlook s, hon]
  exact visitPostOrderFrom_preserves hlook hvisit hs h

end

/-- Asking about a node changes nothing, or takes the node away when it has no children. -/
theorem thinNode_cases {ask : Question} {root : NodeRef}
    (h : (thinNode ask root r).on f = (.ok (), g)) :
    g = f ∨ f.children r = [] ∧ f.detach r = .ok g := by
  rw [thinNode, Steps.on_bind_ok (Steps.on_get f)] at h
  cases hr : f.node? r with
  | none =>
      rw [hr] at h
      cases h
      exact Or.inl rfl
  | some n =>
      rw [hr] at h
      dsimp only at h
      split at h
      · cases h
        exact Or.inl rfl
      · rename_i hleaf
        have hempty : f.children r = [] := by
          have hentries : ¬ r = root ∧ n.children.isEmpty = true := by simpa using hleaf
          rw [children, hr]
          exact List.map_eq_nil_iff.mpr (List.isEmpty_iff.mp hentries.2)
        obtain ⟨stay, f₁, hask, h⟩ := Steps.on_bind_eq_ok h
        rw [Steps.on_ofExcept] at hask
        injection hask with _ hf₁
        subst hf₁
        cases stay with
        | true =>
            cases h
            exact Or.inl rfl
        | false =>
            have huproot : (uproot r).on f = (.ok (), g) := h
            rw [on_uproot] at huproot
            cases hd : f.detach r with
            | error e =>
                rw [hd] at huproot
                cases huproot
            | ok f' =>
                rw [hd] at huproot
                cases huproot
                exact Or.inr ⟨hempty, rfl⟩

theorem loosened_thinNode {ask : Question} {root : NodeRef}
    (h : (thinNode ask root r).on f = (.ok (), g)) : f.Loosened g := by
  rcases thinNode_cases h with rfl | ⟨-, hd⟩
  · exact .refl _
  · exact loosened_detach hd

/-- Thinning cuts links at both ends. -/
theorem Linked.of_thinBelow (hf : f.Linked) {ask : Question}
    (h : (thinBelow ask r).on f = (.ok (), g)) : g.Linked ∧ f.Loosened g := by
  refine visitPostOrder_preserves (P := fun g => g.Linked ∧ f.Loosened g) (fun _ => rfl) ?_
    ⟨hf, .refl f⟩ h
  rintro x g₁ g₂ ⟨hlinked, hloose⟩ hon
  refine ⟨?_, hloose.trans (loosened_thinNode hon)⟩
  rcases thinNode_cases hon with rfl | ⟨-, hd⟩
  · exact hlinked
  · exact hlinked.detach hd

/-- Thinning the tree below a root comes to an end when every question is answered. -/
theorem Linked.thinBelow_ok (hf : f.Linked) {ask : Question}
    (hask : ∀ f r, ∃ stay, ask f r = .ok stay) (hr : f.Deep k r) :
    ∃ g, (thinBelow ask r).on f = (.ok (), g) := by
  have hhung : f.Hung [r] := hf.hung fun x hx => by
    rw [List.mem_singleton.mp hx]
    exact ⟨k, hr⟩
  have hreached : f.Reached [r] r := .root (List.mem_singleton.mpr rfl)
  obtain ⟨hroots, hbelow⟩ := hhung.holds_below hreached
  have hstands := hhung.stands hreached
  rw [← hroots] at hstands
  obtain ⟨v, hv, hthin⟩ := on_thinBelow (List.forall_mem_nil _) hstands hbelow (hhung.nodup_below hreached)
  obtain ⟨b', hb'⟩ : ∃ b', (f.below r).thin v = .ok b' := by
    refine Grove.thin_ok ?_
    intro x hx
    obtain ⟨rest, hpath⟩ := Grove.exists_path [r] hx
    obtain ⟨f', -, hvx⟩ := hv x rest hpath
    rw [hvx]
    exact hask f' x
  rw [hb'] at hthin
  obtain ⟨g, hon, -⟩ := hthin
  exact ⟨g, hon⟩

/-- **Thinning trees one after the other** comes to an end when every question is answered and no
    root stands on a cycle, and then the same holds for what is left. -/
theorem Linked.forM_thinBelow (hf : f.Linked) {ask : Question}
    (hask : ∀ f r, ∃ stay, ask f r = .ok stay) {rs : List NodeRef}
    (hrs : ∀ r ∈ rs, ∃ k, f.Deep k r) :
    ∃ g, (rs.forM (thinBelow ask)).on f = (.ok (), g) ∧ g.Linked ∧ f.Loosened g := by
  induction rs generalizing f with
  | nil => exact ⟨f, rfl, hf, .refl f⟩
  | cons r rs ih =>
      obtain ⟨k, hk⟩ := hrs r (by simp)
      obtain ⟨f₁, hon₁⟩ := hf.thinBelow_ok hask hk
      obtain ⟨hf₁, hloose₁⟩ := hf.of_thinBelow hon₁
      have hrs₁ : ∀ x ∈ rs, ∃ j, f₁.Deep j x := by
        intro x hx
        obtain ⟨j, hj⟩ := hrs x (by simp [hx])
        exact hloose₁.deep hj
      obtain ⟨g, hon, hg, hloose⟩ := ih hf₁ hrs₁
      exact ⟨g, (Steps.on_bind_ok hon₁ _).trans hon, hg, hloose₁.trans hloose⟩

end TestLauncher.Forest
