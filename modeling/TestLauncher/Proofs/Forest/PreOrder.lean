import TestLauncher.Proofs.Forest.Cutting
import TestLauncher.Proofs.Forest.PostOrder

/-! # The pre-order of a tree that is cut while it is walked

    The walk in pre-order reads the children of a node after it has visited the node.  So a
    visitor that takes away the marked nodes it visits (`PlucksMarked`) hides from the walk
    what was below them, and nothing else: the walk visits the tree as it stood, with the
    subtree of each marked node it comes to cropped down to that node (`on_accept`). -/

namespace TestLauncher

namespace Grove

variable {α : Type}

/-- The grove with nothing below marked nodes. -/
def crop (marked : α → Bool) : Grove α → Grove α
  | nil => nil
  | cons a below beside =>
      cons a (if marked a then nil else below.crop marked) (beside.crop marked)

variable {marked : α → Bool}

/-- Nothing is left below a marked root. -/
theorem crop_cons_marked {a : α} (h : marked a = true) (b s : Grove α) :
    (cons a b s).crop marked = cons a nil (s.crop marked) := by
  rw [crop, if_pos h]

/-- Below a root that is not marked the crop goes on. -/
theorem crop_cons_unmarked {a : α} (h : marked a = false) (b s : Grove α) :
    (cons a b s).crop marked = cons a (b.crop marked) (s.crop marked) := by
  rw [crop, if_neg (Bool.eq_false_iff.mp h)]

/-- Trees side by side are cropped one by one. -/
theorem crop_cons (a : α) (b s : Grove α) :
    (cons a b s).crop marked = (tree a b).crop marked ++ s.crop marked := rfl

/-- Of the tree of a marked root the root is left. -/
theorem toList_crop_marked {a : α} (h : marked a = true) (b : Grove α) :
    ((tree a b).crop marked).toList = [a] := by
  rw [tree, crop_cons_marked h]
  rfl

/-- Of the tree of another root the root is left, and what is left below it. -/
theorem toList_crop_unmarked {a : α} (h : marked a = false) (b : Grove α) :
    ((tree a b).crop marked).toList = a :: (b.crop marked).toList := by
  rw [tree, crop_cons_unmarked h, toList_cons, crop, toList_nil, List.append_nil]

/-- All roots are left. -/
theorem roots_crop (g : Grove α) : (g.crop marked).roots = g.roots := by
  induction g with
  | nil => rfl
  | cons a b s _ ihs => rw [crop, roots_cons, roots_cons, ihs]

/-- What is left is in the order it was in. -/
theorem sublist_crop (g : Grove α) : (g.crop marked).toList.Sublist g.toList := by
  induction g with
  | nil => exact List.Sublist.slnil
  | cons a b s ihb ihs =>
      cases ha : marked a with
      | true =>
          rw [crop_cons_marked ha]
          exact (ihs.trans (List.sublist_append_right ..)).cons_cons a
      | false =>
          rw [crop_cons_unmarked ha]
          exact (ihb.append ihs).cons_cons a

/-- Without marked nodes everything is left. -/
theorem crop_of_forall (h : ∀ a, marked a = false) (g : Grove α) : g.crop marked = g := by
  induction g with
  | nil => rfl
  | cons a b s ihb ihs => rw [crop_cons_unmarked (h a), ihb, ihs]

/-- What is left when marked nodes go with all that is below them was not below one. -/
theorem sublist_keep_crop (g : Grove α) :
    (g.keep fun a => !marked a).toList.Sublist (g.crop marked).toList := by
  induction g with
  | nil => exact List.Sublist.slnil
  | cons a b s ihb ihs =>
      rw [keep]
      cases ha : marked a with
      | true =>
          rw [crop_cons_marked ha]
          exact ihs.cons a
      | false =>
          rw [crop_cons_unmarked ha]
          exact (ihb.append ihs).cons_cons a

/-- What is left depends on the marks of the nodes that are not below a marked one. -/
theorem keep_of_crop {p : α → Bool} {g : Grove α}
    (h : ∀ a ∈ (g.crop marked).toList, p a = !marked a) :
    g.keep p = g.keep fun a => !marked a := by
  induction g with
  | nil => rfl
  | cons a b s ihb ihs =>
      rw [crop, toList_cons] at h
      have hs := ihs fun x hx => h x (by simp [hx])
      rw [keep, keep, h a (by simp), hs]
      cases ha : marked a with
      | true => rfl
      | false =>
          rw [ha, if_neg Bool.false_ne_true] at h
          rw [ihb fun x hx => h x (by simp [hx])]

/-! ## Who is below a marked node -/

section

variable [DecidableEq α] {c x d : α} {b s : Grove α} (hn : (cons c b s).toList.Nodup)

include hn

/-- A root is under itself only. -/
theorem mem_under_root : c ∈ (cons c b s).under d ↔ d = c := by
  obtain ⟨hcb, hcs, -, -, -⟩ := nodup_cons.mp hn
  by_cases hd : c = d
  · subst hd
    rw [under_cons_self]
    simp
  · rw [under_cons_ne hd, List.mem_append]
    refine iff_of_false ?_ (Ne.symm hd)
    rintro (h | h)
    · exact hcb (under_subset h)
    · exact hcs (under_subset h)

/-- What is below the first root is under that root, or under what it is under below it. -/
theorem mem_under_of_below (hx : x ∈ b.toList) :
    x ∈ (cons c b s).under d ↔ d = c ∨ x ∈ b.under d := by
  obtain ⟨-, -, -, -, hbs⟩ := nodup_cons.mp hn
  by_cases hd : c = d
  · subst hd
    rw [under_cons_self]
    simp [hx]
  · rw [under_cons_ne hd, List.mem_append, or_iff_right (Ne.symm hd)]
    exact or_iff_left fun h => hbs x hx (under_subset h)

/-- What is beside the first tree is under what it is under there. -/
theorem mem_under_of_beside (hx : x ∈ s.toList) :
    x ∈ (cons c b s).under d ↔ x ∈ s.under d := by
  obtain ⟨-, hcs, -, -, hbs⟩ := nodup_cons.mp hn
  by_cases hd : c = d
  · subst hd
    rw [under_cons_self, under_eq_nil hcs]
    refine iff_of_false ?_ List.not_mem_nil
    intro h
    rcases List.mem_cons.mp h with rfl | h
    · exact hcs hx
    · exact hbs x h hx
  · rw [under_cons_ne hd, List.mem_append]
    exact or_iff_right fun h => hbs x (under_subset h) hx

end

/-- What has something under it is in the grove. -/
theorem mem_of_mem_under [DecidableEq α] {g : Grove α} {x d : α} (h : x ∈ g.under d) :
    d ∈ g.toList := by
  by_contra hd
  rw [under_eq_nil hd] at h
  exact List.not_mem_nil h

/-- Whether no marked node stands above a node of the grove. -/
def Uncovered [DecidableEq α] (marked : α → Bool) (g : Grove α) (x : α) : Prop :=
  ∀ d ∈ g.toList, marked d = true → x ∈ g.under d → x = d

section

variable [DecidableEq α] {c x : α} {b s : Grove α} (hn : (cons c b s).toList.Nodup)

include hn

/-- No root is covered. -/
theorem uncovered_root : (cons c b s).Uncovered marked c :=
  fun _ _ _ h => ((mem_under_root hn).mp h).symm

/-- Below a root a node is uncovered if the root is not marked and nothing covers it there. -/
theorem uncovered_below (hx : x ∈ b.toList) :
    (cons c b s).Uncovered marked x ↔ marked c = false ∧ b.Uncovered marked x := by
  constructor
  · intro h
    refine ⟨Bool.eq_false_iff.mpr fun hc => ?_, fun d hd hm hu => ?_⟩
    · have hxc := h c (by simp) hc ((mem_under_of_below hn hx).mpr (Or.inl rfl))
      exact (nodup_cons.mp hn).1 (hxc ▸ hx)
    · exact h d (by simp [hd]) hm ((mem_under_of_below hn hx).mpr (Or.inr hu))
  · rintro ⟨hc, h⟩ d - hm hu
    rcases (mem_under_of_below hn hx).mp hu with rfl | hu
    · rw [hc] at hm
      cases hm
    · exact h d (mem_of_mem_under hu) hm hu

/-- Beside the first tree a node is uncovered if nothing covers it there. -/
theorem uncovered_beside (hx : x ∈ s.toList) :
    (cons c b s).Uncovered marked x ↔ s.Uncovered marked x := by
  constructor
  · intro h d hd hm hu
    exact h d (by simp [hd]) hm ((mem_under_of_beside hn hx).mpr hu)
  · intro h d _ hm hu
    have hu' := (mem_under_of_beside hn hx).mp hu
    exact h d (mem_of_mem_under hu') hm hu'

end

instance [DecidableEq α] (g : Grove α) (x : α) : Decidable (g.Uncovered marked x) :=
  inferInstanceAs (Decidable (∀ d ∈ g.toList, marked d = true → x ∈ g.under d → x = d))

/-- Cropping leaves the nodes that have no marked node above them, in the order they had. -/
theorem toList_crop [DecidableEq α] {g : Grove α} (hn : g.toList.Nodup) :
    (g.crop marked).toList = g.toList.filter fun x => decide (g.Uncovered marked x) := by
  induction g with
  | nil => rfl
  | cons c b s ihb ihs =>
      obtain ⟨-, -, hnb, hns, -⟩ := nodup_cons.mp hn
      have hbeside : s.toList.filter (fun x => decide ((cons c b s).Uncovered marked x))
          = (s.crop marked).toList := by
        rw [ihs hns]
        exact List.filter_congr fun x hx => decide_eq_decide.mpr (uncovered_beside hn hx)
      have hroot : decide ((cons c b s).Uncovered marked c) = true :=
        decide_eq_true (uncovered_root hn)
      rw [toList_cons, List.filter_cons, if_pos hroot, List.filter_append, hbeside]
      cases hc : marked c with
      | true =>
          have hbelow : b.toList.filter (fun x => decide ((cons c b s).Uncovered marked x)) = [] := by
            rw [List.filter_eq_nil_iff]
            intro x hx h
            have hunmarked := ((uncovered_below hn hx).mp (of_decide_eq_true h)).1
            rw [hc] at hunmarked
            cases hunmarked
          rw [crop_cons_marked hc, hbelow]
          rfl
      | false =>
          have hbelow : b.toList.filter (fun x => decide ((cons c b s).Uncovered marked x))
              = (b.crop marked).toList := by
            rw [ihb hnb]
            refine List.filter_congr fun x hx => decide_eq_decide.mpr ?_
            rw [uncovered_below hn hx, and_iff_right hc]
          rw [crop_cons_unmarked hc, hbelow]
          rfl

/-- What is left when marked nodes go with all below them are the unmarked nodes that are not
    below one. -/
theorem toList_keep_unmarked (g : Grove α) :
    (g.keep fun a => !marked a).toList = (g.crop marked).toList.filter fun a => !marked a := by
  induction g with
  | nil => rfl
  | cons a b s ihb ihs =>
      rw [keep]
      cases ha : marked a with
      | true =>
          rw [crop_cons_marked ha, toList_cons, List.filter_cons_of_neg (by simp [ha])]
          exact ihs
      | false =>
          rw [crop_cons_unmarked ha, toList_cons, List.filter_cons_of_pos (by simp [ha]),
            List.filter_append, ← ihb, ← ihs]
          rfl

end Grove

namespace Forest

variable {f g : Forest} {r p c x : NodeRef} {marked : NodeRef → Bool} {t : Grove NodeRef}
  {pp : Option NodeRef}

/-! ## Parents and children in a cropped tree -/

/-- A node that is not below a marked one has an unmarked parent, or is a root. -/
theorem parent_of_mem_crop (ht : f.Holds pp t) (hx : x ∈ (t.crop marked).toList)
    (hp : f.parent? x = some p) : pp = some p ∨ p ∈ t.toList ∧ marked p = false := by
  induction t generalizing pp with
  | nil => exact absurd hx List.not_mem_nil
  | cons a b s ihb ihs =>
      obtain ⟨ha, hb, hs⟩ := ht
      rw [Grove.crop, Grove.toList_cons, List.mem_cons, List.mem_append] at hx
      rcases hx with rfl | hx | hx
      · exact Or.inl (ha.parent.symm.trans hp)
      · cases hm : marked a with
        | true =>
            rw [hm, if_pos rfl] at hx
            exact absurd hx List.not_mem_nil
        | false =>
            rw [hm, if_neg Bool.false_ne_true] at hx
            rcases ihb hb hx with h | ⟨h, hp⟩
            · cases h
              exact Or.inr ⟨by simp, hm⟩
            · exact Or.inr ⟨by simp [h], hp⟩
      · rcases ihs hs hx with h | ⟨h, hp⟩
        · exact Or.inl h
        · exact Or.inr ⟨by simp [h], hp⟩

/-- The children of an unmarked node are below a marked one only if the node is. -/
theorem child_mem_crop (ht : f.Holds pp t)
    (hx : x ∈ (t.keep fun a => !marked a).toList) (hc : c ∈ f.children x) :
    c ∈ (t.crop marked).toList := by
  induction t generalizing pp with
  | nil => exact absurd hx List.not_mem_nil
  | cons a b s ihb ihs =>
      obtain ⟨ha, hb, hs⟩ := ht
      rw [Grove.keep] at hx
      cases hm : marked a with
      | true =>
          rw [hm] at hx
          rw [Grove.crop_cons_marked hm]
          exact List.mem_cons_of_mem a (ihs hs hx)
      | false =>
          rw [hm, Bool.not_false, if_pos rfl, Grove.toList_cons, List.mem_cons,
            List.mem_append] at hx
          rw [Grove.crop_cons_unmarked hm, Grove.toList_cons, List.mem_cons, List.mem_append]
          rcases hx with rfl | hx | hx
          · have hroots : (b.crop marked).roots = b.roots := Grove.roots_crop b
            rw [ha.children, ← hroots] at hc
            exact Or.inr (Or.inl (Grove.mem_toList_of_mem_roots hc))
          · exact Or.inr (Or.inl (ihb hb hx))
          · exact Or.inr (Or.inr (ihs hs hx))

/-! ## The walk -/

/-- A node that was taken away has no children left. -/
theorem Linked.children_detach_self (hf : f.Linked) (h : f.detach r = .ok g) :
    g.children r = [] := by
  cases hp : f.parent? r with
  | none =>
      rw [parent?] at hp
      rw [Forest.detach] at h
      cases hn : f.node? r with
      | none =>
          rw [hn] at h
          cases h
          rw [children, hn]
      | some n =>
          rw [hn, Option.bind_some] at hp
          rw [hn] at h
          dsimp only at h
          rw [hp] at h
          cases h
  | some p =>
      rw [hf.detach_eq_cut hp] at h
      cases h
      rw [children_cut, List.filter_eq_nil_iff]
      intro c hc
      simp [hc]

section

variable {σ : Type} {φ : σ → Forest} {look : Steps σ Forest} {visit : NodeRef → Steps σ Unit}

/-- A visitor that takes away the marked nodes it visits, and nothing else. -/
structure PlucksMarked (φ : σ → Forest) (marked : NodeRef → Bool)
    (visit : NodeRef → Steps σ Unit) : Prop where
  plucks : Plucks φ visit
  unmarked : ∀ r s, marked r = false → φ ((visit r).on s).2 = φ s
  taken : ∀ r s t, marked r = true → (visit r).on s = (.ok (), t) → (φ s).detach r = .ok (φ t)

/-- Links that agree still agree after a visit. -/
theorem Plucks.linked (h : Plucks φ visit) {s : σ} (hs : (φ s).Linked) (r : NodeRef) :
    (φ ((visit r).on s).2).Linked := by
  rcases h r s with hsame | hdetach
  · rw [hsame]
    exact hs
  · exact hs.detach hdetach

/-- Visits one after the other leave the forest linked. -/
theorem Plucks.linked_forM (h : Plucks φ visit) {s : σ} (hs : (φ s).Linked)
    (rs : List NodeRef) : (φ ((rs.forM visit).on s).2).Linked := by
  induction rs generalizing s with
  | nil => exact hs
  | cons r rs ih =>
      have hr := h.linked hs r
      have hcons : (r :: rs).forM visit = (visit r >>= fun _ => rs.forM visit) := rfl
      rcases hon : (visit r).on s with ⟨result, s₁⟩
      rw [hon] at hr
      cases result with
      | error e =>
          rw [hcons, Steps.on_bind_error hon]
          exact hr
      | ok u =>
          rw [hcons, Steps.on_bind_ok hon]
          exact ih hr

variable (hlook : ∀ s, look.on s = (.ok (φ s), s)) (hvisit : PlucksMarked φ marked visit)

include hlook hvisit

/-- A tree is walked when its root is visited and, unless the root is marked, its branches are
    walked. -/
theorem on_acceptFrom_succ {s : σ} {n : Nat} {b : Grove NodeRef} (hs : (φ s).Linked)
    (hchildren : (φ s).children r = b.roots)
    (hbelow : ∀ s₁, φ s₁ = φ s → (b.roots.forM (acceptFrom look visit n)).on s₁
      = ((b.crop marked).toList.forM visit).on s₁) :
    (acceptFrom look visit (n + 1) r).on s
      = (((Grove.tree r b).crop marked).toList.forM visit).on s := by
  have hcons : ∀ rs, (r :: rs).forM visit = (visit r >>= fun _ => rs.forM visit) := fun _ => rfl
  rw [acceptFrom]
  rcases hon : (visit r).on s with ⟨result, s₁⟩
  cases hm : marked r with
  | true =>
      rw [Grove.toList_crop_marked hm, hcons]
      cases result with
      | error e => rw [Steps.on_bind_error hon, Steps.on_bind_error hon]
      | ok u =>
          rw [Steps.on_bind_ok hon, Steps.on_bind_ok hon, Steps.on_bind_ok (hlook s₁),
            hs.children_detach_self (hvisit.taken r s s₁ hm hon)]
          rfl
  | false =>
      have hsame : φ s₁ = φ s := by
        have h := hvisit.unmarked r s hm
        rwa [hon] at h
      rw [Grove.toList_crop_unmarked hm, hcons]
      cases result with
      | error e => rw [Steps.on_bind_error hon, Steps.on_bind_error hon]
      | ok u =>
          rw [Steps.on_bind_ok hon, Steps.on_bind_ok hon, Steps.on_bind_ok (hlook s₁), hsame,
            hchildren]
          exact hbelow s₁ hsame

/-- The walk over trees side by side. -/
theorem on_forM_acceptFrom (t : Grove NodeRef) :
    ∀ {s : σ} {pp : Option NodeRef} {n : Nat}, f.Loosened (φ s) → (φ s).Linked → f.Holds pp t →
      t.toList.Nodup → (∀ p, pp = some p → p ∉ t.toList) →
      (∀ x ∈ t.toList, (φ s).children x = f.children x) → t.height ≤ n →
      (t.roots.forM (acceptFrom look visit n)).on s
        = ((t.crop marked).toList.forM visit).on s := by
  induction t with
  | nil => exact fun _ _ _ _ _ _ _ => rfl
  | cons r b s ihb ihs =>
      intro σ₀ pp n hloose hlinked ht hn hpp hchildren hheight
      have hapart := parent?_ne_of_beside ht hn hpp
      obtain ⟨hr, hb, hs⟩ := ht
      obtain ⟨hrb, -, hnb, hns, -⟩ := Grove.nodup_cons.mp hn
      obtain ⟨m, rfl⟩ : ∃ m, n = m + 1 := by
        cases n with
        | zero => simp [Grove.height] at hheight
        | succ m => exact ⟨m, rfl⟩
      simp only [Grove.height] at hheight
      have hfirst : (acceptFrom look visit (m + 1) r).on σ₀
          = (((Grove.tree r b).crop marked).toList.forM visit).on σ₀ := by
        refine on_acceptFrom_succ hlook hvisit hlinked
          ((hchildren r (by simp)).trans hr.children) fun σ₁ hsame => ?_
        refine ihb (hsame ▸ hloose) (hsame ▸ hlinked) hb hnb ?_ ?_ (by omega)
        · rintro p ⟨⟩
          exact hrb
        · intro x hx
          rw [hsame]
          exact hchildren x (by simp [hx])
      have hvisited : ∀ x ∈ ((Grove.tree r b).crop marked).toList, x ∈ b.postOrder ++ [r] := by
        intro x hx
        have hmem := (Grove.sublist_crop _).mem hx
        rw [Grove.mem_tree] at hmem
        simpa [or_comm] using hmem
      obtain ⟨hloose₁, hkept⟩ := hvisit.plucks.forM hloose ((Grove.tree r b).crop marked).toList
      have hlinked₁ := hvisit.plucks.linked_forM hlinked ((Grove.tree r b).crop marked).toList
      show (acceptFrom look visit (m + 1) r >>= fun _ =>
        s.roots.forM (acceptFrom look visit (m + 1))).on σ₀ = _
      rw [Grove.crop_cons, Grove.toList_append, forM_append, Steps.on_bind, Steps.on_bind, hfirst]
      rcases hon : (((Grove.tree r b).crop marked).toList.forM visit).on σ₀ with ⟨result, σ₁⟩
      rw [hon] at hloose₁ hkept hlinked₁
      cases result with
      | error e => rfl
      | ok u =>
          refine ihs hloose₁ hlinked₁ hs hns (fun p hp h => hpp p hp (by simp [h])) ?_ (by omega)
          -- the walk over the first tree left the children of the others alone
          intro x hx
          obtain ⟨hmem, hparents⟩ := hapart x hx
          have hkeptx := hkept x (fun h => hmem (hvisited x h)) fun c hc =>
            hparents c (hvisited c hc)
          exact hkeptx.trans (hchildren x (by simp [hx]))

/-- **The walk visits what is not below a marked node.**  A visitor that takes away the marked
    nodes it visits sees every node of the tree as it stood that has no marked node above it once,
    in pre-order. -/
theorem on_accept {s : σ} {b : Grove NodeRef} {pp : Option NodeRef} (hs : (φ s).Linked)
    (hr : (φ s).Stands r pp b.roots) (hb : (φ s).Holds (some r) b)
    (hn : (Grove.tree r b).toList.Nodup) (hpp : ∀ p, pp = some p → p ∉ (Grove.tree r b).toList) :
    (accept look visit r).on s = (((Grove.tree r b).crop marked).toList.forM visit).on s := by
  have hholds : (φ s).Holds pp (Grove.tree r b) := holds_tree.mpr ⟨hr, hb⟩
  have hheight : (Grove.tree r b).height ≤ (φ s).depthBound :=
    Nat.le_succ_of_le (height_le_size hholds hn)
  rw [accept, Steps.on_bind_ok (hlook s),
    ← on_forM_acceptFrom hlook hvisit _ (.refl (φ s)) hs hholds hn hpp (fun _ _ => rfl) hheight]
  show _ = (acceptFrom look visit (φ s).depthBound r >>= fun _ => pure ()).on s
  rw [bind_pure]

end

end Forest

end TestLauncher
