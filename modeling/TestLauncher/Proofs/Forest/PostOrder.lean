import TestLauncher.Proofs.Forest.Loosening

/-! # The post-order of a tree that is cut while it is walked

    The walk in post-order reads the children of a node when it enters the node, and the
    visitor may have taken other nodes away by then.  A visitor that takes away nothing but
    the node it visits (`Plucks`) changes the children of that node and of its parent only.
    The walk has entered both before, so whatever it enters is as it was in the
    beginning, and it comes to visiting the nodes of the tree as it stood one after the
    other (`on_visitPostOrder`), in the order in which they are listed when nobody
    interferes (`Hung.postOrder_eq`). -/

namespace TestLauncher

namespace Grove

variable {α : Type}

/-- All nodes, each after those below it. -/
def postOrder : Grove α → List α
  | nil => []
  | cons a below beside => below.postOrder ++ a :: beside.postOrder

theorem perm_postOrder (g : Grove α) : g.postOrder.Perm g.toList := by
  induction g with
  | nil => exact List.Perm.refl _
  | cons a b s ihb ihs =>
      rw [postOrder, toList_cons]
      exact List.perm_middle.trans ((ihb.append ihs).cons a)

@[simp] theorem mem_postOrder {g : Grove α} {a : α} : a ∈ g.postOrder ↔ a ∈ g.toList :=
  g.perm_postOrder.mem_iff

theorem postOrder_tree (a : α) (b : Grove α) : (tree a b).postOrder = b.postOrder ++ [a] := rfl

end Grove

namespace Forest

variable {f g : Forest} {r p c x : NodeRef}

/-! ## The list -/

theorem mapM_postOrderFrom {t : Grove NodeRef} {pp : Option NodeRef} {n : Nat}
    (ht : f.Holds pp t) (hn : t.height ≤ n) :
    ∃ lists, t.roots.mapM (f.postOrderFrom n) = .ok lists ∧ lists.flatten = t.postOrder := by
  induction t generalizing pp n with
  | nil => exact ⟨[], rfl, rfl⟩
  | cons r b s ihb ihs =>
      obtain ⟨hr, hb, hs⟩ := ht
      simp only [Grove.height] at hn
      obtain ⟨m, rfl⟩ : ∃ m, n = m + 1 := by
        cases n with
        | zero => omega
        | succ m => exact ⟨m, rfl⟩
      obtain ⟨below, hbelow, hflat⟩ := ihb hb (n := m) (by omega)
      obtain ⟨beside, hbeside, hflat'⟩ := ihs hs (n := m + 1) (by omega)
      have hfirst : f.postOrderFrom (m + 1) r = .ok (below.flatten ++ [r]) := by
        rw [postOrderFrom, hr.children, hbelow]
        rfl
      refine ⟨(below.flatten ++ [r]) :: beside, ?_, ?_⟩
      · rw [Grove.roots_cons, List.mapM_cons, hfirst, hbeside]
        rfl
      · rw [List.flatten_cons, hflat, hflat', Grove.postOrder, List.append_assoc,
          List.singleton_append]

/-- Listing the nodes of a tree comes to an end. -/
theorem postOrder_of_holds (hroots : (f.below r).roots = f.children r)
    (hbelow : f.Holds (some r) (f.below r)) :
    f.postOrder r = .ok (Grove.tree r (f.below r)).postOrder := by
  obtain ⟨lists, hlists, hflat⟩ := mapM_postOrderFrom hbelow (height_belowFrom f.size r)
  rw [hroots] at hlists
  rw [postOrder, depthBound, postOrderFrom, hlists, Grove.postOrder_tree, ← hflat]
  rfl

theorem Hung.postOrder_eq {roots : List NodeRef} (h : f.Hung roots) (hr : f.Reached roots r) :
    f.postOrder r = .ok (Grove.tree r (f.below r)).postOrder := by
  obtain ⟨hroots, hbelow⟩ := h.holds_below hr
  exact postOrder_of_holds hroots hbelow

/-! ## What taking a node away leaves alone -/

theorem children_removeChild (hp : x ≠ p) : (f.removeChild p c).children x = f.children x := by
  rcases removeChild_cases f p c with h | ⟨n, hc, -, h⟩
  · rw [h]
  · rw [h, unlink, setParent, dropChild, children, node?_modify, node?_modify, children]
    rw [if_neg (Ne.symm hp)]
    by_cases hx : c = x
    · rw [if_pos hx]
      cases f.node? x <;> rfl
    · rw [if_neg hx]

theorem children_detach (h : f.detach r = .ok g) (hr : x ≠ r) (hp : f.parent? r ≠ some x) :
    g.children x = f.children x := by
  have hfold : ∀ (cs : List NodeRef) (f : Forest),
      (cs.foldl (fun f c => f.removeChild r c) f).children x = f.children x := by
    intro cs
    induction cs with
    | nil => exact fun _ => rfl
    | cons c cs ih => exact fun f => (ih _).trans (children_removeChild hr)
  rw [detach] at h
  cases hn : f.node? r with
  | none =>
      rw [hn] at h
      cases h
      rfl
  | some n =>
      rw [hn] at h
      dsimp only at h
      cases hq : n.parent with
      | none =>
          rw [hq] at h
          cases h
      | some q =>
          rw [hq] at h
          cases h
          have hxq : x ≠ q := by
            rintro rfl
            exact hp (by rw [parent?_of_node? hn, hq])
          exact (hfold _ _).trans (children_removeChild hxq)

/-! ## The walk -/

section

variable {σ : Type} {φ : σ → Forest} {look : Steps σ Forest} {visit : NodeRef → Steps σ Unit}

/-- A visitor that takes away nothing but the node it visits. -/
def Plucks (φ : σ → Forest) (visit : NodeRef → Steps σ Unit) : Prop :=
  ∀ r s, φ ((visit r).on s).2 = φ s ∨ (φ s).detach r = .ok (φ ((visit r).on s).2)

/-- Visiting some nodes changes no children but theirs and those of their parents. -/
theorem Plucks.forM (h : Plucks φ visit) {s : σ} (hf : f.Loosened (φ s)) (rs : List NodeRef) :
    f.Loosened (φ ((rs.forM visit).on s).2) ∧
      ∀ x, x ∉ rs → (∀ r ∈ rs, f.parent? r ≠ some x) →
        (φ ((rs.forM visit).on s).2).children x = (φ s).children x := by
  induction rs generalizing s with
  | nil => exact ⟨hf, fun _ _ _ => rfl⟩
  | cons r rs ih =>
      have hvisit : f.Loosened (φ ((visit r).on s).2) ∧
          ∀ x, x ≠ r → f.parent? r ≠ some x →
            (φ ((visit r).on s).2).children x = (φ s).children x := by
        rcases h r s with hsame | hdetach
        · rw [hsame]
          exact ⟨hf, fun _ _ _ => rfl⟩
        · refine ⟨hf.trans (loosened_detach hdetach), fun x hr hp => ?_⟩
          refine children_detach hdetach hr ?_
          -- the parent of the node is the one it had, as long as it has one
          rcases hf.parent r with hsame | hnone
          · rw [hsame]
            exact hp
          · rw [hnone]
            exact fun e => by cases e
      rcases hon : (visit r).on s with ⟨result, s₁⟩
      rw [hon] at hvisit
      obtain ⟨hloose, hkept⟩ := hvisit
      have hcons : (r :: rs).forM visit = (visit r >>= fun _ => rs.forM visit) := rfl
      cases result with
      | error e =>
          rw [hcons, Steps.on_bind_error hon]
          refine ⟨hloose, fun x hx hp => ?_⟩
          exact hkept x (fun e => hx (by simp [e])) (hp r (by simp))
      | ok u =>
          rw [hcons, Steps.on_bind_ok hon]
          obtain ⟨hloose', hkept'⟩ := ih hloose
          refine ⟨hloose', fun x hx hp => ?_⟩
          rw [hkept' x (fun h => hx (by simp [h])) fun c hc => hp c (by simp [hc])]
          exact hkept x (fun e => hx (by simp [e])) (hp r (by simp))

/-- The nodes of the first of some trees have their parents in it, or above all trees. -/
theorem parent?_ne_of_beside {b s : Grove NodeRef} {pp : Option NodeRef}
    (ht : f.Holds pp (.cons r b s)) (hn : (Grove.cons r b s).toList.Nodup)
    (hpp : ∀ p, pp = some p → p ∉ (Grove.cons r b s).toList) :
    ∀ x ∈ s.toList, x ∉ b.postOrder ++ [r] ∧ ∀ c ∈ b.postOrder ++ [r], f.parent? c ≠ some x := by
  obtain ⟨hr, hb, -⟩ := ht
  obtain ⟨-, hrs, -, -, hbs⟩ := Grove.nodup_cons.mp hn
  intro x hx
  have hcases : ∀ c ∈ b.postOrder ++ [r], c ∈ b.toList ∨ c = r := by
    intro c hc
    simpa using hc
  refine ⟨fun hmem => ?_, fun c hc he => ?_⟩
  · rcases hcases x hmem with h | rfl
    · exact hbs x h hx
    · exact hrs hx
  · rcases hcases c hc with h | rfl
    · rcases parent_mem_of_holds hb h he with hxb | hxr
      · exact hbs x hxb hx
      · exact hrs (Option.some.inj hxr ▸ hx)
    · rw [hr.parent] at he
      exact hpp x he (by simp [hx])

theorem forM_append (rs ss : List NodeRef) :
    (rs ++ ss).forM visit = (rs.forM visit >>= fun _ => ss.forM visit) := by
  rw [List.forM_eq_forM, List.forM_append]

variable (hlook : ∀ s, look.on s = (.ok (φ s), s)) (hvisit : Plucks φ visit)

include hlook

/-- A tree is walked when its branches are walked and its root is visited. -/
theorem on_visitPostOrderFrom_succ {s : σ} {n : Nat} {b : Grove NodeRef}
    (hchildren : (φ s).children r = b.roots)
    (hbelow : (b.roots.forM (visitPostOrderFrom look visit n)).on s
      = (b.postOrder.forM visit).on s) :
    (visitPostOrderFrom look visit (n + 1) r).on s = ((b.postOrder ++ [r]).forM visit).on s := by
  rw [visitPostOrderFrom, Steps.on_bind_ok (hlook s), hchildren, forM_append, Steps.on_bind,
    Steps.on_bind, hbelow]
  rcases (b.postOrder.forM visit).on s with ⟨result, s₁⟩
  cases result with
  | error e => rfl
  | ok u =>
      show (visit r).on s₁ = (visit r >>= fun _ => pure ()).on s₁
      rw [bind_pure]

include hvisit

/-- The walk over trees side by side. -/
theorem on_forM_visitPostOrderFrom (t : Grove NodeRef) :
    ∀ {s : σ} {pp : Option NodeRef} {n : Nat}, f.Loosened (φ s) → f.Holds pp t → t.toList.Nodup →
      (∀ p, pp = some p → p ∉ t.toList) →
      (∀ x ∈ t.toList, (φ s).children x = f.children x) → t.height ≤ n →
      (t.roots.forM (visitPostOrderFrom look visit n)).on s = (t.postOrder.forM visit).on s := by
  induction t with
  | nil => exact fun _ _ _ _ _ _ => rfl
  | cons r b s ihb ihs =>
      intro σ₀ pp n hloose ht hn hpp hchildren hheight
      have hapart := parent?_ne_of_beside ht hn hpp
      obtain ⟨hr, hb, hs⟩ := ht
      obtain ⟨hrb, -, hnb, hns, -⟩ := Grove.nodup_cons.mp hn
      obtain ⟨m, rfl⟩ : ∃ m, n = m + 1 := by
        cases n with
        | zero => simp [Grove.height] at hheight
        | succ m => exact ⟨m, rfl⟩
      simp only [Grove.height] at hheight
      have hbelow : (b.roots.forM (visitPostOrderFrom look visit m)).on σ₀
          = (b.postOrder.forM visit).on σ₀ := by
        refine ihb hloose hb hnb ?_ (fun x hx => hchildren x (by simp [hx])) (by omega)
        rintro p ⟨⟩
        exact hrb
      have hfirst : (visitPostOrderFrom look visit (m + 1) r).on σ₀
          = ((b.postOrder ++ [r]).forM visit).on σ₀ :=
        on_visitPostOrderFrom_succ hlook ((hchildren r (by simp)).trans hr.children) hbelow
      have hsplit : (Grove.cons r b s).postOrder = (b.postOrder ++ [r]) ++ s.postOrder := by
        rw [Grove.postOrder, List.append_assoc, List.singleton_append]
      obtain ⟨hloose₁, hkept⟩ := hvisit.forM hloose (b.postOrder ++ [r])
      show (visitPostOrderFrom look visit (m + 1) r >>= fun _ =>
        s.roots.forM (visitPostOrderFrom look visit (m + 1))).on σ₀ = _
      rw [hsplit, forM_append, Steps.on_bind, Steps.on_bind, hfirst]
      rcases hon : ((b.postOrder ++ [r]).forM visit).on σ₀ with ⟨result, σ₁⟩
      rw [hon] at hloose₁ hkept
      cases result with
      | error e => rfl
      | ok u =>
          refine ihs hloose₁ hs hns (fun p hp h => hpp p hp (by simp [h])) ?_ (by omega)
          -- the walk over the first tree left the children of the others alone
          intro x hx
          obtain ⟨hmem, hparents⟩ := hapart x hx
          exact (hkept x hmem hparents).trans (hchildren x (by simp [hx]))

/-- **The walk visits the tree as it stood.**  A visitor that takes away nothing but the node it
    visits sees every node of the tree once, in post-order, whatever it takes away. -/
theorem on_visitPostOrder {s : σ} {b : Grove NodeRef} {pp : Option NodeRef}
    (hr : (φ s).Stands r pp b.roots) (hb : (φ s).Holds (some r) b)
    (hn : (Grove.tree r b).toList.Nodup) (hpp : ∀ p, pp = some p → p ∉ (Grove.tree r b).toList) :
    (visitPostOrder look visit r).on s = ((Grove.tree r b).postOrder.forM visit).on s := by
  have hholds : (φ s).Holds pp (Grove.tree r b) := holds_tree.mpr ⟨hr, hb⟩
  have hheight : (Grove.tree r b).height ≤ (φ s).depthBound :=
    Nat.le_succ_of_le (height_le_size hholds hn)
  rw [visitPostOrder, Steps.on_bind_ok (hlook s),
    ← on_forM_visitPostOrderFrom hlook hvisit _ (.refl (φ s)) hholds hn hpp (fun _ _ => rfl)
      hheight]
  show _ = (visitPostOrderFrom look visit (φ s).depthBound r >>= fun _ => pure ()).on s
  rw [bind_pure]

end

end Forest

end TestLauncher
