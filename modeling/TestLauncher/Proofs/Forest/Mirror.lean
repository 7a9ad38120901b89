import TestLauncher.Proofs.Forest.Relocation
import TestLauncher.Proofs.Filter.Lineage
import TestLauncher.Proofs.Forest.Subtree

/-! # Steps that do behind a forest what they do alone

    Steps mirror other steps behind a forest (`Mirrors`) when from states in which one
    forest stands behind it and the other alone both come to the same end: with the same
    fault, or with values that correspond, and with forests that correspond again.  What
    else is in the states does not matter.  Steps that are put together from steps that
    mirror each other mirror each other, and so do the walks that thin trees and those that
    make a plan of them. -/

namespace TestLauncher

/-- Two ends that correspond. -/
inductive EndAlike {α β : Type} (R : α → β → Prop) : Except Fault α → Except Fault β → Prop where
  | ok {a : α} {b : β} (h : R a b) : EndAlike R (.ok a) (.ok b)
  | error (e : Fault) : EndAlike R (.error e) (.error e)

/-- An end corresponds to itself. -/
theorem endAlike_eq {α : Type} (x : Except Fault α) : EndAlike (fun a b => b = a) x x := by
  cases x with
  | ok a => exact .ok rfl
  | error e => exact .error e

section

variable {σ σ' α β γ δ : Type}

/-- The second steps do behind a forest what the first do alone, from any forest with so many
    nodes; the values correspond, given how many nodes there are then. -/
def Mirrors (f₀ : Forest) (look : σ → Forest) (look' : σ' → Forest) (n : Nat) (c : Steps σ α)
    (c' : Steps σ' β) (R : Nat → α → β → Prop) : Prop :=
  ∀ s s', look' s' = f₀.after (look s) → (look s).Ordered → (look s).size = n →
    look' (c'.on s').2 = f₀.after (look (c.on s).2) ∧ (look (c.on s).2).Ordered ∧
      n ≤ (look (c.on s).2).size ∧
      EndAlike (R (look (c.on s).2).size) (c.on s).1 (c'.on s').1

variable {f₀ : Forest} {look : σ → Forest} {look' : σ' → Forest} {n : Nat} {c : Steps σ α}
  {c' : Steps σ' β} {R : Nat → α → β → Prop}

/-- Values that correspond closely correspond loosely. -/
theorem Mirrors.weaken {Q : Nat → α → β → Prop} (h : Mirrors f₀ look look' n c c' R)
    (hq : ∀ m a b, n ≤ m → R m a b → Q m a b) : Mirrors f₀ look look' n c c' Q := by
  intro s s' hs ho hn
  obtain ⟨hs', ho', hle, hend⟩ := h s s' hs ho hn
  refine ⟨hs', ho', hle, ?_⟩
  generalize (c.on s).1 = x at hend
  generalize (c'.on s').1 = y at hend
  cases hend with
  | ok hr => exact .ok (hq _ _ _ hle hr)
  | error e => exact .error e

theorem mirrors_ofExcept {x : Except Fault α} {y : Except Fault β}
    (h : EndAlike (R n) x y) : Mirrors f₀ look look' n (Steps.ofExcept x) (Steps.ofExcept y) R := by
  intro s s' hs ho hn
  subst hn
  exact ⟨hs, ho, Nat.le_refl _, h⟩

/-- A result that does not depend on nodes is mirrored by itself. -/
theorem mirrors_ofExcept_same (r : Except Fault α) :
    Mirrors f₀ look look' n (Steps.ofExcept r : Steps σ α) (Steps.ofExcept r : Steps σ' α)
      (fun m a b => m = n ∧ b = a) := by
  refine mirrors_ofExcept ?_
  cases r with
  | error e => exact .error e
  | ok a => exact .ok ⟨rfl, rfl⟩

theorem mirrors_pure {a : α} {b : β} (h : R n a b) :
    Mirrors f₀ look look' n (pure a : Steps σ α) (pure b : Steps σ' β) R :=
  mirrors_ofExcept (.ok h)

theorem mirrors_throw (e : Fault) :
    Mirrors f₀ look look' n (throw e : Steps σ α) (throw e : Steps σ' β) R :=
  mirrors_ofExcept (.error e)

/-- The state is mirrored by a state with its forest behind the other. -/
theorem mirrors_get : Mirrors f₀ look look' n (get : Steps σ σ) (get : Steps σ' σ')
    (fun m s s' => m = n ∧ look' s' = f₀.after (look s) ∧ (look s).Ordered ∧
      (look s).size = n) := by
  intro s s' hs ho hn
  exact ⟨hs, ho, Nat.le_of_eq hn.symm, .ok ⟨hn, hs, ho, hn⟩⟩

/-- Changes to the rest of a state. -/
theorem mirrors_modify {change : σ → σ} {change' : σ' → σ'} (h : ∀ s, look (change s) = look s)
    (h' : ∀ s, look' (change' s) = look' s) :
    Mirrors f₀ look look' n (modify change : Steps σ PUnit) (modify change' : Steps σ' PUnit)
      (fun m _ _ => m = n) := by
  intro s s' hs ho hn
  rw [Steps.on_modify, Steps.on_modify, h, h']
  exact ⟨hs, ho, Nat.le_of_eq hn.symm, .ok hn⟩

/-- Steps that are mirrored, one after the other, are mirrored. -/
theorem Mirrors.bind {Q : Nat → γ → δ → Prop} {k : α → Steps σ γ} {k' : β → Steps σ' δ}
    (h : Mirrors f₀ look look' n c c' R)
    (hk : ∀ m a b, n ≤ m → R m a b → Mirrors f₀ look look' m (k a) (k' b) Q) :
    Mirrors f₀ look look' n (c >>= k) (c' >>= k') Q := by
  intro s s' hs ho hn
  obtain ⟨hs₁, ho₁, hle₁, hend⟩ := h s s' hs ho hn
  rw [Steps.on_bind, Steps.on_bind]
  rcases hc : c.on s with ⟨x, t⟩
  rcases hc' : c'.on s' with ⟨y, t'⟩
  rw [hc, hc'] at hs₁ hend
  rw [hc] at ho₁ hle₁
  cases hend with
  | error e => exact ⟨hs₁, ho₁, hle₁, .error e⟩
  | ok hr =>
      obtain ⟨hs₂, ho₂, hle₂, hend₂⟩ := hk _ _ _ hle₁ hr t t' hs₁ ho₁ rfl
      exact ⟨hs₂, ho₂, Nat.le_trans hle₁ hle₂, hend₂⟩

/-- Steps that are taken to their end, whatever it is. -/
theorem Mirrors.outcome (h : Mirrors f₀ look look' n c c' R) :
    Mirrors f₀ look look' n c.outcome c'.outcome (fun m => EndAlike (R m)) := by
  intro s s' hs ho hn
  obtain ⟨hs₁, ho₁, hle₁, hend⟩ := h s s' hs ho hn
  rw [Steps.on_outcome, Steps.on_outcome]
  exact ⟨hs₁, ho₁, hle₁, .ok hend⟩

/-- Steps on parts of the states. -/
theorem Mirrors.within {τ τ' : Type} {part : τ → σ} {part' : τ' → σ'} {update : σ → τ → τ}
    {update' : σ' → τ' → τ'} {see : τ → Forest} {see' : τ' → Forest}
    (h : Mirrors f₀ look look' n c c' R) (hp : ∀ t, look (part t) = see t)
    (hp' : ∀ t, look' (part' t) = see' t) (hu : ∀ s t, see (update s t) = look s)
    (hu' : ∀ s t, see' (update' s t) = look' s) :
    Mirrors f₀ see see' n (c.within part update) (c'.within part' update') R := by
  intro t t' ht ho hn
  rw [← hp, ← hp'] at ht
  rw [← hp] at ho hn
  obtain ⟨hs₁, ho₁, hle₁, hend⟩ := h (part t) (part' t') ht ho hn
  rw [Steps.on_within, Steps.on_within]
  simp only [hu, hu']
  exact ⟨hs₁, ho₁, hle₁, hend⟩

/-- A loop over elements that correspond, as long as a number of nodes is kept in a range. -/
theorem mirrors_forM {P : Nat → Prop} {as : List α} {φ : α → β} {step : α → Steps σ Unit}
    {step' : β → Steps σ' Unit} (hn : P n)
    (h : ∀ a ∈ as, ∀ m, n ≤ m → P m →
      Mirrors f₀ look look' m (step a) (step' (φ a)) (fun k _ _ => P k)) :
    Mirrors f₀ look look' n (as.forM step) ((as.map φ).forM step') (fun k _ _ => P k) := by
  induction as generalizing n with
  | nil => exact mirrors_pure hn
  | cons a as ih =>
      refine (h a (by simp) n (Nat.le_refl n) hn).bind ?_
      intro m _ _ hle hm
      exact ih hm fun b hb k hk hp => h b (by simp [hb]) k (Nat.le_trans hle hk) hp

/-- A loop over the same elements. -/
theorem mirrors_forM_same {P : Nat → Prop} {as : List γ} {step : γ → Steps σ Unit}
    {step' : γ → Steps σ' Unit} (hn : P n)
    (h : ∀ a ∈ as, ∀ m, n ≤ m → P m →
      Mirrors f₀ look look' m (step a) (step' a) (fun k _ _ => P k)) :
    Mirrors f₀ look look' n (as.forM step) (as.forM step') (fun k _ _ => P k) := by
  have hloop := mirrors_forM (φ := fun a => a) hn h
  rw [List.map_id'] at hloop
  exact hloop

/-- A loop over the same elements that carries values along. -/
theorem mirrors_foldlM {as : List γ} {step : α → γ → Steps σ α} {step' : β → γ → Steps σ' β}
    {a : α} {b : β} (hab : R n a b)
    (h : ∀ x ∈ as, ∀ m a b, n ≤ m → R m a b →
      Mirrors f₀ look look' m (step a x) (step' b x) R) :
    Mirrors f₀ look look' n (as.foldlM step a) (as.foldlM step' b) R := by
  induction as generalizing n a b with
  | nil => exact mirrors_pure hab
  | cons x as ih =>
      rw [List.foldlM_cons, List.foldlM_cons]
      refine (h x (by simp) n a b (Nat.le_refl n) hab).bind ?_
      intro m a' b' hle hm
      exact ih hm fun y hy k a b hk hr => h y (by simp [hy]) k a b (Nat.le_trans hle hk) hr

end

namespace Forest

/-! ## Growing and uprooting -/

section

variable {f₀ : Forest} {n : Nat}

/-- Growing that mirrors growing. -/
abbrev GrowthsMirror {α β : Type} (f₀ : Forest) (n : Nat) (c : Growing α) (c' : Growing β)
    (R : Nat → α → β → Prop) : Prop :=
  Mirrors f₀ id id n c c' R

/-- Growing in states that have more than a forest. -/
theorem mirrors_first {α β τ τ' : Type} {c : Growing α} {c' : Growing β}
    {R : Nat → α → β → Prop} (h : Mirrors f₀ id id n c c' R) :
    Mirrors f₀ Prod.fst Prod.fst n (c.first : Steps (Forest × τ) α)
      (c'.first : Steps (Forest × τ') β) R :=
  h.within (fun _ => rfl) (fun _ => rfl) (fun _ _ => rfl) fun _ _ => rfl

/-- The same node is added at corresponding places. -/
theorem mirrors_plant {node : Except Fault Node}
    (h : ∀ x, node = .ok x → x.parent = none ∧ x.children = ∅) :
    Mirrors f₀ id id n (plant node) (plant node)
      (fun m r r' => m = n + 1 ∧ r.index = n ∧ r' = r.shift f₀.size) := by
  cases node with
  | error e => exact mirrors_throw e
  | ok x =>
      obtain ⟨hp, hc⟩ := h x rfl
      have hshift : x.shift f₀.size = x := by
        obtain ⟨id, name, kind, tags, source, parent, children⟩ := x
        cases hp
        cases hc
        rfl
      intro g f hf ho hn
      have hf' : f = f₀.after g := hf
      subst hf'
      have hon : ∀ f : Forest, (plant (.ok x)).on f = (.ok (f.add x).1, (f.add x).2) :=
        fun _ => rfl
      rw [hon, hon, add_after f₀ g hshift]
      refine ⟨rfl, ho.add hp (by rw [hc]; rfl), ?_, .ok ⟨?_, hn, rfl⟩⟩
      · show n ≤ (g.add x).2.size
        rw [size_add]
        exact Nat.le_succ_of_le (Nat.le_of_eq hn.symm)
      · show (g.add x).2.size = n + 1
        rw [size_add]
        exact congrArg (· + 1) hn

/-- Attaching a child is mirrored by attaching it behind the forest. -/
theorem mirrors_attach {p c : NodeRef} (hpc : p.index < c.index) (hc : c.index < n) :
    Mirrors f₀ id id n (attach p c) (attach (p.shift f₀.size) (c.shift f₀.size))
      (fun m _ _ => m = n) := by
  intro g f hf ho hn
  have hf' : f = f₀.after g := hf
  subst hf'
  have hn' : g.size = n := hn
  rw [on_attach, on_attach, addChild_after]
  cases hadd : g.addChild p (some c) with
  | error e => exact ⟨rfl, ho, Nat.le_of_eq hn'.symm, .error e⟩
  | ok g' =>
      have hsize : g'.size = n := (size_addChild hadd).trans hn'
      exact ⟨rfl, ho.addChild hpc (hn'.symm ▸ hc) hadd, Nat.le_of_eq hsize.symm, .ok hsize⟩

/-- Uprooting a node is mirrored by uprooting it behind the forest. -/
theorem mirrors_uproot (r : NodeRef) :
    Mirrors f₀ id id n (uproot r) (uproot (r.shift f₀.size)) (fun m _ _ => m = n) := by
  intro g f hf ho hn
  have hf' : f = f₀.after g := hf
  subst hf'
  have hn' : g.size = n := hn
  rw [on_uproot, on_uproot, detach_after]
  cases hd : g.detach r with
  | error e => exact ⟨rfl, ho, Nat.le_of_eq hn'.symm, .error e⟩
  | ok g' =>
      obtain ⟨ho', hsize⟩ := Ordered.detach ho hd
      have hsize' : g'.size = n := hsize.trans hn'
      exact ⟨rfl, ho', Nat.le_of_eq hsize'.symm, .ok hsize'⟩

end

/-! ## Thinning -/

/-- A question with the same answer behind another forest. -/
def Question.Placeless (ask : Question) : Prop :=
  ∀ (f₀ g : Forest) (r : NodeRef), g.Ordered → ask (f₀.after g) (r.shift f₀.size) = ask g r

section

variable {f₀ : Forest} {n : Nat} {ask : Question}

/-- Thinning a node is mirrored when the question is placeless. -/
theorem mirrors_thinNode (hask : ask.Placeless) (root r : NodeRef) :
    Mirrors f₀ id id n (thinNode ask root r)
      (thinNode ask (root.shift f₀.size) (r.shift f₀.size)) (fun m _ _ => m = n) := by
  refine mirrors_get.bind ?_
  rintro m g f _ ⟨rfl, hf, ho, hn⟩
  have hf' : f = f₀.after g := hf
  subst hf'
  rw [node?_after]
  cases g.node? r with
  | none => exact mirrors_pure rfl
  | some x =>
      have hkeep : (r.shift f₀.size = root.shift f₀.size || !(x.shift f₀.size).children.isEmpty)
          = (decide (r = root) || !x.children.isEmpty) := by
        have hempty : (x.shift f₀.size).children.isEmpty = x.children.isEmpty :=
          OrderedMap.isEmpty_map ..
        rw [hempty]
        congr 1
        exact decide_eq_decide.mpr NodeRef.shift_inj
      simp only [Option.map_some, hkeep]
      by_cases h : (decide (r = root) || !x.children.isEmpty) = true
      · rw [if_pos h, if_pos h]
        exact mirrors_pure rfl
      · rw [if_neg h, if_neg h]
        refine (mirrors_ofExcept (R := fun k a b => k = m ∧ b = a) ?_).bind ?_
        · rw [hask f₀ g r ho]
          cases ask g r with
          | error e => exact .error e
          | ok stay => exact .ok ⟨rfl, rfl⟩
        · rintro k a b _ ⟨rfl, rfl⟩
          cases b with
          | true => exact mirrors_pure rfl
          | false => exact mirrors_uproot r

/-- A walk visits behind another forest what it visits alone, however deep it may go there. -/
theorem mirrors_visitPostOrderFrom {visit visit' : NodeRef → Steps Forest Unit}
    (h : ∀ r, Mirrors f₀ id id n (visit r) (visit' (r.shift f₀.size)) (fun m _ _ => m = n))
    {k k' : Nat} {r : NodeRef} (hr : r.index < n) (hk : n ≤ r.index + k)
    (hk' : n ≤ r.index + k') :
    Mirrors f₀ id id n (visitPostOrderFrom get visit k r)
      (visitPostOrderFrom get visit' k' (r.shift f₀.size)) (fun m _ _ => m = n) := by
  induction k generalizing r k' with
  | zero => omega
  | succ k ih =>
      obtain ⟨j, rfl⟩ : ∃ j, k' = j + 1 := ⟨k' - 1, by omega⟩
      rw [visitPostOrderFrom, visitPostOrderFrom]
      refine mirrors_get.bind ?_
      rintro m g f _ ⟨rfl, hf, ho, hn⟩
      have hf' : f = f₀.after g := hf
      subst hf'
      have hn' : g.size = m := hn
      rw [children_after]
      refine (mirrors_forM (P := fun k => k = m) rfl ?_).bind ?_
      · intro c hc i _ hi
        subst hi
        obtain ⟨hlt, hsize⟩ := ho.down r c hc
        exact ih (by omega) (by omega) (by omega)
      · intro i _ _ _ hi
        subst hi
        exact h r

/-- Thinning a tree. -/
theorem mirrors_thinBelow (hask : ask.Placeless) {root : NodeRef} (hroot : root.index < n) :
    Mirrors f₀ id id n (thinBelow ask root) (thinBelow ask (root.shift f₀.size))
      (fun m _ _ => m = n) := by
  refine mirrors_get.bind ?_
  rintro m g f _ ⟨rfl, hf, ho, hn⟩
  have hf' : f = f₀.after g := hf
  subst hf'
  have hn' : g.size = m := hn
  refine mirrors_visitPostOrderFrom (mirrors_thinNode hask root) hroot ?_ ?_
  · rw [depthBound]
    omega
  · rw [depthBound, size_after]
    omega

end

/-! ## Filters -/

/-- A node is a test wherever it is stored. -/
theorem isTest_after (f₀ g : Forest) (r : NodeRef) :
    (f₀.after g).isTest (r.shift f₀.size) = g.isTest r := by
  rw [isTest, isTest, node?_after]
  cases g.node? r <;> rfl

/-- Whether a node is a test is a placeless question. -/
theorem placeless_isTest : Question.Placeless fun f r => .ok (f.isTest r) :=
  fun f₀ g r _ => congrArg Except.ok (isTest_after f₀ g r)

/-- The source of a node is found behind the forest as it is alone. -/
theorem sourceName_after (f₀ : Forest) {g : Forest} (hg : g.Ordered) (r : NodeRef) :
    (f₀.after g).sourceName (r.shift f₀.size) = g.sourceName r := by
  rw [sourceName, sourceName]
  by_cases hr : r.index < g.size
  · refine sourceFrom_after f₀ hg (by omega) ?_
    rw [size_after]
    omega
  · have hnone : g.node? r = none := by
      rw [← Option.not_isSome_iff_eq_none, node?_isSome_iff]
      exact hr
    rw [sourceFrom, sourceFrom, node?_after, hnone]
    rfl

end Forest

/-- A rule supplied from outside with the same judgement behind another forest. -/
def CustomRule.Placeless (rule : CustomRule (Forest × NodeRef)) : Prop :=
  ∀ (f₀ g : Forest) (r : NodeRef), rule.judge (f₀.after g, r.shift f₀.size) = rule.judge (g, r)

/-- A filter whose rules from outside judge a node alike wherever it is stored. -/
def NodeFilter.Placeless (filter : NodeFilter) : Prop :=
  ∀ rule, .custom rule ∈ filter.leaves → rule.Placeless

/-- A rule judges a node behind the forest as it does alone. -/
theorem NodeRule.judge_after {rule : NodeRule} (f₀ : Forest) {g : Forest} (hg : g.Ordered)
    (r : NodeRef) (hcustom : ∀ custom, rule = .custom custom → custom.Placeless) :
    rule.judge (f₀.after g) (r.shift f₀.size) = rule.judge g r := by
  have hsource := Forest.sourceName_after f₀ hg r
  cases rule with
  | custom rule => exact hcustom rule rfl f₀ g r
  | _ rule =>
      have hnode := Forest.node?_after f₀ g r
      cases hr : g.node? r with
      | none =>
          rw [hr] at hnode
          simp [NodeRule.judge, hnode, hr]
      | some x =>
          rw [hr] at hnode
          simp [NodeRule.judge, NodeRule.judgeSource, hnode, hr, hsource, Node.shift]

/-- A placeless filter asks a placeless question. -/
theorem NodeFilter.placeless_includes {filter : NodeFilter} (h : filter.Placeless) :
    (Forest.includes filter).Placeless := by
  intro f₀ g r hg
  rw [Forest.includes, Forest.includes, NodeFilter.verdict, NodeFilter.verdict]
  congr 1
  refine Filter.apply_congr filter ?_
  intro rule hrule
  exact NodeRule.judge_after f₀ hg r fun custom hc => h custom (hc ▸ hrule)

/-! ## Plans -/

namespace Forest

variable (f₀ g : Forest)

/-- The text of an id does not depend on where the node is stored. -/
theorem idText?_after (r : NodeRef) : (f₀.after g).idText? (r.shift f₀.size) = g.idText? r := by
  rw [idText?, idText?, node?_after, Option.map_map]
  rfl

/-- Neither does what identifies the node for a plan. -/
theorem identifier?_after (r : NodeRef) :
    (f₀.after g).identifier? (r.shift f₀.size) = g.identifier? r := by
  rw [identifier?_eq, identifier?_eq, bare?_after, parent?_after]
  congr 1
  funext n
  congr 1
  cases g.parent? r with
  | none => rfl
  | some p => exact idText?_after f₀ g p

variable {f₀ g}

/-- A walk in pre-order goes behind another forest as it goes alone. -/
theorem acceptFrom_after {m : Type → Type} [Monad m] [LawfulMonad m] [MonadExceptOf Fault m]
    {visit visit' : NodeRef → m Unit} (hg : g.Ordered)
    (h : ∀ r, visit' (r.shift f₀.size) = visit r) {k k' : Nat} {r : NodeRef}
    (hr : r.index < g.size) (hk : g.size ≤ r.index + k) (hk' : g.size ≤ r.index + k') :
    acceptFrom (pure (f₀.after g)) visit' k' (r.shift f₀.size)
      = acceptFrom (pure g) visit k r := by
  induction k generalizing r k' with
  | zero => omega
  | succ k ih =>
      obtain ⟨j, rfl⟩ : ∃ j, k' = j + 1 := ⟨k' - 1, by omega⟩
      have hloop : ∀ cs : List NodeRef, (∀ c ∈ cs, c ∈ g.children r) →
          (cs.map (NodeRef.shift f₀.size)).forM (acceptFrom (pure (f₀.after g)) visit' j)
            = cs.forM (acceptFrom (pure g) visit k) := by
        intro cs hcs
        induction cs with
        | nil => rfl
        | cons c cs ihc =>
            obtain ⟨hlt, hsize⟩ := hg.down r c (hcs c (by simp))
            have hc : acceptFrom (pure (f₀.after g)) visit' j (c.shift f₀.size)
                = acceptFrom (pure g) visit k c := ih (by omega) (by omega) (by omega)
            show (acceptFrom (pure (f₀.after g)) visit' j (c.shift f₀.size) >>= fun _ =>
              (cs.map (NodeRef.shift f₀.size)).forM _) = _
            rw [hc, ihc fun d hd => hcs d (by simp [hd])]
            rfl
      rw [acceptFrom, acceptFrom, h]
      simp only [pure_bind, children_after]
      rw [hloop _ fun c hc => hc]

end Forest

/-- **Plans do not depend on where trees are stored.** -/
theorem TestPlan.ofRoots_after (f₀ : Forest) {g : Forest} (hg : g.Ordered) {roots : List NodeRef}
    (h : ∀ r ∈ roots, r.index < g.size) :
    TestPlan.ofRoots (f₀.after g) (roots.map (NodeRef.shift f₀.size))
      = TestPlan.ofRoots g roots := by
  have hindex : ∀ r, index (f₀.after g) (r.shift f₀.size) = index g r := by
    intro r
    rw [index, index, Forest.identifier?_after]
  have hwalk : ∀ rs : List NodeRef, (∀ r ∈ rs, r.index < g.size) →
      (rs.map (NodeRef.shift f₀.size)).forM
          (Forest.accept (pure (f₀.after g)) (index (f₀.after g)))
        = rs.forM (Forest.accept (pure g) (index g)) := by
    intro rs hrs
    induction rs with
    | nil => rfl
    | cons r rs ih =>
        have hr := hrs r (by simp)
        have hone : Forest.accept (pure (f₀.after g)) (index (f₀.after g)) (r.shift f₀.size)
            = Forest.accept (pure g) (index g) r := by
          rw [Forest.accept, Forest.accept, pure_bind, pure_bind]
          refine Forest.acceptFrom_after hg hindex hr ?_ ?_
          · rw [Forest.depthBound]
            omega
          · rw [Forest.depthBound, Forest.size_after]
            omega
        show (Forest.accept _ _ (r.shift f₀.size) >>= fun _ =>
          (rs.map (NodeRef.shift f₀.size)).forM _) = _
        rw [hone, ih fun x hx => hrs x (by simp [hx])]
        rfl
  have hids : (roots.map (NodeRef.shift f₀.size)).filterMap (f₀.after g).idText?
      = roots.filterMap g.idText? := by
    rw [List.filterMap_map]
    exact List.filterMap_congr fun r _ => Forest.idText?_after f₀ g r
  have hof : ∀ (f : Forest) (rs : List NodeRef), TestPlan.ofRoots f rs
      = ((rs.forM (Forest.accept (pure f) (index f))).run {} >>= fun s =>
          pure { s.2 with roots := (rs.filterMap f.idText?).filterMap s.2.identifiers.get? }) :=
    fun _ _ => rfl
  rw [hof, hof, hwalk roots h, hids]

end TestLauncher
