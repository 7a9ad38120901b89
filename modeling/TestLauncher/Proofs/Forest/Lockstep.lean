import TestLauncher.Proofs.Forest.Likeness
import TestLauncher.Proofs.Forest.Loosening
import TestLauncher.Proofs.Filter.Lineage
import Mathlib.Logic.Relation
import Mathlib.Data.Nat.Find

/-! # Thinning forests that are alike

    A question is blind when it judges a node by what it is linked to, and not by where it
    is stored or by what else is stored with it (`Question.Blind`).  The filters of this
    library are blind (`NodeFilter.Blind.includes`), as a way up that leads to a source does so
    within as many steps as there are nodes (`sourceName_eq_some_iff`).

    When a tree was thinned with a blind question, the same tree is thinned in the same way in
    a forest that is alike (`Alike.forM_thinBelow`).  The other forest may be smaller, and a walk
    through it may not go as deep.  But a walk that came to an end met no cycle
    (`loopless_of_thinBelow`), for thinning takes away nodes without children only and a cycle
    has none; and without cycles no walk goes deeper than there are nodes. -/

namespace TestLauncher

namespace Forest

variable {known : Set NodeRef} {φ : NodeRef → NodeRef} {f f' g : Forest} {ask : Question}
  {root r x : NodeRef} {n : Nat} {s : String}

/-! ## The way up to a source -/

/-- A node that is no root has its own source, or else that of its parent. -/
theorem sourceFrom_succ {y : Node} (hr : f.node? r = some y) (n : Nat) :
    f.sourceFrom (n + 1) r = if y.id.last.isRoot then none else
      (y.source.filter (· ≠ "")).or (y.parent.bind (f.sourceFrom n)) := by
  rw [sourceFrom, hr]
  show (if y.id.last.isRoot then none else _) = _
  cases y.source.filter (· ≠ "") <;> rfl

/-- A node settles what its source is, or leaves it to its parent. -/
theorem sourceFrom_step (f : Forest) (r : NodeRef) :
    (∃ answer, ∀ n, f.sourceFrom (n + 1) r = answer) ∨
      ∃ x p, f.node? r = some x ∧ ∀ n, f.sourceFrom (n + 1) r = f.sourceFrom n p := by
  cases hr : f.node? r with
  | none => exact Or.inl ⟨none, fun n => by rw [sourceFrom, hr]; rfl⟩
  | some x =>
      have hstep := sourceFrom_succ hr
      by_cases hroot : x.id.last.isRoot = true
      · exact Or.inl ⟨none, fun n => by rw [hstep, if_pos hroot]⟩
      · simp only [if_neg hroot] at hstep
        cases hs : x.source.filter (· ≠ "") with
        | some s => exact Or.inl ⟨some s, fun n => by rw [hstep, hs, Option.some_or]⟩
        | none =>
            simp only [hs, Option.none_or] at hstep
            cases hp : x.parent with
            | none => exact Or.inl ⟨none, fun n => by rw [hstep, hp]; rfl⟩
            | some p => exact Or.inr ⟨x, p, rfl, fun n => by rw [hstep, hp]; rfl⟩

/-- More steps are no loss. -/
theorem sourceFrom_of_le {m : Nat} (hmn : m ≤ n) (h : f.sourceFrom m r = some s) :
    f.sourceFrom n r = some s := by
  induction m generalizing r n with
  | zero => cases h
  | succ m ih =>
      obtain ⟨k, rfl⟩ : ∃ k, n = k + 1 := ⟨n - 1, by omega⟩
      rcases f.sourceFrom_step r with ⟨answer, hanswer⟩ | ⟨x, p, -, hp⟩
      · rw [hanswer] at h ⊢
        exact h
      · rw [hp] at h ⊢
        exact ih (by omega) h

/-- A node whose source is found in no fewer steps has as many nodes on its way up. -/
theorem exists_way_to_source (h : f.sourceFrom (n + 1) r = some s)
    (hn : f.sourceFrom n r = none) :
    ∃ way : List NodeRef, way.Nodup ∧ way.length = n + 1 ∧
      ∀ x ∈ way, x.index < f.size ∧ ∃ s, f.sourceFrom (n + 1) x = some s := by
  have hr : r.index < f.size := by
    rw [sourceFrom] at h
    obtain ⟨x, hx, -⟩ := Option.bind_eq_some_iff.mp h
    exact (f.node?_isSome_iff r).mp (by rw [hx]; rfl)
  induction n generalizing r with
  | zero => exact ⟨[r], List.nodup_singleton r, rfl, by simp [hr, h]⟩
  | succ n ih =>
      rcases f.sourceFrom_step r with ⟨answer, hanswer⟩ | ⟨x, p, -, hp⟩
      · rw [hanswer] at h hn
        rw [h] at hn
        cases hn
      · have hpsize : p.index < f.size := by
          rw [hp, sourceFrom] at h
          obtain ⟨y, hy, -⟩ := Option.bind_eq_some_iff.mp h
          exact (f.node?_isSome_iff p).mp (by rw [hy]; rfl)
        obtain ⟨way, hnodup, hlength, hway⟩ := ih ((hp (n + 1)).symm.trans h)
          ((hp n).symm.trans hn) hpsize
        refine ⟨r :: way, List.nodup_cons.mpr ⟨?_, hnodup⟩, by rw [List.length_cons, hlength], ?_⟩
        · -- the nodes further up need fewer steps
          intro hmem
          obtain ⟨-, s', hs'⟩ := hway r hmem
          rw [hn] at hs'
          cases hs'
        · intro x hx
          rcases List.mem_cons.mp hx with rfl | hx
          · exact ⟨hr, s, h⟩
          · obtain ⟨hsize, s', hs'⟩ := hway x hx
            exact ⟨hsize, s', sourceFrom_of_le (Nat.le_succ _) hs'⟩

/-- A source that is found at all is found within as many steps as there are nodes. -/
theorem sourceName_eq_some_iff : f.sourceName r = some s ↔ ∃ n, f.sourceFrom n r = some s := by
  refine ⟨fun h => ⟨_, h⟩, fun h => ?_⟩
  classical
  obtain ⟨n, hn, hmin⟩ : ∃ n, f.sourceFrom n r = some s ∧ ∀ m < n, f.sourceFrom m r ≠ some s :=
    ⟨Nat.find h, Nat.find_spec h, fun m hm => Nat.find_min h hm⟩
  cases n with
  | zero => cases hn
  | succ n =>
      have hnone : f.sourceFrom n r = none := by
        cases hs : f.sourceFrom n r with
        | none => rfl
        | some s' =>
            have hs' := (sourceFrom_of_le (Nat.le_succ n) hs).symm.trans hn
            exact absurd (hs.trans hs') (hmin n (Nat.lt_succ_self n))
      obtain ⟨way, hnodup, hlength, hway⟩ := exists_way_to_source hn hnone
      have hle := length_le_size hnodup fun x hx => (hway x hx).1
      exact sourceFrom_of_le (by omega) hn

theorem Alike.sourceFrom_eq (h : Alike known φ f g) (hr : r ∈ known) (n : Nat) :
    g.sourceFrom n (φ r) = f.sourceFrom n r := by
  induction n generalizing r with
  | zero => rfl
  | succ n ih =>
      obtain ⟨x, hx, hx', hwithin⟩ := h.node r hr
      have hparent : (x.parent.map φ).bind (g.sourceFrom n) = x.parent.bind (f.sourceFrom n) := by
        cases hp : x.parent with
        | none => rfl
        | some p => exact ih (hwithin.parent p hp)
      rw [sourceFrom_succ hx, sourceFrom_succ hx', ← hparent]
      rfl

/-- The class a node belongs to does not depend on where the node is stored. -/
theorem Alike.sourceName_eq (h : Alike known φ f g) (hr : r ∈ known) :
    g.sourceName (φ r) = f.sourceName r := by
  refine Option.ext fun s => ?_
  simp only [sourceName_eq_some_iff, h.sourceFrom_eq hr]

/-! ## Blind questions -/

/-- A question that judges a node by what it is linked to. -/
def Question.Blind (ask : Question) : Prop :=
  ∀ {known : Set NodeRef} {φ : NodeRef → NodeRef} {f g : Forest}, Alike known φ f g →
    ∀ r ∈ known, ask g (φ r) = ask f r

theorem blind_isTest : Question.Blind fun f r => .ok (f.isTest r) :=
  fun h _ hr => congrArg Except.ok (h.isTest_eq hr)

end Forest

/-- A rule supplied from outside that judges a node by what it is linked to. -/
def CustomRule.Blind (rule : CustomRule (Forest × NodeRef)) : Prop :=
  ∀ {known : Set NodeRef} {φ : NodeRef → NodeRef} {f g : Forest}, Forest.Alike known φ f g →
    ∀ r ∈ known, rule.judge (g, φ r) = rule.judge (f, r)

/-- A filter whose rules from outside judge a node by what it is linked to, and not by where it is
stored or by what else there is. -/
def NodeFilter.Blind (filter : NodeFilter) : Prop :=
  ∀ rule, .custom rule ∈ filter.leaves → rule.Blind

theorem NodeRule.judge_alike {rule : NodeRule} {known : Set NodeRef} {φ : NodeRef → NodeRef}
    {f g : Forest} {r : NodeRef} (h : Forest.Alike known φ f g) (hr : r ∈ known)
    (hcustom : ∀ custom, rule = .custom custom → custom.Blind) :
    rule.judge g (φ r) = rule.judge f r := by
  obtain ⟨n, hn, hn', -⟩ := h.node r hr
  cases rule with
  | custom rule => exact hcustom rule rfl h r hr
  | _ rule =>
      simp [NodeRule.judge, NodeRule.judgeSource, hn, hn', h.sourceName_eq hr, Node.renamed]

theorem NodeFilter.Blind.includes {filter : NodeFilter} (h : filter.Blind) :
    (Forest.includes filter).Blind := by
  intro known φ f g halike r hr
  rw [Forest.includes, Forest.includes, NodeFilter.verdict, NodeFilter.verdict]
  congr 1
  refine Filter.apply_congr filter ?_
  intro rule hrule
  exact NodeRule.judge_alike halike hr fun custom hc => h custom (hc ▸ hrule)

namespace Forest

variable {known : Set NodeRef} {φ : NodeRef → NodeRef} {f₀ f f' g : Forest} {ask : Question}
  {root r : NodeRef} {n m : Nat}

/-! ## Walks that come to an end -/

/-- One node is a child of another. -/
def HasChild (f : Forest) (r c : NodeRef) : Prop := c ∈ f.children r

/-- No node of the tree below a root is below itself. -/
def Loopless (f : Forest) (root : NodeRef) : Prop :=
  ∀ x, Relation.ReflTransGen f.HasChild root x → ¬ Relation.TransGen f.HasChild x x

theorem Loopless.child (h : f.Loopless r) {c : NodeRef} (hc : c ∈ f.children r) : f.Loopless c :=
  fun x hx => h x (.head hc hx)

/-- Nodes each of which has a child among them. -/
def Endless (f : Forest) (cycle : Set NodeRef) : Prop := ∀ x ∈ cycle, ∃ c ∈ f.children x, c ∈ cycle

section

variable {cycle : Set NodeRef}

/-- Thinning breaks no cycle, since no node on it is without children. -/
theorem Endless.thinNode (h : f.Endless cycle) (hon : (thinNode ask root r).on f = (.ok (), f')) :
    f'.Endless cycle := by
  rcases thinNode_cases hon with rfl | ⟨hleaf, hd⟩
  · exact h
  · intro x hx
    obtain ⟨c, hc, hcycle⟩ := h x hx
    refine ⟨c, mem_children_detach hd hleaf hc ?_, hcycle⟩
    rintro rfl
    obtain ⟨d, hd, -⟩ := h c hcycle
    rw [hleaf] at hd
    exact List.not_mem_nil hd

/-- No walk that gets on a cycle comes to an end. -/
theorem Endless.not_ok (h : f.Endless cycle) (hr : r ∈ cycle) :
    (visitPostOrderFrom get (Forest.thinNode ask root) n r).on f ≠ (.ok (), f') := by
  induction n generalizing f f' r with
  | zero => exact nofun
  | succ n ih =>
      intro hon
      rw [visitPostOrderFrom, Steps.on_bind_ok (Steps.on_get f)] at hon
      obtain ⟨u, f₁, hloop, -⟩ := Steps.on_bind_eq_ok hon
      obtain ⟨c, hc, hcycle⟩ := h r hr
      obtain ⟨f₂, f₃, h₂, hwalk⟩ := Steps.exists_of_mem_forM (P := fun f => f.Endless cycle)
        (fun _ _ _ _ hs hon => visitPostOrderFrom_preserves (P := fun f => f.Endless cycle)
          (fun _ => rfl) (fun _ _ _ hs hon => hs.thinNode hon) hs hon) h hloop hc
      exact ih h₂ hcycle hwalk

end

/-- A walk that came to an end met no cycle. -/
theorem loopless_of_thinBelow (h : (thinBelow ask root).on f = (.ok (), f')) :
    f.Loopless root := by
  intro x hx hloop
  have hendless : f.Endless {y | Relation.ReflTransGen f.HasChild y x} := by
    intro y hy
    rcases Relation.ReflTransGen.cases_head hy with rfl | hc
    · exact Relation.TransGen.head'_iff.mp hloop
    · exact hc
  rw [thinBelow, visitPostOrder, Steps.on_bind_ok (Steps.on_get f)] at h
  exact hendless.not_ok hx h

/-! ## Walks through forests that are alike -/

/-- A node is thinned in both forests. -/
theorem Alike.thinNode (h : Alike known φ f g) (hask : ask.Blind) (hroot : root ∈ known)
    (hr : r ∈ known) (hon : (thinNode ask root r).on f = (.ok (), f')) :
    ∃ g', (Forest.thinNode ask (φ root) (φ r)).on g = (.ok (), g') ∧ Alike known φ f' g' := by
  obtain ⟨n, hn, hn', -⟩ := h.node r hr
  rw [Forest.thinNode, Steps.on_bind_ok (Steps.on_get _)] at hon ⊢
  rw [hn] at hon
  rw [hn']
  dsimp only at hon ⊢
  have hkeep : (decide (φ r = φ root) || !(n.renamed φ).children.isEmpty)
      = (decide (r = root) || !n.children.isEmpty) := by
    have hempty : (n.renamed φ).children.isEmpty = n.children.isEmpty := OrderedMap.isEmpty_map ..
    rw [hempty, decide_eq_decide.mpr (h.eq_iff hr hroot)]
  rw [hkeep]
  split at hon
  · rename_i hstay
    cases hon
    exact ⟨g, by rw [if_pos hstay]; rfl, h⟩
  · rename_i hleaf
    rw [if_neg hleaf, hask h r hr]
    obtain ⟨stay, f₁, hanswer, hon⟩ := Steps.on_bind_eq_ok hon
    rw [Steps.on_ofExcept] at hanswer
    injection hanswer with hanswer hf
    subst hf
    rw [hanswer, Steps.on_bind_ok (Steps.on_ofExcept (.ok stay) g)]
    cases stay with
    | true =>
        cases hon
        exact ⟨g, rfl, h⟩
    | false =>
        change (uproot r).on f = _ at hon
        show ∃ g', (uproot (φ r)).on g = _ ∧ _
        rw [on_uproot] at hon
        cases hd : f.detach r with
        | error e =>
            rw [hd] at hon
            cases hon
        | ok f₁ =>
            rw [hd] at hon
            cases hon
            obtain ⟨g', hg', h'⟩ := h.detach hr hd
            exact ⟨g', by rw [on_uproot, hg'], h'⟩

/-- A node that a walk comes to, and the nodes it went down through. -/
structure WayDown (f₀ : Forest) (known : Set NodeRef) (above : List NodeRef) (r : NodeRef) :
    Prop where
  known : ∀ a ∈ r :: above, a ∈ known
  leads : ∀ a ∈ above, Relation.TransGen f₀.HasChild a r
  nodup : List.Nodup above
  loopless : f₀.Loopless r

namespace WayDown

variable {above : List NodeRef}

theorem here (hr : r ∈ known) (h : f₀.Loopless r) : WayDown f₀ known [] r :=
  ⟨fun _ ha => List.mem_singleton.mp ha ▸ hr, nofun, List.nodup_nil, h⟩

theorem nodup_cons (h : WayDown f₀ known above r) : (r :: above).Nodup :=
  List.nodup_cons.mpr ⟨fun hmem => h.loopless r .refl (h.leads r hmem), h.nodup⟩

theorem child (h : WayDown f₀ known above r) {c : NodeRef} (hc : c ∈ f₀.children r)
    (hk : c ∈ known) : WayDown f₀ known (r :: above) c := by
  refine ⟨?_, ?_, h.nodup_cons, h.loopless.child hc⟩
  · intro a ha
    rcases List.mem_cons.mp ha with rfl | ha
    · exact hk
    · exact h.known a ha
  · intro a ha
    rcases List.mem_cons.mp ha with rfl | ha
    · exact .single hc
    · exact (h.leads a ha).tail hc

/-- A way down is no longer than there are nodes in a forest that is alike. -/
theorem length_lt (h : WayDown f₀ known above r) (halike : Alike known φ f g) :
    above.length < g.size := by
  have hnodup : ((r :: above).map φ).Nodup :=
    h.nodup_cons.map_on fun a ha b hb e => halike.injective (h.known a ha) (h.known b hb) e
  have hle := length_le_size (f := g) hnodup fun b hb => by
    obtain ⟨a, ha, rfl⟩ := List.mem_map.mp hb
    exact halike.index_lt_renamed (h.known a ha)
  rw [List.length_map, List.length_cons] at hle
  exact hle

end WayDown

/-- Two forests that are alike, and what has become of each of two others by cutting links. -/
structure Underway (known : Set NodeRef) (φ : NodeRef → NodeRef) (f₀ g₀ f g : Forest) : Prop where
  alike : Alike known φ f g
  left : f₀.Loosened f
  right : g₀.Loosened g

/-- A walk through one forest is made through the other as well, where it may go deep enough to
    pass all nodes. -/
theorem Underway.walk {g₀ : Forest} (h : Underway known φ f₀ g₀ f g) (hask : ask.Blind)
    (hroot : root ∈ known) {above : List NodeRef} (hway : WayDown f₀ known above r)
    (hdeep : g₀.size < above.length + m)
    (hon : (visitPostOrderFrom get (Forest.thinNode ask root) n r).on f = (.ok (), f')) :
    ∃ g', (visitPostOrderFrom get (Forest.thinNode ask (φ root)) m (φ r)).on g = (.ok (), g') ∧
      Underway known φ f₀ g₀ f' g' := by
  induction n generalizing f f' g r m above with
  | zero => cases hon
  | succ n ih =>
      have hr : r ∈ known := hway.known r (by simp)
      have hlength := hway.length_lt h.alike
      rw [h.right.size] at hlength
      obtain ⟨k, rfl⟩ : ∃ k, m = k + 1 := ⟨m - 1, by omega⟩
      rw [visitPostOrderFrom, Steps.on_bind_ok (Steps.on_get _)] at hon ⊢
      obtain ⟨u, f₁, hloop, hvisit⟩ := Steps.on_bind_eq_ok hon
      obtain ⟨g₁, hg₁, h₁⟩ := Steps.forM_lockstep (φ := φ)
        (d := visitPostOrderFrom get (Forest.thinNode ask (φ root)) k) (fun c hc f₂ f₃ g₂ h₂ hon =>
          ih h₂ (hway.child (h.left.children r hc) (h.alike.mem_of_child hr hc))
            (by rw [List.length_cons]; omega) hon) h hloop
      obtain ⟨g', hg', h'⟩ := h₁.alike.thinNode hask hroot hr hvisit
      refine ⟨g', ?_, h', h₁.left.trans (loosened_thinNode hvisit),
        h₁.right.trans (loosened_thinNode hg')⟩
      rw [h.alike.children_eq hr, Steps.on_bind_ok hg₁, hg']

/-- **A tree that was thinned** is thinned in the same way in a forest that is alike. -/
theorem Alike.thinBelow (h : Alike known φ f g) (hask : ask.Blind) (hroot : root ∈ known)
    (hon : (thinBelow ask root).on f = (.ok (), f')) :
    ∃ g', (Forest.thinBelow ask (φ root)).on g = (.ok (), g') ∧ Alike known φ f' g' := by
  have hway : WayDown f known [] root := .here hroot (loopless_of_thinBelow hon)
  rw [Forest.thinBelow, visitPostOrder, Steps.on_bind_ok (Steps.on_get _)] at hon ⊢
  obtain ⟨g', hg', h'⟩ := Underway.walk ⟨h, .refl f, .refl g⟩ hask hroot hway
    (m := g.depthBound) (by rw [depthBound]; simp) hon
  exact ⟨g', hg', h'.alike⟩

/-- Trees that were thinned one after the other are thinned in a forest that is alike. -/
theorem Alike.forM_thinBelow (h : Alike known φ f g) (hask : ask.Blind) {roots : List NodeRef}
    (hroots : ∀ r ∈ roots, r ∈ known)
    (hon : (roots.forM (Forest.thinBelow ask)).on f = (.ok (), f')) :
    ∃ g', ((roots.map φ).forM (Forest.thinBelow ask)).on g = (.ok (), g') ∧ Alike known φ f' g' :=
  Steps.forM_lockstep (R := Alike known φ)
    (fun r hr _ _ _ h hon => h.thinBelow hask (hroots r hr) hon) h hon

end Forest

end TestLauncher
