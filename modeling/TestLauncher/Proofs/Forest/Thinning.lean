import TestLauncher.Forest.Sifting
import TestLauncher.Proofs.Forest.Standing

/-! # Thinning a tree that stands in a forest

    Sifting and pruning are one walk with different questions (`sift_follows`,
    `prune_eq`): children before parents, a node without children is asked about, and taken
    away when it is not let through.  On a tree that stands the walk does to the links what
    `Grove.thin` does to the tree (`on_thinBelow`).  Each question is put in a forest in which
    no node has another description and everything from the node up to the root still hangs
    together; what is outside of the tree is never touched. -/

namespace TestLauncher.Forest

/-- What to ask about a node of a forest. -/
abbrev Question := Forest → NodeRef → Except Fault Bool

/-- Takes a node away if it has no children and is not let through; the root stays. -/
def thinNode (ask : Question) (root r : NodeRef) : Steps Forest Unit := do
  let f ← get
  match f.node? r with
  | none => pure ()
  | some n =>
    if r = root || !n.children.isEmpty then pure ()
    else if ← Steps.ofExcept (ask f r) then pure ()
    else uproot r

/-- Takes away what is not let through from the tree below a root. -/
def thinBelow (ask : Question) (root : NodeRef) : Steps Forest Unit :=
  visitPostOrder get (thinNode ask root) root

/-- Whether a filter includes a node. -/
def includes (filter : NodeFilter) : Question := fun f r =>
  (filter.verdict f r).map Verdict.included

/-- Pruning asks whether a node is a test. -/
theorem prune_eq (root : NodeRef) : prune root = thinBelow (fun f r => .ok (f.isTest r)) root := by
  have hvisit : pruneNode root = thinNode (fun f r => .ok (f.isTest r)) root := by
    funext r
    rw [pruneNode, thinNode]
    refine bind_congr ?_
    intro f
    cases hr : f.node? r with
    | none => rfl
    | some n =>
        have htest : f.isTest r = n.kind.isTest := by
          rw [isTest, hr]
          rfl
        rw [htest]
        by_cases hkeep : (r = root || !n.children.isEmpty) = true
        · simp [hkeep]
        · cases hk : n.kind.isTest with
          | true => simp [hkeep, hk]; rfl
          | false => simp [hkeep, hk]; rfl
  rw [prune, thinBelow, hvisit]

/-! ## The journal does not matter -/

/-- Steps on the forest and the journal that do to the forest what other steps do. -/
def Follows {α : Type} (c : Steps (Forest × Journal) α) (d : Steps Forest α) : Prop :=
  ∀ f j, ∃ j', c.on (f, j) = ((d.on f).1, (d.on f).2, j')

theorem follows_pure {α : Type} (a : α) : Follows (pure a) (pure a) := fun _ j => ⟨j, rfl⟩

theorem Follows.bind {α β : Type} {c : Steps (Forest × Journal) α} {d : Steps Forest α}
    {c' : α → Steps (Forest × Journal) β} {d' : α → Steps Forest β} (h : Follows c d)
    (h' : ∀ a, Follows (c' a) (d' a)) : Follows (c >>= c') (d >>= d') := by
  intro f j
  obtain ⟨j₁, hc⟩ := h f j
  rcases hd : d.on f with ⟨result, f₁⟩
  rw [hd] at hc
  cases result with
  | error e =>
      refine ⟨j₁, ?_⟩
      rw [Steps.on_bind_error hc, Steps.on_bind_error hd]
  | ok a =>
      obtain ⟨j₂, hc'⟩ := h' a f₁ j₁
      refine ⟨j₂, ?_⟩
      rw [Steps.on_bind_ok hc, Steps.on_bind_ok hd, hc']

theorem follows_forM {α : Type} {c : α → Steps (Forest × Journal) Unit} {d : α → Steps Forest Unit}
    (h : ∀ a, Follows (c a) (d a)) (as : List α) : Follows (as.forM c) (as.forM d) := by
  induction as with
  | nil => exact follows_pure _
  | cons a as ih => exact (h a).bind fun _ => ih

theorem follows_visitPostOrder {c : NodeRef → Steps (Forest × Journal) Unit}
    {d : NodeRef → Steps Forest Unit} (h : ∀ r, Follows (c r) (d r)) (r : NodeRef) :
    Follows (visitPostOrder (do return (← get).1) c r) (visitPostOrder get d r) := by
  have hlook : Follows (do return (← get).1) (get : Steps Forest Forest) := fun _ j => ⟨j, rfl⟩
  have hfrom : ∀ n r, Follows (visitPostOrderFrom (do return (← get).1) c n r)
      (visitPostOrderFrom get d n r) := by
    intro n
    induction n with
    | zero => exact fun r f j => ⟨j, rfl⟩
    | succ n ih => exact fun r => hlook.bind fun f => (follows_forM ih _).bind fun _ => h r
  exact hlook.bind fun f => hfrom _ r

/-- Sifting asks whether the filter includes a node. -/
theorem sift_follows (filter : NodeFilter) (root : NodeRef) :
    Follows (sift filter root) (thinBelow (includes filter) root) := by
  refine follows_visitPostOrder ?_ root
  intro r f j
  rw [siftNode, thinNode, Steps.on_bind_ok (Steps.on_get _), Steps.on_bind_ok (Steps.on_get _)]
  dsimp only
  cases f.node? r with
  | none => exact ⟨j, rfl⟩
  | some n =>
      dsimp only
      by_cases hkeep : (r = root || !n.children.isEmpty) = true
      · rw [if_pos hkeep, if_pos hkeep]
        exact ⟨j, rfl⟩
      · rw [if_neg hkeep, if_neg hkeep, includes]
        cases filter.verdict f r with
        | error e => exact ⟨j, rfl⟩
        | ok v =>
            obtain ⟨included, reason⟩ := v
            cases included with
            | true => exact ⟨j, rfl⟩
            | false => exact ⟨j.write (removalRecord n ⟨false, reason⟩), rfl⟩

/-! ## One node -/

section

variable {ask : Question} {root r : NodeRef} {f : Forest} {n : Node}

/-- A node with children stays. -/
theorem thinNode_parent (hr : f.node? r = some n) (hc : n.children.values ≠ []) :
    (thinNode ask root r).on f = (.ok (), f) := by
  have hkeep : (r = root || !n.children.isEmpty) = true := by
    have : n.children.isEmpty = false := by
      rw [OrderedMap.isEmpty, List.isEmpty_eq_false_iff]
      exact fun h => hc (by rw [OrderedMap.values, h]; rfl)
    rw [this, Bool.not_false, Bool.or_true]
  rw [thinNode, Steps.on_bind_ok (Steps.on_get _), hr]
  dsimp only
  rw [if_pos hkeep]
  rfl

/-- The root stays. -/
theorem thinNode_root (hr : f.node? root = some n) :
    (thinNode ask root root).on f = (.ok (), f) := by
  rw [thinNode, Steps.on_bind_ok (Steps.on_get _), hr]
  dsimp only
  rw [if_pos (by simp)]
  rfl

/-- A node without children is asked about. -/
theorem thinNode_leaf (hr : f.node? r = some n) (hc : n.children.values = []) (hroot : r ≠ root) :
    (thinNode ask root r).on f =
      match ask f r with
      | .error e => (.error e, f)
      | .ok true => (.ok (), f)
      | .ok false => (uproot r).on f := by
  have hkeep : ¬ (r = root || !n.children.isEmpty) = true := by
    have : n.children.isEmpty = true := by
      rw [OrderedMap.isEmpty, List.isEmpty_iff]
      exact List.map_eq_nil_iff.mp hc
    simp [this, hroot]
  rw [thinNode, Steps.on_bind_ok (Steps.on_get _), hr]
  dsimp only
  rw [if_neg hkeep]
  cases ask f r with
  | error e => rfl
  | ok stay => cases stay <;> rfl

/-- The children of a node are the entries under their own ids. -/
theorem Stands.get?_child {p : NodeRef} {pp : Option NodeRef} {cs : List NodeRef} {q : Node}
    (h : f.Stands p pp cs) (hp : f.node? p = some q) (hr : f.node? r = some n) (hmem : r ∈ cs) :
    q.children.get? n.id = some r := by
  obtain ⟨q', hq', -, hv, hk⟩ := h
  rw [hp] at hq'
  cases hq'
  obtain ⟨e, he, rfl⟩ := List.mem_map.mp (hv.symm ▸ hmem)
  have hid := hk e he
  rw [hr] at hid
  have hkey : n.id = e.1 := Option.some.inj hid
  rw [hkey]
  exact (q.children.get?_eq_some_iff _ _).mpr he

/-- Dealing with a node whose children were dealt with: it fails when the question does. -/
theorem on_thinNode_error {p : NodeRef} {b : Grove NodeRef} {e : Fault}
    (hr : f.Stands r (some p) b.roots) (hroot : r ≠ root)
    (h : Grove.stays (ask f) r b = .error e) :
    ((thinNode ask root r).on f).1 = .error e := by
  obtain ⟨n, hn, -, hnc⟩ := hr.exists_node
  cases b with
  | cons x y z => cases h
  | nil =>
      have hask : ask f r = .error e := h
      rw [thinNode_leaf hn hnc hroot, hask]

/-- Nothing happens when the node stays, and when it does not it is missing from the children of
    its parent. -/
theorem on_thinNode_ok {p : NodeRef} {pp : Option NodeRef} {b : Grove NodeRef}
    {pre post : List NodeRef} {stay : Bool} (hr : f.Stands r (some p) b.roots)
    (hp : f.Stands p pp (pre ++ r :: post)) (hrp : r ≠ p) (hroot : r ≠ root) (hpre : r ∉ pre)
    (hpost : r ∉ post) (h : Grove.stays (ask f) r b = .ok stay) :
    ∃ f', (thinNode ask root r).on f = (.ok (), f') ∧
      f'.Stands p pp ((pre ++ if stay then [r] else []) ++ post) ∧
      (∀ x, f'.bare? x = f.bare? x) ∧ (∀ x, x ≠ r → x ≠ p → f'.node? x = f.node? x) ∧
      (stay = true → f' = f) := by
  obtain ⟨n, hn, hnp, hnc⟩ := hr.exists_node
  have keep : (thinNode ask root r).on f = (.ok (), f) → stay = true →
      ∃ f', (thinNode ask root r).on f = (.ok (), f') ∧
        f'.Stands p pp ((pre ++ if stay then [r] else []) ++ post) ∧
        (∀ x, f'.bare? x = f.bare? x) ∧ (∀ x, x ≠ r → x ≠ p → f'.node? x = f.node? x) ∧
        (stay = true → f' = f) := by
    rintro hon rfl
    refine ⟨f, hon, ?_, fun _ => rfl, fun _ _ _ => rfl, fun _ => rfl⟩
    rw [if_pos rfl, List.append_assoc]
    exact hp
  cases b with
  | cons x y z =>
      cases h
      exact keep (thinNode_parent hn (by rw [hnc]; exact List.cons_ne_nil _ _)) rfl
  | nil =>
      have hask : ask f r = .ok stay := h
      have hleaf : (thinNode ask root r).on f = _ := thinNode_leaf hn hnc hroot
      rw [hask] at hleaf
      cases stay with
      | true => exact keep hleaf rfl
      | false =>
          -- the leaf goes, and with it the entry of its parent that has its id
          obtain ⟨q, hq, hqp, hqv, hqk⟩ := id hp
          have hget := hp.get?_child hq hn (by simp)
          obtain ⟨f', hdetach, hpluck⟩ := detach_leaf hn hnp hnc hq hget hrp
          have huproot : (uproot r).on f = (.ok (), f') := by
            rw [on_uproot, hdetach]
          have hbare := hpluck.bare? ⟨n, hn⟩
          refine ⟨f', hleaf.trans huproot, ?_, hbare, hpluck.frame, fun h => by cases h⟩
          have hp' := hpluck.parent n hn
          rw [hq] at hp'
          have hid : (f.node? r).map Node.id = some n.id := by
            rw [hn]
            rfl
          rw [if_neg Bool.false_ne_true, List.append_nil]
          refine ⟨_, hp', hqp, values_erase_child hqv hqk hid hpre hpost, ?_⟩
          intro e he
          rw [map_id_of_bare? (hbare e.2)]
          exact hqk e ((OrderedMap.sublist_strike _ _).mem he)

end

/-! ## The trees below a node -/

/-- In the other forest no node has another description, and the nodes on a path have the parents
    they had. -/
def Along (f f' : Forest) (path : List NodeRef) : Prop :=
  (∀ x, f'.bare? x = f.bare? x) ∧ ∀ x ∈ path, f'.parent? x = f.parent? x

/-- Each answer is given in a forest in which everything along the path of the node hangs together
    as it did. -/
def Answers (ask : Question) (f : Forest) (paths : Grove (List NodeRef))
    (v : NodeRef → Except Fault Bool) : Prop :=
  ∀ r rest, r :: rest ∈ paths.toList → ∃ f', f.Along f' (r :: rest) ∧ v r = ask f' r

/-- The trees of a grove below a node have become those of another grove, and nothing else has
    changed. -/
structure Thinned (f f' : Forest) (p : NodeRef) (g g' : Grove NodeRef) : Prop where
  holds : f'.Holds (some p) g'
  bare : ∀ x, f'.bare? x = f.bare? x
  frame : ∀ x, x ∉ g.toList → x ≠ p → f'.node? x = f.node? x

/-- The walk over the trees of a grove. -/
def walk (ask : Question) (root : NodeRef) (n : Nat) (g : Grove NodeRef) : Steps Forest Unit :=
  g.roots.forM (visitPostOrderFrom get (thinNode ask root) n)

theorem on_walk_cons {ask : Question} {root r : NodeRef} {n : Nat} {b s : Grove NodeRef}
    {f : Forest} (hb : f.children r = b.roots) :
    (walk ask root (n + 1) (.cons r b s)).on f =
      (walk ask root n b >>= fun _ => thinNode ask root r >>= fun _ =>
        walk ask root (n + 1) s).on f := by
  show ((visitPostOrderFrom get (thinNode ask root) (n + 1) r) >>= fun _ =>
    walk ask root (n + 1) s).on f = _
  rw [visitPostOrderFrom, bind_assoc, Steps.on_bind_ok (Steps.on_get f), hb, bind_assoc]
  rfl

/-- The nodes of a grove are different from each other, from those above it, from those that are
    left of the trees before it, and from the root of the walk. -/
structure Apart (root : NodeRef) (above pre : List NodeRef) (g : Grove NodeRef) : Prop where
  nodup : g.toList.Nodup
  above : ∀ x ∈ above, x ∉ g.toList
  pre : ∀ x ∈ pre, x ∉ g.toList
  root : root ∉ g.toList

section

variable {root r : NodeRef} {above pre : List NodeRef} {b s : Grove NodeRef}

theorem Apart.below (h : Apart root above pre (.cons r b s)) : Apart root (r :: above) [] b := by
  obtain ⟨hrb, -, hb, -, -⟩ := Grove.nodup_cons.mp h.nodup
  refine ⟨hb, ?_, fun x hx => absurd hx List.not_mem_nil, ?_⟩
  · intro x hx hxb
    rcases List.mem_cons.mp hx with rfl | hx
    · exact hrb hxb
    · exact h.above x hx (by simp [hxb])
  · intro hb
    exact h.root (by simp [hb])

/-- The trees beside the first one, when that one stays or is taken away. -/
theorem Apart.next {stay : Bool} (h : Apart root above pre (.cons r b s)) :
    Apart root above (pre ++ if stay then [r] else []) s := by
  obtain ⟨-, hrs, -, hs, -⟩ := Grove.nodup_cons.mp h.nodup
  refine ⟨hs, fun x hx hxs => h.above x hx (by simp [hxs]), ?_,
    fun hs => h.root (by simp [hs])⟩
  intro x hx hxs
  rcases List.mem_append.mp hx with hx | hx
  · exact h.pre x hx (by simp [hxs])
  · cases stay with
    | true => exact hrs (List.mem_singleton.mp hx ▸ hxs)
    | false => exact absurd hx List.not_mem_nil

/-- The first tree has none of the nodes above it or beside it. -/
theorem Apart.not_mem_tree {x : NodeRef} (h : Apart root above pre (.cons r b s))
    (hx : x ∈ s.toList ∨ x ∈ above) : x ≠ r ∧ x ∉ b.toList := by
  obtain ⟨-, hrs, -, -, hbs⟩ := Grove.nodup_cons.mp h.nodup
  rcases hx with hx | hx
  · exact ⟨fun e => hrs (e ▸ hx), fun hb => hbs x hb hx⟩
  · exact ⟨fun e => h.above x hx (by simp [e]), fun hb => h.above x hx (by simp [hb])⟩

/-- What is done below a node leaves the path to it as it is. -/
theorem Thinned.along {f f' : Forest} {pp : Option NodeRef} {b' : Grove NodeRef}
    (h : Thinned f f' r b b') (hr : f.Stands r pp b.roots) (hr' : f'.Stands r pp b'.roots)
    (hapart : Apart root above pre (.cons r b s)) : f.Along f' (r :: above) := by
  refine ⟨h.bare, ?_⟩
  intro x hx
  rcases List.mem_cons.mp hx with rfl | hx
  · rw [hr'.parent, hr.parent]
  · obtain ⟨hxr, hxb⟩ := hapart.not_mem_tree (Or.inr hx)
    rw [parent?, parent?, h.frame x hxb hxr]

end

/-- Answers to the walks below a node, to the node, and beside it, are answers to the whole. -/
def answers (r : NodeRef) (b : Grove NodeRef) (a : Except Fault Bool)
    (vb vs : NodeRef → Except Fault Bool) : NodeRef → Except Fault Bool :=
  fun x => if x = r then a else if x ∈ b.toList then vb x else vs x

section

variable {ask : Question} {root r : NodeRef} {above pre : List NodeRef} {b s : Grove NodeRef}
  {a : Except Fault Bool} {vb vs : NodeRef → Except Fault Bool}

theorem answers_self : answers r b a vb vs r = a := if_pos rfl

theorem thin_answers_below (hn : (Grove.cons r b s).toList.Nodup) :
    b.thin (answers r b a vb vs) = b.thin vb := by
  refine Grove.thin_congr ?_
  intro x hx
  have hr : x ≠ r := fun e => (Grove.nodup_cons.mp hn).1 (e ▸ hx)
  rw [answers, if_neg hr, if_pos hx]

theorem answers_beside (hn : (Grove.cons r b s).toList.Nodup) :
    ∀ x ∈ s.toList, answers r b a vb vs x = vs x := by
  obtain ⟨-, hrs, -, -, hbs⟩ := Grove.nodup_cons.mp hn
  intro x hx
  have hr : x ≠ r := fun e => hrs (e ▸ hx)
  have hb : x ∉ b.toList := fun hb => hbs x hb hx
  rw [answers, if_neg hr, if_neg hb]

theorem stays_answers {b' : Grove NodeRef} {f₁ : Forest} :
    Grove.stays (answers r b (ask f₁ r) vb vs) r b' = Grove.stays (ask f₁) r b' := by
  rw [Grove.stays, Grove.stays, answers_self]

theorem Along.refl (f : Forest) (path : List NodeRef) : f.Along f path :=
  ⟨fun _ => rfl, fun _ _ => rfl⟩

theorem Answers.refl (f : Forest) (paths : Grove (List NodeRef)) : Answers ask f paths (ask f) :=
  fun _ _ _ => ⟨f, .refl f _, rfl⟩

/-- Answers given in forests that agree with one forest along the paths agree with any that agrees
    with that one along the paths. -/
theorem Answers.trans {f f' : Forest} (h : Answers ask f' (s.withPaths above) vs)
    (hbare : ∀ x, f'.bare? x = f.bare? x)
    (hparent : ∀ x, x ∈ s.toList ∨ x ∈ above → f'.parent? x = f.parent? x) :
    Answers ask f (s.withPaths above) vs := by
  intro x rest hmem
  obtain ⟨f'', ⟨hb, hp⟩, hv⟩ := h x rest hmem
  obtain ⟨-, -, -, -, hall⟩ := Grove.mem_of_mem_withPaths hmem
  refine ⟨f'', ⟨fun y => (hb y).trans (hbare y), ?_⟩, hv⟩
  intro y hy
  exact (hp y hy).trans (hparent y (hall y hy))

/-- Answers to a tree with trees beside it, from those to its parts. -/
theorem answers_cons {f f₁ : Forest} (hn : (Grove.cons r b s).toList.Nodup)
    (hb : Answers ask f (b.withPaths (r :: above)) vb) (hr : f.Along f₁ (r :: above))
    (hs : Answers ask f (s.withPaths above) vs) :
    Answers ask f ((Grove.cons r b s).withPaths above) (answers r b (ask f₁ r) vb vs) := by
  obtain ⟨hrb, hrs, -, -, hbs⟩ := Grove.nodup_cons.mp hn
  intro x rest hmem
  simp only [Grove.withPaths, Grove.toList_cons, List.mem_cons, List.mem_append] at hmem
  rcases hmem with heq | hmem | hmem
  · injection heq with hx hrest
    subst hx
    subst hrest
    exact ⟨f₁, hr, answers_self⟩
  · obtain ⟨y, rest', heq, hy, -⟩ := Grove.mem_of_mem_withPaths hmem
    injection heq with hx hrest
    subst hx
    obtain ⟨f', hf', hv⟩ := hb x rest hmem
    have hxr : x ≠ r := fun e => hrb (e ▸ hy)
    exact ⟨f', hf', by rw [answers, if_neg hxr, if_pos hy, hv]⟩
  · obtain ⟨y, rest', heq, hy, -⟩ := Grove.mem_of_mem_withPaths hmem
    injection heq with hx hrest
    subst hx
    obtain ⟨f', hf', hv⟩ := hs x rest hmem
    have hxr : x ≠ r := fun e => hrs (e ▸ hy)
    have hxb : x ∉ b.toList := fun hb => hbs x hb hy
    exact ⟨f', hf', by rw [answers, if_neg hxr, if_neg hxb, hv]⟩

end

/-- What became of a tree and of the trees beside it is what became of them together. -/
theorem thinned_cons {f f₁ f₂ f₃ : Forest} {p r : NodeRef} {b b' s s' : Grove NodeRef}
    {stay : Bool} (hn : (Grove.cons r b s).toList.Nodup) (hp : p ∉ (Grove.cons r b s).toList)
    (hsub : b'.toList.Sublist b.toList) (hr : f₁.Stands r (some p) b'.roots)
    (hb : f₁.Holds (some r) b') (hbare : ∀ x, f₂.bare? x = f.bare? x)
    (hframe : ∀ x, x ∉ b.toList → x ≠ r → x ≠ p → f₂.node? x = f.node? x)
    (hsame : stay = true → f₂ = f₁) (hs : Thinned f₂ f₃ p s s') :
    Thinned f f₃ p (.cons r b s) (if stay then .cons r b' s' else s') := by
  obtain ⟨-, hrs, -, -, hbs⟩ := Grove.nodup_cons.mp hn
  refine ⟨?_, fun x => (hs.bare x).trans (hbare x), ?_⟩
  · cases stay with
    | false => exact hs.holds
    | true =>
        have h₂ := hsame rfl
        subst h₂
        have hrp : r ≠ p := fun e => hp (by simp [e])
        have hr₃ : f₃.node? r = f₂.node? r := hs.frame r hrs hrp
        have hb₃ : ∀ x ∈ b'.toList, f₃.node? x = f₂.node? x := by
          intro x hx
          have hxb := hsub.mem hx
          exact hs.frame x (hbs x hxb) fun e => hp (by simp [← e, hxb])
        exact ⟨hr.congr hr₃ fun c _ => hs.bare c, holds_congr hb₃ hb, hs.holds⟩
  · intro x hx hxp
    simp only [Grove.toList_cons, List.mem_cons, List.mem_append, not_or] at hx
    rw [hs.frame x hx.2.2 hxp, hframe x hx.2.1 hx.1 hxp]

/-- **The walk thins.**  On the trees of a grove below a node it ends as thinning the grove ends,
    with the answers it was given, and leaves what thinning leaves. -/
theorem on_walk {ask : Question} {root : NodeRef} (g : Grove NodeRef) :
    ∀ {f : Forest} {p : NodeRef} {pp : Option NodeRef} {pre above : List NodeRef} {n : Nat},
      f.Stands p pp (pre ++ g.roots) → f.Holds (some p) g → p ∈ above →
      Apart root above pre g → g.height ≤ n →
      ∃ v, Answers ask f (g.withPaths above) v ∧
        match g.thin v with
        | .error e => ((walk ask root n g).on f).1 = .error e
        | .ok g' => ∃ f', (walk ask root n g).on f = (.ok (), f') ∧
            f'.Stands p pp (pre ++ g'.roots) ∧ Thinned f f' p g g' := by
  induction g with
  | nil =>
      intro f p pp pre above n hp _ _ _ _
      exact ⟨ask f, .refl f _, f, rfl, hp, trivial, fun _ => rfl, fun _ _ _ => rfl⟩
  | cons r b s ihb ihs =>
      rintro f p pp pre above n hp ⟨hr, hb, hs⟩ hpabove hapart hheight
      have hn := hapart.nodup
      obtain ⟨-, hrs, -, -, hbs⟩ := Grove.nodup_cons.mp hn
      obtain ⟨m, rfl⟩ : ∃ m, n = m + 1 := by
        cases n with
        | zero => simp [Grove.height] at hheight
        | succ m => exact ⟨m, rfl⟩
      have hbm : b.height ≤ m := by
        simp only [Grove.height] at hheight
        omega
      have hsm : s.height ≤ m + 1 := by
        simp only [Grove.height] at hheight
        omega
      have hrp : r ≠ p := fun e => hapart.above p hpabove (by simp [e])
      have hroot : r ≠ root := fun e => hapart.root (by simp [e])
      have hpb : p ∉ b.toList := fun h => hapart.above p hpabove (by simp [h])
      have hps : p ∉ s.toList := fun h => hapart.above p hpabove (by simp [h])
      have hpre : r ∉ pre := fun h => hapart.pre r h (by simp)
      have hpost : r ∉ s.roots := fun h =>
        hrs (Grove.mem_toList_of_mem_roots h)
      have hr' : f.Stands r (some p) ([] ++ b.roots) := hr
      -- first the trees below the root, in the forest as it is
      obtain ⟨vb, hvb, hwalk⟩ := ihb hr' hb (List.mem_cons_self ..) hapart.below hbm
      rw [Grove.roots_cons] at hp
      cases hthin : b.thin vb with
      | error e =>
          rw [hthin] at hwalk
          refine ⟨_, answers_cons hn hvb (.refl f _) (.refl f _), ?_⟩
          rw [Grove.thin_cons_below ((thin_answers_below hn).trans hthin)]
          show ((walk ask root (m + 1) (.cons r b s)).on f).1 = .error e
          rw [on_walk_cons hr.children]
          exact Steps.on_bind_fails hwalk _
      | ok b' =>
          rw [hthin] at hwalk
          obtain ⟨f₁, hon₁, hr₁, hth₁⟩ := hwalk
          have hf₁ : ∀ x, x ∉ b.toList → x ≠ r → f₁.node? x = f.node? x := hth₁.frame
          have hp₁ : f₁.Stands p pp (pre ++ r :: s.roots) :=
            hp.congr (hf₁ p hpb (Ne.symm hrp)) fun c _ => hth₁.bare c
          have halong : f.Along f₁ (r :: above) := hth₁.along hr hr₁ hapart
          -- then the root itself, in the forest this leaves
          cases hstay : Grove.stays (ask f₁) r b' with
          | error e =>
              refine ⟨_, answers_cons hn hvb halong (.refl f _), ?_⟩
              rw [Grove.thin_cons_self ((thin_answers_below hn).trans hthin)
                (stays_answers.trans hstay)]
              show ((walk ask root (m + 1) (.cons r b s)).on f).1 = .error e
              rw [on_walk_cons hr.children, Steps.on_bind_ok hon₁]
              exact Steps.on_bind_fails (on_thinNode_error hr₁ hroot hstay) _
          | ok stay =>
              obtain ⟨f₂, hon₂, hp₂, hbare₂, hframe₂, hsame⟩ :=
                on_thinNode_ok hr₁ hp₁ hrp hroot hpre hpost hstay
              -- neither step has touched the trees beside it
              have hbare : ∀ x, f₂.bare? x = f.bare? x := fun x => (hbare₂ x).trans (hth₁.bare x)
              have hf₂ : ∀ x, x ∉ b.toList → x ≠ r → x ≠ p → f₂.node? x = f.node? x :=
                fun x hxb hxr hxp => (hframe₂ x hxr hxp).trans (hf₁ x hxb hxr)
              have hs₂ : f₂.Holds (some p) s := by
                refine holds_congr (fun x hx => hf₂ x (fun h => hbs x h hx) ?_ ?_) hs
                · exact fun e => hrs (e ▸ hx)
                · exact fun e => hps (e ▸ hx)
              -- and then these, with the root among those before them if it stayed
              obtain ⟨vs, hvs, hwalk⟩ := ihs hp₂ hs₂ hpabove hapart.next hsm
              have hparent : ∀ x, x ∈ s.toList ∨ x ∈ above → f₂.parent? x = f.parent? x := by
                intro x hx
                by_cases hxp : x = p
                · rw [hxp, hp₂.parent, hp.parent]
                · obtain ⟨hxr, hxb⟩ := hapart.not_mem_tree hx
                  rw [parent?, parent?, hf₂ x hxb hxr hxp]
              refine ⟨_, answers_cons hn hvb halong (hvs.trans hbare hparent), ?_⟩
              rw [Grove.thin_cons_ok ((thin_answers_below hn).trans hthin)
                (stays_answers.trans hstay), Grove.thin_congr (answers_beside hn),
                on_walk_cons hr.children, Steps.on_bind_ok hon₁, Steps.on_bind_ok hon₂]
              cases hthins : s.thin vs with
              | error e =>
                  rw [hthins] at hwalk
                  exact hwalk
              | ok s' =>
                  rw [hthins] at hwalk
                  obtain ⟨f₃, hon₃, hp₃, hth₃⟩ := hwalk
                  refine ⟨f₃, hon₃, ?_, ?_⟩
                  · cases stay with
                    | true =>
                        rw [List.append_assoc] at hp₃
                        exact hp₃
                    | false =>
                        rw [List.append_assoc] at hp₃
                        exact hp₃
                  · exact thinned_cons hn (hapart.above p hpabove) (Grove.sublist_thin hthin) hr₁
                      hth₁.holds hbare hf₂ hsame hth₃

/-! ## Whole trees -/

/-- Answers along paths that go on beyond the roots are answers along the paths up to the roots. -/
theorem Answers.up_to_roots {ask : Question} {f : Forest} {g : Grove NodeRef}
    {above : List NodeRef} {v : NodeRef → Except Fault Bool}
    (h : Answers ask f (g.withPaths above) v) : Answers ask f (g.withPaths []) v := by
  intro r rest hmem
  obtain ⟨f', ⟨hbare, hparent⟩, hv⟩ := h r (rest ++ above) (Grove.append_mem_withPaths hmem above)
  exact ⟨f', ⟨hbare, fun x hx => hparent x (List.mem_append_left above hx)⟩, hv⟩

/-- Thinning the tree below a root that stands.  What is above the root, as far as that is not in
    the tree, stays what it is as well. -/
theorem on_thinBelow {ask : Question} {f : Forest} {root : NodeRef} {pp : Option NodeRef}
    {b : Grove NodeRef} {above : List NodeRef}
    (habove : ∀ x ∈ above, x ∉ (Grove.tree root b).toList)
    (hroot : f.Stands root pp b.roots) (hb : f.Holds (some root) b)
    (hn : (Grove.tree root b).toList.Nodup) :
    ∃ v, Answers ask f (b.withPaths (root :: above)) v ∧
      match b.thin v with
      | .error e => ((thinBelow ask root).on f).1 = .error e
      | .ok b' => ∃ f', (thinBelow ask root).on f = (.ok (), f') ∧
          f'.Stands root pp b'.roots ∧ Thinned f f' root b b' := by
  obtain ⟨hrb, -, hnb, -, -⟩ := Grove.nodup_cons.mp hn
  have hapart : Apart root (root :: above) [] b := by
    refine ⟨hnb, ?_, fun x hx => absurd hx List.not_mem_nil, hrb⟩
    intro x hx hxb
    rcases List.mem_cons.mp hx with rfl | hx
    · exact hrb hxb
    · exact habove x hx (Grove.mem_tree.mpr (Or.inr hxb))
  -- the root is visited last, and stays
  have hon : (thinBelow ask root).on f
      = (walk ask root f.size b >>= fun _ => thinNode ask root root).on f := by
    rw [thinBelow, visitPostOrder, Steps.on_bind_ok (Steps.on_get f), depthBound,
      visitPostOrderFrom, Steps.on_bind_ok (Steps.on_get f), hroot.children]
    rfl
  have hroot' : f.Stands root pp ([] ++ b.roots) := hroot
  obtain ⟨v, hv, hwalk⟩ :=
    on_walk b hroot' hb (List.mem_cons_self ..) hapart (height_le_size hb hnb)
  refine ⟨v, hv, ?_⟩
  rw [hon]
  cases hthin : b.thin v with
  | error e =>
      rw [hthin] at hwalk
      exact Steps.on_bind_fails hwalk _
  | ok b' =>
      rw [hthin] at hwalk
      obtain ⟨f', hw, hroot'', hth⟩ := hwalk
      obtain ⟨n, hn', -⟩ := hroot''.exists_node
      exact ⟨f', (Steps.on_bind_ok hw _).trans (thinNode_root hn'), hroot'', hth⟩

/-- Thinning the trees of a grove one after the other. -/
theorem holds_thinBelow {ask : Question} {above : List NodeRef} (g : Grove NodeRef) :
    ∀ {f f' : Forest} {pp : Option NodeRef}, (∀ x ∈ above, x ∉ g.toList) → f.Holds pp g →
      g.toList.Nodup → (g.roots.forM (thinBelow ask)).on f = (.ok (), f') →
      ∃ v g', Answers ask f (g.withPaths above) v ∧ g.thinBelow v = .ok g' ∧ f'.Holds pp g' ∧
        (∀ x, f'.bare? x = f.bare? x) ∧ ∀ x, x ∉ g.toList → f'.node? x = f.node? x := by
  induction g with
  | nil =>
      intro f f' pp _ _ _ hon
      cases hon
      exact ⟨ask f, .nil, .refl f _, rfl, trivial, fun _ => rfl, fun _ _ => rfl⟩
  | cons r b s _ ihs =>
      rintro f f' pp habove ⟨hr, hb, hs⟩ hn hon
      obtain ⟨hrb, hrs, hnb, hns, hbs⟩ := Grove.nodup_cons.mp hn
      have htree : ∀ x ∈ above, x ∉ (Grove.tree r b).toList := by
        intro x hx hxt
        refine habove x hx ?_
        rw [Grove.toList_cons, List.mem_cons, List.mem_append]
        exact (Grove.mem_tree.mp hxt).imp_right Or.inl
      obtain ⟨vb, hvb, hthin⟩ := on_thinBelow htree hr hb (Grove.nodup_tree.mpr ⟨hrb, hnb⟩)
      obtain ⟨u, f₁, hon₁, hon₂⟩ := Steps.on_bind_eq_ok hon
      cases hbt : b.thin vb with
      | error e =>
          rw [hbt] at hthin
          rw [hon₁] at hthin
          cases hthin
      | ok b' =>
          rw [hbt] at hthin
          obtain ⟨f₁', hon₁', hr₁, hth⟩ := hthin
          rw [hon₁] at hon₁'
          cases hon₁'
          have hframe : ∀ x, x ∉ (Grove.tree r b).toList → f₁.node? x = f.node? x := by
            intro x hx
            rw [Grove.mem_tree, not_or] at hx
            exact hth.frame x hx.2 hx.1
          -- the other trees share nothing with this one
          have hout : ∀ x ∈ s.toList, x ∉ (Grove.tree r b).toList := by
            intro x hx hxt
            rcases Grove.mem_tree.mp hxt with rfl | hxb
            · exact hrs hx
            · exact hbs x hxb hx
          have hs₁ : f₁.Holds pp s := holds_congr (fun x hx => hframe x (hout x hx)) hs
          have hbeside : ∀ x ∈ above, x ∉ s.toList := fun x hx hxs => habove x hx (by simp [hxs])
          obtain ⟨vs, s', hvs, hst, hs', hbare, hframe'⟩ := ihs hbeside hs₁ hns hon₂
          have hvs' : Answers ask f (s.withPaths above) vs := by
            refine hvs.trans hth.bare ?_
            intro x hx
            have hxt : x ∉ (Grove.tree r b).toList := hx.elim (hout x) (htree x)
            rw [parent?, parent?, hframe x hxt]
          have hsub := Grove.sublist_thin hbt
          refine ⟨_, .cons r b' s', answers_cons hn hvb (.refl f _) hvs', ?_, ?_, ?_, ?_⟩
          · rw [Grove.thinBelow_cons_ok ((thin_answers_below hn).trans hbt),
              Grove.thinBelow_congr (answers_beside hn), hst]
            rfl
          · have hr' : f'.Stands r pp b'.roots := hr₁.congr (hframe' r hrs) fun c _ => hbare c
            have hb' : f'.Holds (some r) b' :=
              holds_congr (fun x hx => hframe' x (hbs x (hsub.mem hx))) hth.holds
            exact ⟨hr', hb', hs'⟩
          · exact fun x => (hbare x).trans (hth.bare x)
          · intro x hx
            simp only [Grove.toList_cons, List.mem_cons, List.mem_append, not_or] at hx
            rw [hframe' x hx.2.2, hth.frame x hx.2.1 hx.1]

/-- Thinning trees comes to an end when every question is answered. -/
theorem forM_thinBelow_ok {ask : Question} (hask : ∀ f r, ∃ stay, ask f r = .ok stay)
    (g : Grove NodeRef) :
    ∀ {f : Forest} {pp : Option NodeRef}, f.Holds pp g → g.toList.Nodup →
      ∃ f', (g.roots.forM (thinBelow ask)).on f = (.ok (), f') := by
  induction g with
  | nil => exact fun _ _ => ⟨_, rfl⟩
  | cons r b s _ ihs =>
      rintro f pp ⟨hr, hb, hs⟩ hn
      obtain ⟨hrb, hrs, hnb, hns, hbs⟩ := Grove.nodup_cons.mp hn
      obtain ⟨v, hv, hthin⟩ :=
        on_thinBelow (List.forall_mem_nil _) hr hb (Grove.nodup_tree.mpr ⟨hrb, hnb⟩)
      obtain ⟨b', hb'⟩ : ∃ b', b.thin v = .ok b' := by
        refine Grove.thin_ok ?_
        intro x hx
        obtain ⟨rest, hpath⟩ := Grove.exists_path [r] hx
        obtain ⟨f', -, hvx⟩ := hv x rest hpath
        rw [hvx]
        exact hask f' x
      rw [hb'] at hthin
      obtain ⟨f₁, hon, -, hth⟩ := hthin
      have hs₁ : f₁.Holds pp s := by
        refine holds_congr (fun x hx => hth.frame x (fun h => hbs x h hx) ?_) hs
        exact fun e => hrs (e ▸ hx)
      obtain ⟨f', hon'⟩ := ihs hs₁ hns
      exact ⟨f', (Steps.on_bind_ok hon _).trans hon'⟩

end TestLauncher.Forest
