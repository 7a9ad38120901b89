import TestLauncher.Fault
import Mathlib.Data.List.Nodup

/-! # Groves

    A grove is a row of trees side by side, as a value of its own: the root of the first
    tree, the grove below that root, and the trees beside it.  So one structural induction
    reaches every node.

    Thinning asks about the nodes that have nothing left below them, in post-order, and
    takes away those that may not stay.  `toList_thin` collapses the walk to one condition
    on the grove it started from: a node stays exactly when some node of its subtree is let
    through. -/

namespace TestLauncher

/-- Trees side by side. -/
inductive Grove (α : Type) where
  | nil
  /-- A tree, by its root and what stands below it, and the trees beside it. -/
  | cons (root : α) (below beside : Grove α)
deriving DecidableEq

namespace Grove

variable {α β : Type}

/-- The roots of the trees, in order. -/
def roots : Grove α → List α
  | nil => []
  | cons a _ beside => a :: beside.roots

/-- All nodes in pre-order. -/
def toList : Grove α → List α
  | nil => []
  | cons a below beside => a :: (below.toList ++ beside.toList)

/-- The same trees with other things at the nodes. -/
def map (φ : α → β) : Grove α → Grove β
  | nil => nil
  | cons a below beside => cons (φ a) (below.map φ) (beside.map φ)

/-- The trees of one grove, then those of another. -/
def append : Grove α → Grove α → Grove α
  | nil, h => h
  | cons a below beside, h => cons a below (beside.append h)

instance : Append (Grove α) where
  append := append

/-- The trees of several groves, side by side. -/
def row : List (Grove α) → Grove α
  | [] => nil
  | g :: gs => g ++ row gs

/-- The grove of one tree. -/
def tree (root : α) (below : Grove α) : Grove α := cons root below nil

/-- Trees of one node each. -/
def leaves : List α → Grove α
  | [] => nil
  | a :: as => cons a nil (leaves as)

/-- Whether there are no trees. -/
def isEmpty : Grove α → Bool
  | nil => true
  | cons _ _ _ => false

/-- How many levels there are. -/
def height : Grove α → Nat
  | nil => 0
  | cons _ below beside => max (below.height + 1) beside.height

/-- The grove with, at each node, the way from the node up to its root and on along the given
    nodes. -/
def withPaths (above : List α) : Grove α → Grove (List α)
  | nil => nil
  | cons a below beside =>
      cons (a :: above) (below.withPaths (a :: above)) (beside.withPaths above)

/-- The subtree of a node in pre-order, the node itself first. -/
def under [DecidableEq α] (a : α) : Grove α → List α
  | nil => []
  | cons b below beside =>
      if b = a then b :: below.toList else below.under a ++ beside.under a

/-- Whether a node stays: it does with anything below it, and else when it is let through. -/
def stays (ask : α → Except Fault Bool) (a : α) (below : Grove α) : Except Fault Bool :=
  if below.isEmpty then ask a else .ok true

/-- Takes away the nodes that have nothing below them any more and are not let through, children
    before parents. -/
def thin (ask : α → Except Fault Bool) : Grove α → Except Fault (Grove α)
  | nil => .ok nil
  | cons a below beside => do
    let below ← below.thin ask
    let stay ← stays ask a below
    let beside ← beside.thin ask
    return if stay then cons a below beside else beside

/-- Thins what stands below the roots; the roots stay. -/
def thinBelow (ask : α → Except Fault Bool) : Grove α → Except Fault (Grove α)
  | nil => .ok nil
  | cons a below beside => do
    let below ← below.thin ask
    let beside ← beside.thinBelow ask
    return cons a below beside

/-- The nodes with a property, where everything above them has it as well. -/
def keep (p : α → Bool) : Grove α → Grove α
  | nil => nil
  | cons a below beside =>
      if p a then cons a (below.keep p) (beside.keep p) else beside.keep p

/-- The roots, and below them the nodes with a property. -/
def keepBelow (p : α → Bool) : Grove α → Grove α
  | nil => nil
  | cons a below beside => cons a (below.keep p) (beside.keepBelow p)

@[simp] theorem roots_cons (a : α) (b s : Grove α) : (cons a b s).roots = a :: s.roots := rfl

@[simp] theorem toList_nil : (nil : Grove α).toList = [] := rfl

@[simp] theorem toList_cons (a : α) (b s : Grove α) :
    (cons a b s).toList = a :: (b.toList ++ s.toList) := rfl

@[simp] theorem nil_append (h : Grove α) : nil ++ h = h := rfl

@[simp] theorem append_nil (g : Grove α) : g ++ nil = g := by
  induction g with
  | nil => rfl
  | cons a b s _ ihs => exact congrArg (cons a b) ihs

@[simp] theorem cons_append (a : α) (b s h : Grove α) : cons a b s ++ h = cons a b (s ++ h) := rfl

@[simp] theorem append_assoc (g h k : Grove α) : g ++ h ++ k = g ++ (h ++ k) := by
  induction g with
  | nil => rfl
  | cons a b s _ ihs => rw [cons_append, cons_append, cons_append, ihs]

/-- The roots of the second grove stand behind those of the first. -/
@[simp] theorem roots_append (g h : Grove α) : (g ++ h).roots = g.roots ++ h.roots := by
  induction g with
  | nil => rfl
  | cons a b s _ ihs => simp [ihs]

/-- The nodes of the second grove come behind those of the first. -/
@[simp] theorem toList_append (g h : Grove α) : (g ++ h).toList = g.toList ++ h.toList := by
  induction g with
  | nil => rfl
  | cons a b s _ ihs => simp [ihs]

@[simp] theorem roots_tree (a : α) (b : Grove α) : (tree a b).roots = [a] := rfl

@[simp] theorem toList_tree (a : α) (b : Grove α) : (tree a b).toList = a :: b.toList := by
  simp [tree]

/-- A node of a tree is its root or stands below it. -/
theorem mem_tree {a x : α} {b : Grove α} : x ∈ (tree a b).toList ↔ x = a ∨ x ∈ b.toList := by
  rw [toList_tree, List.mem_cons]

/-- The nodes of a tree are different when its root does not stand below itself and those below it
    are different. -/
theorem nodup_tree {a : α} {b : Grove α} :
    (tree a b).toList.Nodup ↔ a ∉ b.toList ∧ b.toList.Nodup := by
  rw [toList_tree, List.nodup_cons]

/-- What stands further to the right below a root comes last. -/
theorem toList_tree_append (a : α) (b c : Grove α) :
    (tree a (b ++ c)).toList = (tree a b).toList ++ c.toList := by
  rw [toList_tree, toList_tree, toList_append, List.cons_append]

/-- Mapping does not change the order of the nodes. -/
@[simp] theorem toList_map (φ : α → β) (g : Grove α) : (g.map φ).toList = g.toList.map φ := by
  induction g with
  | nil => rfl
  | cons a b s ihb ihs => simp [map, ihb, ihs]

/-- The roots are mapped like all nodes. -/
theorem roots_map (φ : α → β) (g : Grove α) : (g.map φ).roots = g.roots.map φ := by
  induction g with
  | nil => rfl
  | cons a b s _ ihs => rw [map, roots_cons, roots_cons, List.map_cons, ihs]

theorem map_tree (φ : α → β) (a : α) (b : Grove α) : (tree a b).map φ = tree (φ a) (b.map φ) := rfl

/-- The nodes of single trees are what they were made of. -/
@[simp] theorem toList_leaves (as : List α) : (leaves as).toList = as := by
  induction as with
  | nil => rfl
  | cons a as ih => rw [leaves, toList_cons, toList_nil, List.nil_append, ih]

/-- Single trees for two lists are those for the first and then those for the second. -/
theorem leaves_append (as bs : List α) : leaves (as ++ bs) = leaves as ++ leaves bs := by
  induction as with
  | nil => rfl
  | cons a as ih => rw [List.cons_append, leaves, ih, leaves, cons_append]

/-- The roots of groves side by side. -/
theorem roots_row (gs : List (Grove α)) : (row gs).roots = gs.flatMap roots := by
  induction gs with
  | nil => rfl
  | cons g gs ih => rw [row, roots_append, ih, List.flatMap_cons]

/-- The nodes of groves side by side. -/
theorem toList_row (gs : List (Grove α)) : (row gs).toList = gs.flatMap toList := by
  induction gs with
  | nil => rfl
  | cons g gs ih => rw [row, toList_append, ih, List.flatMap_cons]

/-- The roots are among the nodes, in the same order. -/
theorem roots_sublist_toList (g : Grove α) : g.roots.Sublist g.toList := by
  induction g with
  | nil => exact List.Sublist.slnil
  | cons a b s _ ihs =>
      rw [roots_cons, toList_cons]
      exact (ihs.trans (List.sublist_append_right b.toList s.toList)).cons_cons a

/-- A root is a node. -/
theorem mem_toList_of_mem_roots {g : Grove α} {a : α} (h : a ∈ g.roots) : a ∈ g.toList :=
  g.roots_sublist_toList.mem h

/-- There are at least as many nodes as levels. -/
theorem height_le_length (g : Grove α) : g.height ≤ g.toList.length := by
  induction g with
  | nil => exact Nat.le_refl 0
  | cons a b s ihb ihs =>
      simp only [height, toList_cons, List.length_cons, List.length_append]
      omega

/-- The nodes of a tree and of the trees beside it are different when its root stands nowhere else
    and the two parts share nothing. -/
theorem nodup_cons {a : α} {b s : Grove α} : (cons a b s).toList.Nodup ↔
    a ∉ b.toList ∧ a ∉ s.toList ∧ b.toList.Nodup ∧ s.toList.Nodup ∧
      ∀ x ∈ b.toList, x ∉ s.toList := by
  rw [toList_cons, List.nodup_cons, List.nodup_append', List.mem_append, not_or, and_assoc]
  exact Iff.rfl

/-! ## Paths -/

/-- A path starts at the node it is of. -/
theorem map_head_withPaths (g : Grove α) (above : List α) (d : α) :
    (g.withPaths above).map (fun path => path.headD d) = g := by
  induction g generalizing above with
  | nil => rfl
  | cons a b s ihb ihs => rw [withPaths, map, ihb, ihs, List.headD_cons]

/-- A path starts with a node of the grove and goes along nodes of the grove and the given
    ones. -/
theorem mem_of_mem_withPaths {g : Grove α} {above path : List α}
    (h : path ∈ (g.withPaths above).toList) :
    ∃ a rest, path = a :: rest ∧ a ∈ g.toList ∧ ∀ x ∈ path, x ∈ g.toList ∨ x ∈ above := by
  induction g generalizing above with
  | nil => simp [withPaths] at h
  | cons a b s ihb ihs =>
      simp only [withPaths, toList_cons, List.mem_cons, List.mem_append] at h
      rcases h with rfl | h | h
      · refine ⟨a, above, rfl, by simp, ?_⟩
        intro x hx
        rcases List.mem_cons.mp hx with rfl | hx
        · exact Or.inl (by simp)
        · exact Or.inr hx
      · obtain ⟨c, rest, hp, hc, hall⟩ := ihb h
        refine ⟨c, rest, hp, by simp [hc], ?_⟩
        intro x hx
        rcases hall x hx with hx | hx
        · exact Or.inl (by simp [hx])
        · rcases List.mem_cons.mp hx with rfl | hx
          · exact Or.inl (by simp)
          · exact Or.inr hx
      · obtain ⟨c, rest, hp, hc, hall⟩ := ihs h
        refine ⟨c, rest, hp, by simp [hc], ?_⟩
        intro x hx
        rcases hall x hx with hx | hx
        · exact Or.inl (by simp [hx])
        · exact Or.inr hx

/-- Paths may go on beyond the roots. -/
theorem withPaths_append (g : Grove α) (above beyond : List α) :
    g.withPaths (above ++ beyond) = (g.withPaths above).map (· ++ beyond) := by
  induction g generalizing above with
  | nil => rfl
  | cons a b s ihb ihs =>
      rw [withPaths, withPaths, map, ← ihb, ← ihs]
      rfl

/-- A path up to a root is one that ends there, or goes on as all of them do. -/
theorem append_mem_withPaths {g : Grove α} {path : List α} (h : path ∈ (g.withPaths []).toList)
    (beyond : List α) : path ++ beyond ∈ (g.withPaths beyond).toList := by
  have happend : g.withPaths beyond = (g.withPaths []).map (· ++ beyond) :=
    g.withPaths_append [] beyond
  rw [happend, toList_map]
  exact List.mem_map_of_mem h

/-- Mapping the nodes maps every path. -/
theorem withPaths_map (φ : α → β) (g : Grove α) (above : List α) :
    (g.map φ).withPaths (above.map φ) = (g.withPaths above).map (List.map φ) := by
  induction g generalizing above with
  | nil => rfl
  | cons a b s ihb ihs =>
      rw [map, withPaths, withPaths, map, ← ihb, ← ihs]
      rfl

/-- Every node has a path. -/
theorem exists_path {g : Grove α} (above : List α) {a : α} (h : a ∈ g.toList) :
    ∃ rest, a :: rest ∈ (g.withPaths above).toList := by
  have hmap := congrArg toList (g.map_head_withPaths above a)
  rw [toList_map] at hmap
  obtain ⟨path, hpath, hhead⟩ := List.mem_map.mp (hmap.symm ▸ h)
  obtain ⟨b, rest, rfl, -, -⟩ := mem_of_mem_withPaths hpath
  rw [List.headD_cons] at hhead
  exact ⟨rest, hhead ▸ hpath⟩

/-- A path is no longer than there are levels. -/
theorem length_of_mem_withPaths {g : Grove α} {above path : List α}
    (h : path ∈ (g.withPaths above).toList) : path.length ≤ g.height + above.length := by
  induction g generalizing above with
  | nil => exact absurd h List.not_mem_nil
  | cons a b s ihb ihs =>
      simp only [withPaths, toList_cons, List.mem_cons, List.mem_append] at h
      simp only [height]
      rcases h with rfl | h | h
      · simp only [List.length_cons]
        omega
      · have hb := ihb h
        simp only [List.length_cons] at hb
        omega
      · have hs := ihs h
        omega

/-! ## Thinning -/

section

variable {ask : α → Except Fault Bool}

/-- Thinning goes below the first root, decides about that root, and goes on beside it. -/
theorem thin_cons (a : α) (b s : Grove α) : (cons a b s).thin ask = (do
    let b ← b.thin ask
    let stay ← stays ask a b
    let s ← s.thin ask
    return if stay then cons a b s else s) := rfl

/-- Only the answers for the nodes of the grove matter. -/
theorem thin_congr {ask' : α → Except Fault Bool} {g : Grove α}
    (h : ∀ a ∈ g.toList, ask a = ask' a) : g.thin ask = g.thin ask' := by
  induction g with
  | nil => rfl
  | cons a b s ihb ihs =>
      have hstays : stays ask a = stays ask' a := by
        funext b
        rw [stays, stays, h a (by simp)]
      rw [thin_cons, thin_cons, ihb fun x hx => h x (by simp [hx]),
        ihs fun x hx => h x (by simp [hx]), hstays]

/-- Thinning asks below a node first, then about the node, then beside it. -/
theorem thin_cons_below {a : α} {b s : Grove α} {e : Fault} (hb : b.thin ask = .error e) :
    (cons a b s).thin ask = .error e := by
  rw [thin_cons, hb]
  rfl

/-- A question about a root that fails ends the thinning. -/
theorem thin_cons_self {a : α} {b b' s : Grove α} {e : Fault} (hb : b.thin ask = .ok b')
    (ha : stays ask a b' = .error e) : (cons a b s).thin ask = .error e := by
  rw [thin_cons, hb]
  show (stays ask a b' >>= _) = _
  rw [ha]
  rfl

/-- What is left of a tree once its root has been decided about. -/
theorem thin_cons_ok {a : α} {b b' s : Grove α} {stay : Bool} (hb : b.thin ask = .ok b')
    (ha : stays ask a b' = .ok stay) : (cons a b s).thin ask
      = (s.thin ask).map fun s' => if stay then cons a b' s' else s' := by
  rw [thin_cons, hb]
  show (stays ask a b' >>= _) = _
  rw [ha]
  rfl

/-- What thinning a tree with trees beside it comes to when it succeeds. -/
theorem thin_cons_eq_ok {a : α} {b s g : Grove α} (h : (cons a b s).thin ask = .ok g) :
    ∃ b' stay s', b.thin ask = .ok b' ∧ stays ask a b' = .ok stay ∧ s.thin ask = .ok s' ∧
      g = if stay then cons a b' s' else s' := by
  rw [thin_cons] at h
  cases hb : b.thin ask with
  | error e => rw [hb] at h; cases h
  | ok b' =>
      cases ha : stays ask a b' with
      | error e => rw [hb] at h; simp [bind, Except.bind, ha] at h
      | ok stay =>
          cases hs : s.thin ask with
          | error e => rw [hb, hs] at h; simp [bind, Except.bind, ha] at h
          | ok s' =>
              rw [hb, hs] at h
              simp only [bind, Except.bind, ha, pure, Except.pure, Except.ok.injEq] at h
              exact ⟨b', stay, s', rfl, ha, rfl, h.symm⟩

/-- Thinning only takes away. -/
theorem sublist_thin {g g' : Grove α} (h : g.thin ask = .ok g') : g'.toList.Sublist g.toList := by
  induction g generalizing g' with
  | nil => cases h; exact List.Sublist.slnil
  | cons a b s ihb ihs =>
      obtain ⟨b', stay, s', hb, -, hs, rfl⟩ := thin_cons_eq_ok h
      cases stay with
      | false => exact ((ihs hs).trans (List.sublist_append_right ..)).cons a
      | true => exact ((ihb hb).append (ihs hs)).cons_cons a

/-- Thinning comes to an end when every question is answered. -/
theorem thin_ok {g : Grove α} (h : ∀ a ∈ g.toList, ∃ stay, ask a = .ok stay) :
    ∃ g', g.thin ask = .ok g' := by
  induction g with
  | nil => exact ⟨nil, rfl⟩
  | cons a b s ihb ihs =>
      obtain ⟨b', hb⟩ := ihb fun x hx => h x (by simp [hx])
      obtain ⟨s', hs⟩ := ihs fun x hx => h x (by simp [hx])
      obtain ⟨stay, ha⟩ : ∃ stay, stays ask a b' = .ok stay := by
        rw [stays]
        split
        · exact h a (by simp)
        · exact ⟨true, rfl⟩
      exact ⟨_, by rw [thin_cons_ok hb ha, hs]; rfl⟩

/-- A root stays whatever is left below it. -/
theorem thinBelow_cons_ok {a : α} {b b' s : Grove α} (hb : b.thin ask = .ok b') :
    (cons a b s).thinBelow ask = (s.thinBelow ask).map (cons a b') := by
  rw [thinBelow, hb]
  rfl

/-- What thinning below roots comes to when it succeeds. -/
theorem thinBelow_cons_eq_ok {a : α} {b s g : Grove α}
    (h : (cons a b s).thinBelow ask = .ok g) :
    ∃ b' s', b.thin ask = .ok b' ∧ s.thinBelow ask = .ok s' ∧ g = cons a b' s' := by
  cases hb : b.thin ask with
  | error e => rw [thinBelow, hb] at h; cases h
  | ok b' =>
      rw [thinBelow_cons_ok hb] at h
      cases hs : s.thinBelow ask with
      | error e => rw [hs] at h; cases h
      | ok s' =>
          rw [hs] at h
          exact ⟨b', s', rfl, rfl, (Except.ok.inj h).symm⟩

/-- Only the answers for the nodes of the grove matter, below roots as well. -/
theorem thinBelow_congr {ask' : α → Except Fault Bool} {g : Grove α}
    (h : ∀ a ∈ g.toList, ask a = ask' a) : g.thinBelow ask = g.thinBelow ask' := by
  induction g with
  | nil => rfl
  | cons a b s _ ihs =>
      rw [thinBelow, thinBelow, thin_congr fun x hx => h x (by simp [hx]),
        ihs fun x hx => h x (by simp [hx])]

/-- Thinning below roots leaves the roots. -/
theorem roots_thinBelow {g g' : Grove α} (h : g.thinBelow ask = .ok g') : g'.roots = g.roots := by
  induction g generalizing g' with
  | nil => cases h; rfl
  | cons a b s _ ihs =>
      obtain ⟨b', s', -, hs, rfl⟩ := thinBelow_cons_eq_ok h
      rw [roots_cons, roots_cons, ihs hs]

/-- Thinning below roots only takes away. -/
theorem sublist_thinBelow {g g' : Grove α} (h : g.thinBelow ask = .ok g') :
    g'.toList.Sublist g.toList := by
  induction g generalizing g' with
  | nil => cases h; exact List.Sublist.slnil
  | cons a b s _ ihs =>
      obtain ⟨b', s', hb, hs, rfl⟩ := thinBelow_cons_eq_ok h
      exact ((sublist_thin hb).append (ihs hs)).cons_cons a

/-- Whether a node is let through when it is asked about. -/
def passes (ask : α → Except Fault Bool) (a : α) : Bool := (ask a).toOption.getD false

/-- Whoever gets an answer passes when it is yes. -/
theorem passes_of_eq_ok {a : α} {stay : Bool} (h : ask a = .ok stay) : passes ask a = stay := by
  rw [passes, h]
  rfl

/-! ## Keeping nodes with a property -/

/-- Two properties that agree on the nodes keep the same of them. -/
theorem keep_congr {p q : α → Bool} {g : Grove α} (h : ∀ a ∈ g.toList, p a = q a) :
    g.keep p = g.keep q := by
  induction g with
  | nil => rfl
  | cons a b s ihb ihs =>
      rw [keep, keep, h a (by simp), ihb fun x hx => h x (by simp [hx]),
        ihs fun x hx => h x (by simp [hx])]

/-- Two properties that agree on the nodes keep the same below roots. -/
theorem keepBelow_congr {p q : α → Bool} {g : Grove α} (h : ∀ a ∈ g.toList, p a = q a) :
    g.keepBelow p = g.keepBelow q := by
  induction g with
  | nil => rfl
  | cons a b s _ ihs =>
      rw [keepBelow, keepBelow, keep_congr fun x hx => h x (by simp [hx]),
        ihs fun x hx => h x (by simp [hx])]

/-- Everything is kept when every node has the property. -/
theorem keep_of_forall {p : α → Bool} {g : Grove α} (h : ∀ a ∈ g.toList, p a = true) :
    g.keep p = g := by
  induction g with
  | nil => rfl
  | cons a b s ihb ihs =>
      rw [keep, if_pos (h a (by simp)), ihb fun x hx => h x (by simp [hx]),
        ihs fun x hx => h x (by simp [hx])]

/-- Keeping twice is keeping what has both properties. -/
theorem keep_keep (p q : α → Bool) (g : Grove α) :
    (g.keep p).keep q = g.keep fun a => p a && q a := by
  induction g with
  | nil => rfl
  | cons a b s ihb ihs =>
      rw [keep, keep]
      cases hp : p a with
      | false =>
          rw [if_neg Bool.false_ne_true, ihs]
          exact (if_neg (by simp)).symm
      | true =>
          rw [if_pos rfl, keep, ihb, ihs, Bool.true_and]

/-- Keeping commutes with mapping. -/
theorem keep_map (p : β → Bool) (φ : α → β) (g : Grove α) :
    (g.map φ).keep p = (g.keep fun a => p (φ a)).map φ := by
  induction g with
  | nil => rfl
  | cons a b s ihb ihs =>
      rw [map, keep, keep, ihb, ihs]
      cases p (φ a) <;> rfl

/-- The roots that are left are those with the property. -/
theorem roots_keep (p : α → Bool) (g : Grove α) : (g.keep p).roots = g.roots.filter p := by
  induction g with
  | nil => rfl
  | cons a b s _ ihs =>
      rw [keep, roots_cons, List.filter_cons]
      cases p a with
      | false => rw [if_neg Bool.false_ne_true, if_neg Bool.false_ne_true, ihs]
      | true => rw [if_pos rfl, if_pos rfl, roots_cons, ihs]

/-- The paths that are left are paths there were. -/
theorem mem_withPaths_of_keep {p : α → Bool} {g : Grove α} {above path : List α}
    (h : path ∈ ((g.keep p).withPaths above).toList) : path ∈ (g.withPaths above).toList := by
  induction g generalizing above with
  | nil => exact h
  | cons a b s ihb ihs =>
      rw [keep] at h
      rw [withPaths, toList_cons, List.mem_cons, List.mem_append]
      split at h
      · rw [withPaths, toList_cons, List.mem_cons, List.mem_append] at h
        exact h.imp_right (Or.imp ihb ihs)
      · exact Or.inr (Or.inr (ihs h))

/-- Keeping only takes away. -/
theorem sublist_keep (p : α → Bool) (g : Grove α) : (g.keep p).toList.Sublist g.toList := by
  induction g with
  | nil => exact List.Sublist.slnil
  | cons a b s ihb ihs =>
      rw [keep]
      cases p a with
      | false => exact (ihs.trans (List.sublist_append_right ..)).cons a
      | true => exact (ihb.append ihs).cons_cons a

/-- Whether some element has a property is a matter of the elements only. -/
theorem any_congr_of_mem {l : List α} {p q : α → Bool} (h : ∀ a ∈ l, p a = q a) :
    l.any p = l.any q := by
  induction l with
  | nil => rfl
  | cons a l ih =>
      rw [List.any_cons, List.any_cons, h a (by simp), ih fun x hx => h x (by simp [hx])]

/-! ## Subtrees -/

variable [DecidableEq α]

/-- Under the first root is its whole tree. -/
theorem under_cons_self (a : α) (b s : Grove α) : (cons a b s).under a = a :: b.toList := by
  rw [under, if_pos rfl]

/-- Any other node is below the first root or beside it. -/
theorem under_cons_ne {a c : α} (h : a ≠ c) (b s : Grove α) :
    (cons a b s).under c = b.under c ++ s.under c := by
  rw [under, if_neg h]

/-- Nothing is under a node that is not there. -/
theorem under_eq_nil {g : Grove α} {a : α} (h : a ∉ g.toList) : g.under a = [] := by
  induction g with
  | nil => rfl
  | cons c b s ihb ihs =>
      simp only [toList_cons, List.mem_cons, List.mem_append, not_or] at h
      rw [under_cons_ne (Ne.symm h.1), ihb h.2.1, ihs h.2.2, List.append_nil]

/-- A node is under itself. -/
theorem mem_under_self {g : Grove α} {a : α} (h : a ∈ g.toList) : a ∈ g.under a := by
  induction g with
  | nil => simp at h
  | cons c b s ihb ihs =>
      by_cases hc : c = a
      · rw [under, if_pos hc, hc]
        exact List.mem_cons_self ..
      · simp only [toList_cons, List.mem_cons, List.mem_append, Ne.symm hc, false_or] at h
        rw [under_cons_ne hc]
        rcases h with h | h
        · exact List.mem_append_left _ (ihb h)
        · exact List.mem_append_right _ (ihs h)

/-- What is under a node is in the grove. -/
theorem under_subset {g : Grove α} {a k : α} (h : k ∈ g.under a) : k ∈ g.toList := by
  induction g with
  | nil => simp [under] at h
  | cons c b s ihb ihs =>
      by_cases hc : c = a
      · rw [under, if_pos hc] at h
        rcases List.mem_cons.mp h with rfl | h
        · simp
        · simp [h]
      · rw [under_cons_ne hc] at h
        rcases List.mem_append.mp h with h | h
        · simp [ihb h]
        · simp [ihs h]

/-- In a grove without repetition the subtree of a node is found where the node is. -/
theorem under_cons_of_mem_below {c a : α} {b s : Grove α} (hn : (cons c b s).toList.Nodup)
    (ha : a ∈ b.toList) : (cons c b s).under a = b.under a := by
  simp only [toList_cons, List.nodup_cons, List.nodup_append, List.mem_append] at hn
  have hc : c ≠ a := fun e => hn.1 (Or.inl (e ▸ ha))
  have hs : a ∉ s.toList := fun h => hn.2.2.2 a ha a h rfl
  rw [under_cons_ne hc, under_eq_nil hs, List.append_nil]

/-- The subtree of a node beside the first tree is found there. -/
theorem under_cons_of_mem_beside {c a : α} {b s : Grove α} (hn : (cons c b s).toList.Nodup)
    (ha : a ∈ s.toList) : (cons c b s).under a = s.under a := by
  simp only [toList_cons, List.nodup_cons, List.nodup_append, List.mem_append] at hn
  have hc : c ≠ a := fun e => hn.1 (Or.inr (e ▸ ha))
  have hb : a ∉ b.toList := fun h => hn.2.2.2 a h a ha rfl
  rw [under_cons_ne hc, under_eq_nil hb, List.nil_append]

/-- A subtree has its nodes in the order of the grove. -/
theorem under_sublist (g : Grove α) (a : α) : (g.under a).Sublist g.toList := by
  induction g with
  | nil => exact List.Sublist.slnil
  | cons c b s ihb ihs =>
      rw [under, toList_cons]
      split
      · exact (List.sublist_append_left ..).cons_cons c
      · exact (ihb.append ihs).cons c

/-- A grove without repetition is made up of the subtrees of its roots. -/
theorem flatMap_under_roots {g : Grove α} (hn : g.toList.Nodup) :
    g.roots.flatMap g.under = g.toList := by
  induction g with
  | nil => rfl
  | cons c b s _ ihs =>
      obtain ⟨-, -, -, hns, -⟩ := nodup_cons.mp hn
      have hbeside : s.roots.flatMap (cons c b s).under = s.roots.flatMap s.under := by
        refine List.flatMap_congr fun a ha => ?_
        exact under_cons_of_mem_beside hn (mem_toList_of_mem_roots ha)
      rw [roots_cons, List.flatMap_cons, under_cons_self, hbeside, ihs hns, toList_cons,
        List.cons_append]

/-- Under other names that are all different a subtree is the same. -/
theorem under_map [DecidableEq β] {φ : α → β} (hφ : Function.Injective φ) (g : Grove α) (a : α) :
    (g.map φ).under (φ a) = (g.under a).map φ := by
  induction g with
  | nil => rfl
  | cons c b s ihb ihs =>
      rw [map, under, under]
      by_cases h : c = a
      · rw [if_pos (congrArg φ h), if_pos h, List.map_cons, toList_map]
      · rw [if_neg fun he => h (hφ he), if_neg h, List.map_append, ihb, ihs]

/-- A subtree of a subtree is part of it. -/
theorem under_trans {g : Grove α} {a t k : α} (hn : g.toList.Nodup) (ht : t ∈ g.under a)
    (hk : k ∈ g.under t) : k ∈ g.under a := by
  induction g with
  | nil => simp [under] at ht
  | cons c b s ihb ihs =>
      have hnb : b.toList.Nodup := by
        simp only [toList_cons, List.nodup_cons, List.nodup_append] at hn
        exact hn.2.1
      have hns : s.toList.Nodup := by
        simp only [toList_cons, List.nodup_cons, List.nodup_append] at hn
        exact hn.2.2.1
      by_cases hca : c = a
      · subst hca
        rw [under_cons_self] at ht ⊢
        rcases List.mem_cons.mp ht with rfl | ht
        · rwa [under_cons_self] at hk
        · rw [under_cons_of_mem_below hn ht] at hk
          exact List.mem_cons_of_mem _ (under_subset hk)
      · rw [under_cons_ne hca] at ht ⊢
        rcases List.mem_append.mp ht with ht | ht
        · rw [under_cons_of_mem_below hn (under_subset ht)] at hk
          exact List.mem_append_left _ (ihb hnb ht hk)
        · rw [under_cons_of_mem_beside hn (under_subset ht)] at hk
          exact List.mem_append_right _ (ihs hns ht hk)

/-- Keeping what has a property leaves the nodes that have it, in the order they had, when every
    node has it that has one with it in its subtree. -/
theorem toList_keep {p : α → Bool} {g : Grove α} (hn : g.toList.Nodup)
    (h : ∀ a ∈ g.toList, ∀ k ∈ g.under a, p k = true → p a = true) :
    (g.keep p).toList = g.toList.filter p := by
  induction g with
  | nil => rfl
  | cons c b s ihb ihs =>
      obtain ⟨-, -, hnb, hns, -⟩ := nodup_cons.mp hn
      have hb := ihb hnb fun a ha k hk hp =>
        h a (by simp [ha]) k (by rw [under_cons_of_mem_below hn ha]; exact hk) hp
      have hs := ihs hns fun a ha k hk hp =>
        h a (by simp [ha]) k (by rw [under_cons_of_mem_beside hn ha]; exact hk) hp
      rw [keep, toList_cons, List.filter_cons, List.filter_append]
      cases hc : p c with
      | true => rw [if_pos rfl, if_pos rfl, toList_cons, hb, hs]
      | false =>
          have hnil : b.toList.filter p = [] := by
            refine List.filter_eq_nil_iff.mpr ?_
            intro a ha hpa
            have hmem : a ∈ (cons c b s).under c := by
              rw [under_cons_self]
              exact List.mem_cons_of_mem c ha
            rw [h c (by simp) a hmem hpa] at hc
            cases hc
          rw [if_neg Bool.false_ne_true, if_neg Bool.false_ne_true, hs, hnil, List.nil_append]

/-! ## What thinning leaves -/

/-- Whether some node of a subtree is let through. -/
def survives (ask : α → Except Fault Bool) (g : Grove α) (a : α) : Bool :=
  (g.under a).any (passes ask)

/-- A node survives when something in its subtree passes. -/
theorem survives_iff {g : Grove α} {a : α} :
    g.survives ask a = true ↔ ∃ k ∈ g.under a, passes ask k = true := by
  simp [survives]

/-- Below the first root the same nodes survive in the whole and in the part. -/
theorem filter_survives_below {c : α} {b s : Grove α} (hn : (cons c b s).toList.Nodup) :
    b.toList.filter ((cons c b s).survives ask) = b.toList.filter (b.survives ask) := by
  refine List.filter_congr ?_
  intro a ha
  rw [survives, survives, under_cons_of_mem_below hn ha]

/-- Beside the first tree the same nodes survive in the whole and in the part. -/
theorem filter_survives_beside {c : α} {b s : Grove α} (hn : (cons c b s).toList.Nodup) :
    s.toList.filter ((cons c b s).survives ask) = s.toList.filter (s.survives ask) := by
  refine List.filter_congr ?_
  intro a ha
  rw [survives, survives, under_cons_of_mem_beside hn ha]

/-- Nothing is let through in a grove of which nothing survives. -/
theorem any_passes_of_filter_eq_nil {b : Grove α}
    (h : b.toList.filter (b.survives ask) = []) : b.toList.any (passes ask) = false := by
  rw [List.any_eq_false]
  intro k hk hp
  refine (List.filter_eq_nil_iff.mp h) k hk ?_
  exact survives_iff.mpr ⟨k, mem_under_self hk, hp⟩

/-- Where something survives, something passes. -/
theorem any_passes_of_mem_filter {b : Grove α} {a : α}
    (h : a ∈ b.toList.filter (b.survives ask)) : b.toList.any (passes ask) = true := by
  obtain ⟨k, hk, hp⟩ := survives_iff.mp (List.mem_filter.mp h).2
  exact List.any_eq_true.mpr ⟨k, under_subset hk, hp⟩

/-- Thinning a tree keeps its root when something in the tree is let through. -/
theorem survives_root {c : α} {b b' s : Grove α} {stay : Bool}
    (hb : b'.toList = b.toList.filter (b.survives ask)) (h : stays ask c b' = .ok stay) :
    (cons c b s).survives ask c = stay := by
  rw [survives, under_cons_self, List.any_cons]
  cases b' with
  | nil =>
      have hc : ask c = .ok stay := h
      rw [any_passes_of_filter_eq_nil hb.symm, passes_of_eq_ok hc, Bool.or_false]
  | cons x y z =>
      have hx : x ∈ b.toList.filter (b.survives ask) := hb ▸ List.mem_cons_self ..
      rw [any_passes_of_mem_filter hx, Bool.or_true]
      cases h
      rfl

/-- **What thinning leaves.**  The nodes with something let through in their subtrees, in the
    order they had. -/
theorem toList_thin {g g' : Grove α} (hn : g.toList.Nodup) (h : g.thin ask = .ok g') :
    g'.toList = g.toList.filter (g.survives ask) := by
  induction g generalizing g' with
  | nil => cases h; rfl
  | cons c b s ihb ihs =>
      obtain ⟨b', stay, s', hb, hstay, hs, rfl⟩ := thin_cons_eq_ok h
      have hn' := hn
      simp only [toList_cons, List.nodup_cons, List.nodup_append] at hn'
      have hb' := ihb hn'.2.1 hb
      have hs' := ihs hn'.2.2.1 hs
      rw [toList_cons, List.filter_cons, List.filter_append, filter_survives_below hn,
        filter_survives_beside hn, ← hb', ← hs', survives_root hb' hstay]
      cases stay with
      | true => rfl
      | false =>
          cases b' with
          | nil => rfl
          | cons x y z => cases hstay

/-- Thinning leaves of a subtree what survives of it. -/
theorem under_thin {g g' : Grove α} {a : α} (hn : g.toList.Nodup) (h : g.thin ask = .ok g')
    (ha : a ∈ g'.toList) : g'.under a = (g.under a).filter (g.survives ask) := by
  induction g generalizing g' with
  | nil => cases h; simp at ha
  | cons c b s ihb ihs =>
      obtain ⟨b', stay, s', hb, hstay, hs, rfl⟩ := thin_cons_eq_ok h
      have hn' := hn
      simp only [toList_cons, List.nodup_cons, List.nodup_append] at hn'
      have hb' := toList_thin hn'.2.1 hb
      have below : a ∈ b'.toList →
          b'.under a = ((cons c b s).under a).filter ((cons c b s).survives ask) := by
        intro hab
        have hmem := (sublist_thin hb).mem hab
        rw [ihb hn'.2.1 hb hab, under_cons_of_mem_below hn hmem]
        refine List.filter_congr ?_
        intro k hk
        rw [survives, survives, under_cons_of_mem_below hn (under_subset hk)]
      have beside : a ∈ s'.toList →
          s'.under a = ((cons c b s).under a).filter ((cons c b s).survives ask) := by
        intro has
        have hmem := (sublist_thin hs).mem has
        rw [ihs hn'.2.2.1 hs has, under_cons_of_mem_beside hn hmem]
        refine List.filter_congr ?_
        intro k hk
        rw [survives, survives, under_cons_of_mem_beside hn (under_subset hk)]
      cases stay with
      | false => exact beside ha
      | true =>
          have hn'' : (cons c b' s').toList.Nodup := hn.sublist (sublist_thin h)
          by_cases hca : c = a
          · subst hca
            rw [if_pos rfl, under_cons_self, under_cons_self, List.filter_cons,
              survives_root hb' hstay, if_pos rfl, filter_survives_below hn, hb']
          · rw [if_pos rfl] at ha ⊢
            simp only [toList_cons, List.mem_cons, List.mem_append, Ne.symm hca, false_or] at ha
            rcases ha with ha | ha
            · rw [under_cons_of_mem_below hn'' ha, below ha]
            · rw [under_cons_of_mem_beside hn'' ha, beside ha]

/-- **Thinning keeps what survives.** -/
theorem thin_eq_keep {g g' : Grove α} (hn : g.toList.Nodup) (h : g.thin ask = .ok g') :
    g' = g.keep (g.survives ask) := by
  induction g generalizing g' with
  | nil => cases h; rfl
  | cons c b s ihb ihs =>
      obtain ⟨b', stay, s', hb, hstay, hs, rfl⟩ := thin_cons_eq_ok h
      obtain ⟨-, -, hnb, hns, -⟩ := nodup_cons.mp hn
      have hbelow : b.keep ((cons c b s).survives ask) = b' := by
        refine (keep_congr ?_).trans (ihb hnb hb).symm
        intro a ha
        rw [survives, survives, under_cons_of_mem_below hn ha]
      have hbeside : s.keep ((cons c b s).survives ask) = s' := by
        refine (keep_congr ?_).trans (ihs hns hs).symm
        intro a ha
        rw [survives, survives, under_cons_of_mem_beside hn ha]
      rw [keep, survives_root (toList_thin hnb hb) hstay, hbelow, hbeside]

/-- Whether some node of a subtree passes the second question and has in its own subtree a node
    that passes the first. -/
def endures (ask ask' : α → Except Fault Bool) (g : Grove α) (a : α) : Bool :=
  (g.under a).any fun t => passes ask' t && g.survives ask t

variable {ask' : α → Except Fault Bool}

/-- Below the first root the same nodes endure in the whole and in the part. -/
theorem endures_below {c a : α} {b s : Grove α} (hn : (cons c b s).toList.Nodup)
    (ha : a ∈ b.toList) : (cons c b s).endures ask ask' a = b.endures ask ask' a := by
  rw [endures, endures, under_cons_of_mem_below hn ha]
  refine any_congr_of_mem ?_
  intro t ht
  rw [survives, survives, under_cons_of_mem_below hn (under_subset ht)]

/-- Beside the first tree the same nodes endure in the whole and in the part. -/
theorem endures_beside {c a : α} {b s : Grove α} (hn : (cons c b s).toList.Nodup)
    (ha : a ∈ s.toList) : (cons c b s).endures ask ask' a = s.endures ask ask' a := by
  rw [endures, endures, under_cons_of_mem_beside hn ha]
  refine any_congr_of_mem ?_
  intro t ht
  rw [survives, survives, under_cons_of_mem_beside hn (under_subset ht)]

/-- A node that is left survives being thinned once more exactly when it endures both. -/
theorem survives_thin {g g' : Grove α} {a : α} (hn : g.toList.Nodup) (h : g.thin ask = .ok g')
    (ha : a ∈ g.toList) :
    (g.survives ask a && g'.survives ask' a) = g.endures ask ask' a := by
  by_cases hs : g.survives ask a = true
  · have ha' : a ∈ g'.toList := by
      rw [toList_thin hn h]
      exact List.mem_filter.mpr ⟨ha, hs⟩
    rw [hs, Bool.true_and, survives, under_thin hn h ha', List.any_filter]
    exact congrArg (List.any (g.under a)) (funext fun t => Bool.and_comm ..)
  · -- what survives below a node makes the node survive
    have hnone : ∀ t ∈ g.under a, ¬ (passes ask' t && g.survives ask t) = true := by
      intro t ht hp
      obtain ⟨k, hk, hpk⟩ := survives_iff.mp (Bool.and_eq_true_iff.mp hp).2
      exact hs (survives_iff.mpr ⟨k, under_trans hn ht hk, hpk⟩)
    rw [Bool.not_eq_true] at hs
    rw [hs, Bool.false_and, endures, List.any_eq_false.mpr hnone]

/-- **Thinning twice.**  What is left is described on the grove as it was before. -/
theorem thin_thin_eq_keep {g g' g'' : Grove α} (hn : g.toList.Nodup) (h : g.thin ask = .ok g')
    (h' : g'.thin ask' = .ok g'') : g'' = g.keep (g.endures ask ask') := by
  have hn' : g'.toList.Nodup := hn.sublist (sublist_thin h)
  have hkeep : g'.keep (g'.survives ask') = (g.keep (g.survives ask)).keep (g'.survives ask') :=
    congrArg (fun g => g.keep (g'.survives ask')) (thin_eq_keep hn h)
  rw [thin_eq_keep hn' h', hkeep, keep_keep]
  exact keep_congr fun a ha => survives_thin hn h ha

/-- The same for the trees below roots. -/
theorem thinBelow_thinBelow_eq_keepBelow {g g' g'' : Grove α} (hn : g.toList.Nodup)
    (h : g.thinBelow ask = .ok g') (h' : g'.thinBelow ask' = .ok g'') :
    g'' = g.keepBelow (g.endures ask ask') := by
  induction g generalizing g' g'' with
  | nil => cases h; cases h'; rfl
  | cons c b s _ ihs =>
      obtain ⟨b', s', hb, hs, rfl⟩ := thinBelow_cons_eq_ok h
      obtain ⟨b'', s'', hb', hs', rfl⟩ := thinBelow_cons_eq_ok h'
      obtain ⟨-, -, hnb, hns, -⟩ := nodup_cons.mp hn
      rw [keepBelow, thin_thin_eq_keep hnb hb hb', ihs hns hs hs',
        keep_congr fun a ha => endures_below hn ha,
        keepBelow_congr fun a ha => endures_beside hn ha]

end

end Grove

end TestLauncher
