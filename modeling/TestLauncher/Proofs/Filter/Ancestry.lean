import TestLauncher.Proofs.Filter.Lineage

/-! # Judging by ancestry

    The ancestry of a node is what it is and what all nodes above it are, the node of a
    suite among them.  It is read off the way up from the node (`WayUp`), and a filter judges
    by ancestry when nodes with one ancestry get one verdict, in whatever forests they are
    (`NodeFilter.ByAncestry`).  Filters that judge by lineage do (`ByLineage.byAncestry`), so
    those of the library do; a filter from outside may also look at the suite.

    Such a filter needs no forest.  Its verdict on a node is the verdict on the first node of
    a chain that has the same ancestry (`ByAncestry.verdict_eq`), and so it can be asked
    about a node as if that were below the node of some suite (`NodeFilter.below`). -/

namespace TestLauncher

namespace Forest

variable {f f' : Forest} {r s : NodeRef} {path : List NodeRef} {a : List Node}

/-- The way up from the first node of a path: each has the next as its parent, and the last has
    none. -/
inductive WayUp (f : Forest) : List NodeRef → Prop where
  | top {r : NodeRef} {n : Node} (hr : f.node? r = some n) (hp : n.parent = none) : WayUp f [r]
  | step {r p : NodeRef} {n : Node} {rest : List NodeRef} (hr : f.node? r = some n)
      (hp : n.parent = some p) (h : WayUp f (p :: rest)) : WayUp f (r :: p :: rest)

/-- What a node and all nodes above it are. -/
def HasAncestry (f : Forest) (r : NodeRef) (a : List Node) : Prop :=
  ∃ rest, f.WayUp (r :: rest) ∧ (r :: rest).filterMap f.bare? = a

/-- What a node and the nodes above it are, as far as some number of steps leads. -/
def ancestryFrom (f : Forest) : Nat → NodeRef → List Node
  | 0, _ => []
  | n + 1, r =>
    match f.node? r with
    | none => []
    | some x => x.bare ::
      match x.parent with
      | none => []
      | some p => f.ancestryFrom n p

/-- What a node and the nodes above it are. -/
def ancestry (f : Forest) (r : NodeRef) : List Node := f.ancestryFrom (f.size + 1) r

/-! ## Ways up -/

/-- There is one way up from a node. -/
theorem WayUp.unique {rest rest' : List NodeRef} (h : f.WayUp (r :: rest))
    (h' : f.WayUp (r :: rest')) : rest = rest' := by
  induction rest generalizing r rest' with
  | nil =>
      cases h with
      | top hr hp =>
          cases h' with
          | top _ _ => rfl
          | step hr' hp' _ =>
              cases hr.symm.trans hr'
              cases hp.symm.trans hp'
  | cons q rest ih =>
      cases h with
      | step hr hp h =>
          cases h' with
          | top hr' hp' =>
              cases hr.symm.trans hr'
              cases hp.symm.trans hp'
          | step hr' hp' h' =>
              cases hr.symm.trans hr'
              cases hp.symm.trans hp'
              rw [ih h h']

/-- From each of its nodes a way up goes on. -/
theorem WayUp.from_mem (h : f.WayUp path) (hr : r ∈ path) :
    ∃ rest, f.WayUp (r :: rest) ∧ rest.length < path.length := by
  induction h with
  | top hn hp =>
      rw [List.mem_singleton.mp hr]
      exact ⟨[], .top hn hp, Nat.one_pos⟩
  | step hn hp h ih =>
      rcases List.mem_cons.mp hr with rfl | hr
      · exact ⟨_, .step hn hp h, Nat.lt_succ_self _⟩
      · obtain ⟨rest, hrest, hlt⟩ := ih hr
        exact ⟨rest, hrest, Nat.lt_succ_of_lt hlt⟩

/-- A way up does not come back. -/
theorem WayUp.nodup (h : f.WayUp path) : path.Nodup := by
  induction h with
  | top _ _ => exact List.nodup_singleton _
  | step hr hp h ih =>
      refine List.nodup_cons.mpr ⟨?_, ih⟩
      intro hmem
      -- the way from the node on would be shorter than itself
      obtain ⟨rest, hrest, hlt⟩ := h.from_mem hmem
      rw [← (WayUp.step hr hp h).unique hrest] at hlt
      exact Nat.lt_irrefl _ hlt

theorem WayUp.node (h : f.WayUp path) (hr : r ∈ path) : (f.node? r).isSome = true := by
  induction h with
  | top hn _ =>
      rw [List.mem_singleton.mp hr, hn]
      rfl
  | step hn _ _ ih =>
      rcases List.mem_cons.mp hr with rfl | hr
      · rw [hn]
        rfl
      · exact ih hr

/-- A way up is no longer than there are nodes. -/
theorem WayUp.length_le (h : f.WayUp path) : path.length ≤ f.size :=
  length_le_size h.nodup fun r hr => (f.node?_isSome_iff r).mp (h.node hr)

/-- The way up is the same as long as nothing along it changes. -/
theorem WayUp.along (h : f.WayUp path) (halong : f.Along f' path) : f'.WayUp path := by
  obtain ⟨hbare, hparent⟩ := halong
  have hnode : ∀ {r : NodeRef} {n : Node}, f.node? r = some n → ∃ n', f'.node? r = some n' := by
    intro r n hr
    have hsome := congrArg Option.isSome (hbare r)
    rw [bare?, bare?, Option.isSome_map, Option.isSome_map, hr] at hsome
    exact Option.isSome_iff_exists.mp hsome
  have hlink : ∀ {r : NodeRef} {n n' : Node}, f.node? r = some n → f'.node? r = some n' →
      f'.parent? r = f.parent? r → n'.parent = n.parent := by
    intro r n n' hr hr' h
    rw [parent?, parent?, hr, hr'] at h
    exact h
  induction h with
  | top hr hp =>
      obtain ⟨n', hr'⟩ := hnode hr
      exact .top hr' ((hlink hr hr' (hparent _ (by simp))).trans hp)
  | step hr hp _ ih =>
      obtain ⟨n', hr'⟩ := hnode hr
      refine .step hr' ((hlink hr hr' (hparent _ (by simp))).trans hp) ?_
      exact ih fun x hx => hparent x (List.mem_cons_of_mem _ hx)

theorem HasAncestry.along {rest : List NodeRef} (h : f.WayUp (r :: rest))
    (halong : f.Along f' (r :: rest)) :
    f'.HasAncestry r ((r :: rest).filterMap f.bare?) :=
  ⟨rest, h.along halong, List.filterMap_congr fun x _ => halong.1 x⟩

theorem wayUp_withPaths {g : Grove NodeRef} {p : NodeRef} {above : List NodeRef}
    (hg : f.Holds (some p) g) (habove : f.WayUp (p :: above)) :
    ∀ path ∈ (g.withPaths (p :: above)).toList, f.WayUp path := by
  induction g generalizing p above with
  | nil => exact fun path h => absurd h List.not_mem_nil
  | cons r b s ihb ihs =>
      obtain ⟨hr, hb, hs⟩ := hg
      obtain ⟨n, hn, hp, -⟩ := hr.exists_node
      have hup : f.WayUp (r :: p :: above) := .step hn hp habove
      intro path h
      simp only [Grove.withPaths, Grove.toList_cons, List.mem_cons, List.mem_append] at h
      rcases h with rfl | h | h
      · exact hup
      · exact ihb hb hup path h
      · exact ihs hs habove path h

/-- In trees that stand the paths up to the roots are the ways up. -/
theorem wayUp_of_holds {g : Grove NodeRef} (hg : f.Holds none g) :
    ∀ path ∈ (g.withPaths []).toList, f.WayUp path := by
  induction g with
  | nil => exact fun path h => absurd h List.not_mem_nil
  | cons r b s _ ihs =>
      obtain ⟨hr, hb, hs⟩ := hg
      obtain ⟨n, hn, hp, -⟩ := hr.exists_node
      have hup : f.WayUp [r] := .top hn hp
      intro path h
      simp only [Grove.withPaths, Grove.toList_cons, List.mem_cons, List.mem_append] at h
      rcases h with rfl | h | h
      · exact hup
      · exact wayUp_withPaths hb hup path h
      · exact ihs hs path h

/-! ## Reading the ancestry -/

theorem ancestryFrom_of_wayUp {rest : List NodeRef} {n : Nat} (h : f.WayUp (r :: rest))
    (hn : rest.length < n) : f.ancestryFrom n r = (r :: rest).filterMap f.bare? := by
  induction rest generalizing r n with
  | nil =>
      obtain ⟨m, rfl⟩ := Nat.exists_eq_add_of_lt hn
      cases h with
      | top hr hp => simp [ancestryFrom, bare?, hr, hp]
  | cons q rest ih =>
      obtain ⟨m, rfl⟩ := Nat.exists_eq_add_of_lt hn
      cases h with
      | step hr hp h =>
          have hlt : rest.length < (q :: rest).length + m := by
            rw [List.length_cons]
            omega
          rw [ancestryFrom, hr, List.filterMap_cons, bare?, hr]
          dsimp only [Option.map_some]
          rw [hp]
          exact congrArg _ (ih h hlt)

/-- The ancestry of a node from which there is a way up. -/
theorem HasAncestry.eq (h : f.HasAncestry r a) : f.ancestry r = a := by
  obtain ⟨rest, hup, rfl⟩ := h
  exact ancestryFrom_of_wayUp hup (Nat.lt_succ_of_lt hup.length_le)

/-- An ancestry up to below a suite. -/
def upToSuite : List Node → List Node
  | [] => []
  | x :: above => x ::
      if above.head?.any (fun p => p.id.last.type = Segment.suiteType) then [] else upToSuite above

theorem lineageFrom_eq (f : Forest) (n : Nat) (r : NodeRef) :
    f.lineageFrom n r = upToSuite (f.ancestryFrom n r) := by
  induction n generalizing r with
  | zero => rfl
  | succ n ih =>
      rw [lineageFrom, ancestryFrom]
      cases hr : f.node? r with
      | none => rfl
      | some x =>
          dsimp only
          rw [upToSuite]
          congr 1
          cases x.parent with
          | none => rfl
          | some p =>
              dsimp only
              rw [ih]
              cases n with
              | zero => simp [ancestryFrom, upToSuite]
              | succ n =>
                  have hhead : (f.ancestryFrom (n + 1) p).head? = f.bare? p := by
                    rw [ancestryFrom, bare?]
                    cases f.node? p <;> rfl
                  rw [hhead]
                  rfl

/-- The lineage of a node is the part of its ancestry up to below a suite. -/
theorem lineage_eq (f : Forest) (r : NodeRef) : f.lineage r = upToSuite (f.ancestry r) :=
  f.lineageFrom_eq _ r

/-! ## Chains -/

/-- Nodes above each other, the first of them lowest. -/
def chain (a : List Node) : Forest :=
  ⟨(a.mapIdx fun i x =>
    { x with parent := if i + 1 < a.length then some ⟨i + 1⟩ else none }).toArray⟩

theorem node?_chain (a : List Node) (i : Nat) :
    (chain a).node? ⟨i⟩ = a[i]?.map fun x =>
      { x with parent := if i + 1 < a.length then some ⟨i + 1⟩ else none } := by
  rw [node?, chain, List.getElem?_toArray, List.getElem?_mapIdx]

theorem bare?_chain (a : List Node) (i : Nat) : (chain a).bare? ⟨i⟩ = a[i]?.map Node.bare := by
  rw [bare?, node?_chain, Option.map_map]
  rfl

/-- From each place of a chain the way up leads along the rest of it. -/
theorem hasAncestry_chain {a : List Node} {i : Nat} (hi : i < a.length) :
    (chain a).HasAncestry ⟨i⟩ ((a.drop i).map Node.bare) := by
  obtain ⟨n, hn⟩ : ∃ n, a.length = i + 1 + n := Nat.exists_eq_add_of_le hi
  have hnode := node?_chain a i
  rw [List.getElem?_eq_getElem hi, Option.map_some] at hnode
  have hbare : (chain a).bare? ⟨i⟩ = some a[i].bare := by
    rw [bare?_chain, List.getElem?_eq_getElem hi, Option.map_some]
  induction n generalizing i with
  | zero =>
      refine ⟨[], .top hnode (if_neg (by omega)), ?_⟩
      rw [List.drop_eq_getElem_cons hi, List.drop_of_length_le (by omega), List.filterMap_cons,
        hbare]
      rfl
  | succ n ih =>
      have hlt : i + 1 < a.length := by omega
      have hnode' := node?_chain a (i + 1)
      rw [List.getElem?_eq_getElem hlt, Option.map_some] at hnode'
      have hbare' : (chain a).bare? ⟨i + 1⟩ = some a[i + 1].bare := by
        rw [bare?_chain, List.getElem?_eq_getElem hlt, Option.map_some]
      obtain ⟨rest, hup, hspelled⟩ := ih hlt (by omega) hnode' hbare'
      refine ⟨_, .step hnode (if_pos hlt) hup, ?_⟩
      rw [List.drop_eq_getElem_cons hi, List.filterMap_cons, hbare, hspelled]
      rfl

/-- An ancestry tells nothing about links, and it is not empty. -/
theorem HasAncestry.bare (h : f.HasAncestry r a) : a.map Node.bare = a ∧ 0 < a.length := by
  obtain ⟨rest, hup, rfl⟩ := h
  constructor
  · rw [List.map_filterMap]
    refine List.filterMap_congr ?_
    intro x _
    rw [bare?]
    cases f.node? x <;> rfl
  · obtain ⟨n, hn⟩ := Option.isSome_iff_exists.mp (hup.node (List.mem_cons_self ..))
    rw [List.filterMap_cons, bare?, hn]
    exact Nat.succ_pos _

/-- The first node of a chain has the ancestry that the chain is made of. -/
theorem HasAncestry.chain (h : f.HasAncestry r a) : (Forest.chain a).HasAncestry ⟨0⟩ a := by
  obtain ⟨hbare, hpos⟩ := h.bare
  have hchain := hasAncestry_chain hpos
  rwa [List.drop_zero, hbare] at hchain

end Forest

namespace NodeFilter

variable {filter : NodeFilter} {f : Forest} {r : NodeRef} {a : List Node}

/-- A filter that judges a node by what it is and what the nodes above it are. -/
def ByAncestry (filter : NodeFilter) : Prop :=
  ∀ f g r s a, f.HasAncestry r a → g.HasAncestry s a → filter.verdict f r = filter.verdict g s

theorem ByLineage.byAncestry (h : filter.ByLineage) : filter.ByAncestry := by
  intro f g r s a hf hg
  refine verdict_congr h ?_
  rw [f.lineage_eq, g.lineage_eq, hf.eq, hg.eq]

/-- The verdict on a node with an ancestry that stands in no other forest. -/
def verdictOn (filter : NodeFilter) (a : List Node) : Except Fault Verdict :=
  filter.verdict (Forest.chain a) ⟨0⟩

/-- **A filter that judges by ancestry needs no forest.** -/
theorem ByAncestry.verdict_eq (h : filter.ByAncestry) (ha : f.HasAncestry r a) :
    filter.verdict f r = filter.verdictOn a :=
  h f _ r ⟨0⟩ a ha ha.chain

end NodeFilter

end TestLauncher
