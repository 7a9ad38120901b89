import TestLauncher.Proofs.Forest.Thinning

/-! # Judging by lineage

    The lineage of a node is what it is and what the nodes above it are, up to the root of
    its tree or to the node below a suite.  The filters of this library judge a node by its
    lineage (`verdict_congr`); a rule supplied from outside may or may not
    (`CustomRule.ByLineage`).  In a tree that stands the lineage of a node is spelled out by
    the path to it (`lineage_of_path`), whatever else is in the forest. -/

namespace TestLauncher

namespace Forest

/-- Whether a node stands for a suite, by its id. -/
def isSuite (f : Forest) (r : NodeRef) : Bool :=
  (f.bare? r).any fun n => n.id.last.type = Segment.suiteType

/-- What a node and the nodes above it are, up to the root of the tree or to below a suite. -/
def lineageFrom (f : Forest) : Nat → NodeRef → List Node
  | 0, _ => []
  | n + 1, r =>
    match f.node? r with
    | none => []
    | some x => x.bare ::
      match x.parent with
      | none => []
      | some p => if f.isSuite p then [] else f.lineageFrom n p

/-- What a node and the nodes above it are, up to the root of the tree or to below a suite. -/
def lineage (f : Forest) (r : NodeRef) : List Node := f.lineageFrom (f.size + 1) r

end Forest

/-- A rule supplied from outside that judges a node by its lineage. -/
def CustomRule.ByLineage (rule : CustomRule (Forest × NodeRef)) : Prop :=
  ∀ f g r s, f.lineage r = g.lineage s → rule.judge (f, r) = rule.judge (g, s)

/-- A filter whose rules from outside judge nodes by their lineage. -/
def NodeFilter.ByLineage (filter : NodeFilter) : Prop :=
  ∀ rule, .custom rule ∈ filter.leaves → rule.ByLineage

/-! ## Filters ask their rules -/

namespace Filter

variable {α : Type} {j k : α → Except Fault Verdict}

mutual

theorem apply_congr : (filter : Filter α) → (∀ r ∈ filter.leaves, j r = k r) →
    filter.apply j = filter.apply k
  | .all, _ => by rw [apply, apply]
  | .rule r, h => by
      rw [apply, apply]
      exact h r (by simp [leaves])
  | .every parts, h => by
      rw [apply, apply]
      exact applyAll_congr parts fun r hr => h r (by rw [leaves]; exact hr)

theorem applyAll_congr : (parts : List (Filter α)) → (∀ r ∈ leavesAll parts, j r = k r) →
    applyAll j parts = applyAll k parts
  | [], _ => by rw [applyAll, applyAll]
  | part :: parts, h => by
      have hpart : part.apply j = part.apply k :=
        apply_congr part fun r hr => h r (by rw [leavesAll]; exact List.mem_append_left _ hr)
      have hparts : applyAll j parts = applyAll k parts :=
        applyAll_congr parts fun r hr => h r (by rw [leavesAll]; exact List.mem_append_right _ hr)
      rw [applyAll, applyAll, hpart, hparts]

end

mutual

/-- A filter answers when its rules do. -/
theorem apply_ok : (filter : Filter α) → (∀ r ∈ filter.leaves, ∃ v, j r = .ok v) →
    ∃ v, filter.apply j = .ok v
  | .all, _ => ⟨⟨true, some "Always included"⟩, by rw [apply]⟩
  | .rule r, h => by
      rw [apply]
      exact h r (by simp [leaves])
  | .every parts, h => by
      rw [apply]
      exact applyAll_ok parts fun r hr => h r (by rw [leaves]; exact hr)

theorem applyAll_ok : (parts : List (Filter α)) → (∀ r ∈ leavesAll parts, ∃ v, j r = .ok v) →
    ∃ v, applyAll j parts = .ok v
  | [], _ => ⟨⟨true, some "Element was included by all filters."⟩, by rw [applyAll]⟩
  | part :: parts, h => by
      obtain ⟨v, hv⟩ : ∃ v, part.apply j = .ok v :=
        apply_ok part fun r hr => h r (by rw [leavesAll]; exact List.mem_append_left _ hr)
      obtain ⟨u, hu⟩ : ∃ u, applyAll j parts = .ok u :=
        applyAll_ok parts fun r hr => h r (by rw [leavesAll]; exact List.mem_append_right _ hr)
      rw [applyAll, hv]
      dsimp only
      split
      · exact ⟨u, hu⟩
      · exact ⟨v, rfl⟩

end

/-- The leaves of filters are those of each of them. -/
theorem mem_leavesAll {parts : List (Filter α)} {r : α} :
    r ∈ leavesAll parts ↔ ∃ part ∈ parts, r ∈ part.leaves := by
  induction parts with
  | nil => simp [leavesAll]
  | cons part parts ih => simp [leavesAll, ih]

/-- Whether a filter includes what it is asked about. -/
def includes (filter : Filter α) (judge : α → Except Fault Verdict) : Bool :=
  (filter.apply judge).toOption.any Verdict.included

/-- A filter made of parts includes what all of them include. -/
theorem includes_every (parts : List (Filter α)) (judge : α → Except Fault Verdict) :
    (every parts).includes judge = parts.all fun part => part.includes judge := by
  rw [includes, apply]
  induction parts with
  | nil => rfl
  | cons part parts ih =>
      rw [List.all_cons, includes, applyAll]
      cases part.apply judge with
      | error e => rfl
      | ok v =>
          cases hv : v.included with
          | true =>
              simp only [hv, if_true, ih]
              simp [Except.toOption, hv]
          | false => simp [Except.toOption, hv]

/-- Filters that are given compose to all of them, to the one, or to no condition. -/
theorem compose_some (filters : List (Filter α)) :
    compose (filters.map some) = .ok (match filters with
      | [] => all
      | [f] => f
      | fs => every fs) := by
  rw [compose, Require.allPresent_map_some]
  rcases filters with _ | ⟨f, _ | ⟨g, fs⟩⟩ <;> rfl

/-- Filters composed include what each of them includes. -/
theorem includes_compose {filters : List (Filter α)} {filter : Filter α}
    (h : compose (filters.map some) = .ok filter) (judge : α → Except Fault Verdict) :
    filter.includes judge = filters.all fun part => part.includes judge := by
  rw [compose_some] at h
  cases h
  rcases filters with _ | ⟨f, _ | ⟨g, fs⟩⟩
  · rfl
  · simp
  · exact includes_every _ _

/-- Filters composed have the rules of each of them. -/
theorem mem_leaves_compose {filters : List (Filter α)} {filter : Filter α} {r : α}
    (h : compose (filters.map some) = .ok filter) (hr : r ∈ filter.leaves) :
    ∃ part ∈ filters, r ∈ part.leaves := by
  rw [compose_some] at h
  cases h
  rcases filters with _ | ⟨f, _ | ⟨g, fs⟩⟩
  · simp [leaves] at hr
  · exact ⟨f, by simp, hr⟩
  · rw [leaves] at hr
    exact mem_leavesAll.mp hr

end Filter

/-! ## The rules of the library judge by lineage -/

namespace Forest

/-- The source nearest to the start of a lineage, before the root of an engine's tree. -/
def sourceOf : List Node → Option String
  | [] => none
  | x :: above =>
    if x.id.last.isRoot then none
    else
      match x.source.filter (· ≠ "") with
      | some s => some s
      | none => sourceOf above

/-- A node stands for a suite by what it is. -/
theorem isSuite_congr {f g : Forest} {r : NodeRef} (h : g.bare? r = f.bare? r) :
    g.isSuite r = f.isSuite r := by
  rw [isSuite, isSuite, h]

/-- A search for a source ends at a suite. -/
theorem sourceFrom_isSuite {f : Forest} {n : Nat} {r : NodeRef} (h : f.isSuite r = true) :
    f.sourceFrom n r = none := by
  cases n with
  | zero => rfl
  | succ n =>
      rw [isSuite, bare?] at h
      rw [sourceFrom]
      cases hr : f.node? r with
      | none => rfl
      | some x =>
          rw [hr] at h
          have htype : x.id.last.type = Segment.suiteType := of_decide_eq_true h
          have hroot : x.id.last.isRoot = true := by
            rw [Segment.isRoot]
            exact decide_eq_true (Or.inr htype)
          show (if x.id.last.isRoot = true then none else _) = none
          rw [if_pos hroot]

/-- The class a node belongs to is read off its lineage. -/
theorem sourceFrom_eq (f : Forest) (n : Nat) (r : NodeRef) :
    f.sourceFrom n r = sourceOf (f.lineageFrom n r) := by
  induction n generalizing r with
  | zero => rfl
  | succ n ih =>
      rw [sourceFrom, lineageFrom]
      cases hr : f.node? r with
      | none => rfl
      | some x =>
          show (if x.id.last.isRoot = true then none else _) = _
          rw [sourceOf]
          by_cases hroot : x.id.last.isRoot = true
          · rw [if_pos hroot]
            exact (if_pos hroot).symm
          · rw [if_neg hroot]
            refine Eq.trans ?_ (if_neg hroot).symm
            show _ = match x.source.filter (· ≠ "") with
              | some s => some s
              | none => sourceOf (match x.parent with
                | none => []
                | some p => if f.isSuite p then [] else f.lineageFrom n p)
            cases x.source.filter (· ≠ "") with
            | some s => rfl
            | none =>
                cases hp : x.parent with
                | none => rfl
                | some p =>
                    show f.sourceFrom n p = sourceOf (if f.isSuite p then [] else f.lineageFrom n p)
                    by_cases hs : f.isSuite p = true
                    · rw [if_pos hs, sourceFrom_isSuite hs]
                      rfl
                    · rw [if_neg hs, ih p]

/-- Nodes with one lineage are the same but for their links. -/
theorem bare?_of_lineage {f g : Forest} {r s : NodeRef} (h : f.lineage r = g.lineage s) :
    f.bare? r = g.bare? s := by
  rw [lineage, lineage, lineageFrom, lineageFrom] at h
  rw [bare?, bare?]
  cases hr : f.node? r with
  | none =>
      cases hs : g.node? s with
      | none => rfl
      | some y =>
          rw [hr, hs] at h
          cases h
  | some x =>
      cases hs : g.node? s with
      | none =>
          rw [hr, hs] at h
          cases h
      | some y =>
          rw [hr, hs] at h
          injection h with hxy
          exact congrArg some hxy

/-- Nodes with one lineage have one source. -/
theorem sourceName_of_lineage {f g : Forest} {r s : NodeRef} (h : f.lineage r = g.lineage s) :
    f.sourceName r = g.sourceName s := by
  rw [sourceName, sourceName, sourceFrom_eq, sourceFrom_eq]
  exact congrArg sourceOf h

end Forest

/-- What a rule of the library looks at is in the lineage. -/
theorem NodeRule.judge_congr {f g : Forest} {r s : NodeRef} {rule : NodeRule}
    (h : f.lineage r = g.lineage s)
    (hcustom : ∀ custom, rule = .custom custom → custom.ByLineage) :
    rule.judge f r = rule.judge g s := by
  have hbare := Forest.bare?_of_lineage h
  have hsource := Forest.sourceName_of_lineage h
  cases rule with
  | custom rule => exact hcustom rule rfl f g r s h
  | _ rule =>
      rw [Forest.bare?, Forest.bare?] at hbare
      cases hr : f.node? r with
      | none =>
          have hs : g.node? s = none := by
            rw [hr] at hbare
            exact Option.map_eq_none_iff.mp hbare.symm
          simp [NodeRule.judge, hr, hs]
      | some n =>
          obtain ⟨m, hs, hnm⟩ : ∃ m, g.node? s = some m ∧ m.bare = n.bare := by
            rw [hr] at hbare
            exact Option.map_eq_some_iff.mp hbare.symm
          have hname : m.bare.name = n.bare.name := by rw [hnm]
          have htags : m.bare.tags = n.bare.tags := by rw [hnm]
          simp only [Node.bare] at hname htags
          simp [NodeRule.judge, NodeRule.judgeSource, hr, hs, hsource, hname, htags]

/-- A filter judges nodes of one lineage alike. -/
theorem NodeFilter.verdict_congr {filter : NodeFilter} {f g : Forest} {r s : NodeRef}
    (hfilter : filter.ByLineage) (h : f.lineage r = g.lineage s) :
    filter.verdict f r = filter.verdict g s := by
  refine Filter.apply_congr filter ?_
  intro rule hrule
  exact NodeRule.judge_congr h fun custom hcustom => hfilter custom (hcustom ▸ hrule)

/-- A filter by lineage includes both of two nodes with one lineage, or neither. -/
theorem NodeFilter.includes_congr {filter : NodeFilter} {f g : Forest} {r s : NodeRef}
    (hfilter : filter.ByLineage) (h : f.lineage r = g.lineage s) :
    filter.includes (NodeRule.judge f r) = filter.includes (NodeRule.judge g s) := by
  have hverdict := NodeFilter.verdict_congr hfilter h
  rw [NodeFilter.verdict, NodeFilter.verdict] at hverdict
  rw [Filter.includes, Filter.includes, hverdict]

/-! ## Lineages along paths -/

namespace Forest

/-- Each node of a path has the next one as its parent, and the last one has none or a suite. -/
def Rises (f : Forest) : List NodeRef → Prop
  | [] => False
  | [r] => (f.node? r).isSome = true ∧ (f.parent? r).all f.isSuite = true
  | r :: q :: rest => f.parent? r = some q ∧ f.Rises (q :: rest)

/-- What the nodes of a path are, up to below a suite. -/
def labels (f : Forest) : List NodeRef → List Node
  | [] => []
  | [r] => (f.bare? r).toList
  | r :: q :: rest => (f.bare? r).toList ++ if f.isSuite q then [] else f.labels (q :: rest)

/-- Paths of nodes that are alike are labelled alike. -/
theorem labels_congr {f g : Forest} {path : List NodeRef}
    (h : ∀ x ∈ path, g.bare? x = f.bare? x) : g.labels path = f.labels path := by
  induction path with
  | nil => rfl
  | cons r rest ih =>
      have hrest := ih fun x hx => h x (List.mem_cons_of_mem r hx)
      cases rest with
      | nil => rw [labels, labels, h r (by simp)]
      | cons q rest =>
          rw [labels, labels, hrest, h r (by simp), isSuite_congr (h q (by simp))]

/-- A path rises where its nodes keep their parents. -/
theorem rises_congr {f g : Forest} {path : List NodeRef} (hf : f.Rises path)
    (h : f.Along g path) : g.Rises path := by
  induction path with
  | nil => exact hf
  | cons r rest ih =>
      have hrest : f.Along g rest := ⟨h.1, fun x hx => h.2 x (List.mem_cons_of_mem r hx)⟩
      have hr := h.2 r (List.mem_cons_self ..)
      cases rest with
      | nil =>
          obtain ⟨hsome, hall⟩ := hf
          refine ⟨?_, ?_⟩
          · have hb := congrArg Option.isSome (h.1 r)
            rw [bare?, bare?, Option.isSome_map, Option.isSome_map] at hb
            rw [hb]
            exact hsome
          · have hsuite : g.isSuite = f.isSuite := funext fun x => isSuite_congr (h.1 x)
            rw [hr, hsuite]
            exact hall
      | cons q rest => exact ⟨hr.trans hf.1, ih hf.2 hrest⟩

/-- The lineage of the first node of a path is what the nodes of the path are. -/
theorem lineageFrom_of_rises {f : Forest} {r : NodeRef} {rest : List NodeRef} {n : Nat}
    (h : f.Rises (r :: rest)) (hn : rest.length < n) :
    f.lineageFrom n r = f.labels (r :: rest) := by
  induction rest generalizing r n with
  | nil =>
      obtain ⟨m, rfl⟩ := Nat.exists_eq_add_of_lt hn
      obtain ⟨hsome, hall⟩ := h
      obtain ⟨x, hx⟩ := Option.isSome_iff_exists.mp hsome
      rw [parent?, hx] at hall
      rw [lineageFrom, labels, bare?, hx]
      cases hp : x.parent with
      | none => simp [hp]
      | some p =>
          have hs : f.isSuite p = true := by
            simp only [Option.bind_some, hp, Option.all_some] at hall
            exact hall
          simp [hp, hs]
  | cons q rest ih =>
      obtain ⟨m, rfl⟩ := Nat.exists_eq_add_of_lt hn
      obtain ⟨hparent, hrest⟩ := h
      obtain ⟨x, hx, hp⟩ := Option.bind_eq_some_iff.mp hparent
      have hlen : rest.length < (q :: rest).length + m := by
        simp only [List.length_cons]
        omega
      rw [lineageFrom, labels, bare?, hx]
      simp only [hp, Option.map_some, Option.toList_some, List.singleton_append, ih hrest hlen]

/-- The paths of the nodes of trees rise. -/
theorem rises_withPaths {f : Forest} {g : Grove NodeRef} {p : NodeRef} {above : List NodeRef}
    (hg : f.Holds (some p) g) (habove : f.Rises (p :: above)) :
    ∀ path ∈ (g.withPaths (p :: above)).toList, f.Rises path := by
  induction g generalizing p above with
  | nil => exact fun path h => absurd h List.not_mem_nil
  | cons r b s ihb ihs =>
      obtain ⟨hr, hb, hs⟩ := hg
      have hrises : f.Rises (r :: p :: above) := ⟨hr.parent, habove⟩
      intro path h
      simp only [Grove.withPaths, Grove.toList_cons, List.mem_cons, List.mem_append] at h
      rcases h with rfl | h | h
      · exact hrises
      · exact ihb hb hrises path h
      · exact ihs hs habove path h

/-- The paths up to the roots of trees that stand, each root without a parent or below a suite. -/
theorem rises_of_holds {f : Forest} {g : Grove NodeRef} {pp : Option NodeRef}
    (hg : f.Holds pp g) (hpp : pp.all f.isSuite = true) :
    ∀ path ∈ (g.withPaths []).toList, f.Rises path := by
  induction g with
  | nil => exact fun path h => absurd h List.not_mem_nil
  | cons r b s _ ihs =>
      obtain ⟨hr, hb, hs⟩ := hg
      have hroot : f.Rises [r] := by
        obtain ⟨n, hn, -⟩ := hr.exists_node
        refine ⟨by rw [hn]; rfl, ?_⟩
        rw [hr.parent]
        exact hpp
      intro path h
      simp only [Grove.withPaths, Grove.toList_cons, List.mem_cons, List.mem_append] at h
      rcases h with rfl | h | h
      · exact hroot
      · exact rises_withPaths hb hroot path h
      · exact ihs hs path h

/-- The lineage of a node of a tree that stands. -/
theorem lineage_of_path {f : Forest} {g : Grove NodeRef} {pp : Option NodeRef} {r : NodeRef}
    {rest : List NodeRef} (hg : f.Holds pp g) (hn : g.toList.Nodup)
    (hpp : pp.all f.isSuite = true) (h : r :: rest ∈ (g.withPaths []).toList) :
    f.lineage r = f.labels (r :: rest) := by
  refine lineageFrom_of_rises (rises_of_holds hg hpp _ h) ?_
  have hlen := Grove.length_of_mem_withPaths h
  have hheight := height_le_size hg hn
  simp only [List.length_cons, List.length_nil] at hlen
  omega

/-- Forests with the same nodes are of one size. -/
theorem size_eq_of_bare? {f g : Forest} (h : ∀ x, g.bare? x = f.bare? x) : g.size = f.size := by
  have hlt : ∀ i, i < g.size ↔ i < f.size := by
    intro i
    have hi := congrArg Option.isSome (h ⟨i⟩)
    rw [bare?, bare?, Option.isSome_map, Option.isSome_map] at hi
    rw [← node?_isSome_iff g ⟨i⟩, ← node?_isSome_iff f ⟨i⟩, hi]
  exact Nat.le_antisymm (Nat.le_of_not_lt fun hl => Nat.lt_irrefl _ ((hlt _).mp hl))
    (Nat.le_of_not_lt fun hl => Nat.lt_irrefl _ ((hlt _).mpr hl))

/-- The lineage of a node does not change as long as nothing along its path does. -/
theorem lineage_along {f f' : Forest} {g : Grove NodeRef} {pp : Option NodeRef} {r : NodeRef}
    {rest : List NodeRef} (hg : f.Holds pp g) (hn : g.toList.Nodup)
    (hpp : pp.all f.isSuite = true) (h : r :: rest ∈ (g.withPaths []).toList)
    (halong : f.Along f' (r :: rest)) : f'.lineage r = f.lineage r := by
  have hrises := rises_congr (rises_of_holds hg hpp _ h) halong
  have hlen := Grove.length_of_mem_withPaths h
  have hheight := height_le_size hg hn
  have hsize := size_eq_of_bare? halong.1
  simp only [List.length_cons, List.length_nil] at hlen
  rw [lineage_of_path hg hn hpp h, lineage, lineageFrom_of_rises hrises (by omega)]
  exact labels_congr fun x _ => halong.1 x

end Forest

end TestLauncher
