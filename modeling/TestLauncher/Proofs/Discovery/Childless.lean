import TestLauncher.Proofs.Discovery.Survivors

/-! # What is left without children

    Both walks over a tree take away nodes without children, and each leaves new ones.  The
    first asks the filters about every node it finds childless; the second only asks for
    tests.  So a test can be left childless without having been asked about: the first walk
    passed it by because of a container that the filters include, and the second took that
    container away.

    What is left childless are the lowest tests that have an included node in their
    subtree (`childless_iff`): the included node is the test itself, or it stands below the
    test with no other test in between, and then the test may be one that is excluded. -/

namespace TestLauncher

namespace Find

variable {κ : Type} {x : Find κ} {filters : List NodeFilter} {passed : NodeRef → Bool}

/-- What filters say about each node of a tree when they are asked while it is being thinned: the
    nodes are what they were, and so is the lineage of the node in question. -/
def Heard (x : Find κ) (filters : List NodeFilter) (passed : NodeRef → Bool) : Prop :=
  ∀ n ∈ x.tree.toList, ∃ f : Forest, f.lineage n = x.forest.lineage n ∧
    (∀ y ∈ x.tree.toList, f.bare? y = x.forest.bare? y) ∧
    passed n = filters.all fun filter => filter.includes (NodeRule.judge f n)

/-- Filters that judge by lineage say what they say about the tree as the engine returned it. -/
theorem Heard.eq (h : x.Heard filters passed) (hjudge : ∀ filter ∈ filters, filter.ByLineage)
    {n : NodeRef} (hn : n ∈ x.tree.toList) :
    passed n = filters.all fun filter => filter.includes (NodeRule.judge x.forest n) := by
  obtain ⟨f, hlineage, -, hpassed⟩ := h n hn
  rw [hpassed]
  refine Bool.eq_iff_iff.mpr ?_
  rw [List.all_eq_true, List.all_eq_true]
  refine forall₂_congr fun filter hfilter => ?_
  rw [NodeFilter.includes_congr (hjudge filter hfilter) hlineage]

/-- Whether a node is a test with something in its subtree that the filters include. -/
def bears (x : Find κ) (passed : NodeRef → Bool) (t : NodeRef) : Bool :=
  x.forest.isTest t && (x.forest.subtree t).any passed

theorem bears_iff {t : NodeRef} : x.bears passed t = true ↔
    x.forest.isTest t = true ∧ ∃ k ∈ x.forest.subtree t, passed k = true := by
  rw [bears, Bool.and_eq_true, List.any_eq_true]

/-- Each tree stands with what is kept of it. -/
theorem holds_keepBelow {f : Forest} {pp : Option NodeRef} {p : NodeRef → Bool}
    {xs : List (Find κ)} (h : f.Holds pp ((grove xs).keepBelow p)) (hx : x ∈ xs) :
    f.Stands x.root pp ((x.forest.below x.root).keep p).roots ∧
      f.Holds (some x.root) ((x.forest.below x.root).keep p) := by
  induction xs with
  | nil => exact absurd hx List.not_mem_nil
  | cons y ys ih =>
      obtain ⟨hroot, hbelow, hbeside⟩ := h
      rcases List.mem_cons.mp hx with rfl | hx
      · exact ⟨hroot, hbelow⟩
      · exact ih hbeside hx

section

variable (hx : x.forest.Holds none x.tree) (hn : x.tree.toList.Nodup)

include hx hn

/-- Below its root a subtree of a tree is one of what stands there. -/
theorem subtree_below {r : NodeRef} (hr : r ∈ (x.forest.below x.root).toList) :
    x.forest.subtree r = (x.forest.below x.root).under r := by
  rw [Forest.subtree_eq hx hn (mem_tree.mpr (Or.inr hr)), tree, Grove.tree,
    Grove.under_cons_of_mem_below hn hr]

/-- The subtree of a node below the root is the node and, different from it, the subtrees of its
    children. -/
theorem subtree_children {r : NodeRef} (hr : r ∈ (x.forest.below x.root).toList) :
    x.forest.subtree r = r :: (x.forest.children r).flatMap x.forest.subtree ∧
      r ∉ (x.forest.children r).flatMap x.forest.subtree ∧
      ∀ c ∈ x.forest.children r, c ∈ (x.forest.below x.root).toList := by
  obtain ⟨hrb, -, hnb, -, -⟩ := Grove.nodup_cons.mp hn
  have hb := (Forest.holds_tree.mp hx).2
  have hroot : some x.root ≠ some r := fun e => hrb (Option.some.inj e ▸ hr)
  have hmem : ∀ c ∈ x.forest.children r, c ∈ (x.forest.below x.root).toList := fun c hc =>
    (Forest.parent_of_mem_children hb hnb hroot hr hc).1
  have hchildren : (x.forest.children r).flatMap (x.forest.below x.root).under
      = (x.forest.children r).flatMap x.forest.subtree :=
    List.flatMap_congr fun c hc => (subtree_below hx hn (hmem c hc)).symm
  have hunder := Forest.under_eq_cons_flatMap hb hnb hroot hr
  have hnodup := hnb.sublist (Grove.under_sublist (x.forest.below x.root) r)
  rw [hchildren] at hunder
  rw [hunder, List.nodup_cons] at hnodup
  exact ⟨(subtree_below hx hn hr).trans hunder, hnodup.1, hmem⟩

/-- A node is kept with a test that bears something in its subtree, and it is left childless when
    none of its children is kept for that reason: when it is such a test, and the only one in its
    subtree. -/
theorem lowest_iff {n : NodeRef} (hb : n ∈ (x.forest.below x.root).toList) :
    ((x.forest.subtree n).any (x.bears passed) = true ∧
        (x.forest.children n).filter (fun c => (x.forest.subtree c).any (x.bears passed)) = []) ↔
      x.bears passed n = true ∧ ∀ t ∈ x.forest.subtree n, t ≠ n → x.bears passed t = false := by
  obtain ⟨hsubtree, hnot, -⟩ := subtree_children hx hn hb
  have hnone : (x.forest.children n).filter (fun c => (x.forest.subtree c).any (x.bears passed)) = []
      ↔ ((x.forest.children n).flatMap x.forest.subtree).any (x.bears passed) = false := by
    rw [List.filter_eq_nil_iff, List.any_flatMap, List.any_eq_false]
  rw [hnone, hsubtree, List.any_cons, List.any_eq_false]
  constructor
  · rintro ⟨hany, hbelow⟩
    have hrest := List.any_eq_false.mpr hbelow
    rw [hrest, Bool.or_false] at hany
    refine ⟨hany, ?_⟩
    intro t ht htn
    exact Bool.eq_false_iff.mpr (hbelow t ((List.mem_cons.mp ht).resolve_left htn))
  · rintro ⟨hself, hbelow⟩
    refine ⟨by rw [hself, Bool.true_or], ?_⟩
    intro t ht
    have htn : t ≠ n := fun e => hnot (e ▸ ht)
    exact Bool.eq_false_iff.mp (hbelow t (List.mem_cons_of_mem n ht) htn)

end

end Find

namespace Resolution

variable {κ ω ρ : Type}

section

variable {filters : List NodeFilter} {f₀ f f' : Forest} {suite? : Option NodeRef}
  {xs : List (Find κ)} {x : Find κ} {g : Grove NodeRef}

/-- What is kept of each tree, for whatever the filters said when they were asked. -/
theorem Settled.exists_heard (h : Settled filters f₀ suite? xs f f' g)
    (hsuite : suite?.all f.isSuite = true) (hx : x ∈ xs) :
    ∃ passed, x.Heard filters passed ∧
      f'.Stands x.root suite? ((x.forest.below x.root).keep fun n =>
        (x.forest.subtree n).any (x.bears passed)).roots ∧
      f'.Holds (some x.root) ((x.forest.below x.root).keep fun n =>
        (x.forest.subtree n).any (x.bears passed)) := by
  have hp := h.planted
  obtain ⟨filter, v, g', hcompose, hv, hg', hg⟩ := h.sifted
  have hstood := hp.stood x hx
  have hn := Find.nodup_tree hp.nodup hx
  refine ⟨Grove.passes v,
    fun n hn => passes_asked hp hx hn hsuite hcompose hv.up_to_roots, ?_⟩
  -- both walks together, on the trees as they were before the first
  have hholds := h.holds
  rw [Grove.thinBelow_thinBelow_eq_keepBelow hp.nodup hg' hg] at hholds
  have hkept := Find.holds_keepBelow hholds hx
  rwa [Grove.keep_congr (q := fun n => (x.forest.subtree n).any (x.bears (Grove.passes v)))] at hkept
  intro n hb
  have hnx : n ∈ x.tree.toList := Find.mem_tree.mpr (Or.inr hb)
  rw [Grove.endures, Find.under_grove hp.nodup hx hnx, Forest.subtree_eq hstood hn hnx]
  refine Grove.any_congr_of_mem ?_
  intro t ht
  have htx : t ∈ x.tree.toList := Grove.under_subset ht
  have htest : Grove.passes (fun r => .ok (f.isTest r)) t = x.forest.isTest t :=
    (Grove.passes_of_eq_ok rfl : _ = f.isTest t).trans (Forest.isTest_congr (hp.bare x hx t htx))
  rw [htest, Grove.survives, Find.under_grove hp.nodup hx htx, Find.bears,
    Forest.subtree_eq hstood hn htx]

/-- What is left childless below the root of a tree. -/
theorem Settled.left_childless (h : Settled filters f₀ suite? xs f f' g)
    (hsuite : suite?.all f.isSuite = true) (hx : x ∈ xs) :
    ∃ passed, x.Heard filters passed ∧ ∀ n ∈ (x.forest.below x.root).toList,
      (n ∈ (f'.below x.root).toList ∧ f'.children n = []) ↔
        x.bears passed n = true ∧ ∀ t ∈ x.forest.subtree n, t ≠ n → x.bears passed t = false := by
  obtain ⟨passed, hheard, hroot, hholds⟩ := h.exists_heard hsuite hx
  have hstood := h.planted.stood x hx
  have hn := Find.nodup_tree h.planted.nodup hx
  obtain ⟨-, -, hnb, -, -⟩ := Grove.nodup_cons.mp hn
  have hbelow := Forest.below_eq hroot hholds (hnb.sublist (Grove.sublist_keep _ _))
  have hfilter : ((x.forest.below x.root).keep fun n =>
      (x.forest.subtree n).any (x.bears passed)).toList
        = (x.forest.below x.root).toList.filter fun n =>
          (x.forest.subtree n).any (x.bears passed) := by
    refine Grove.toList_keep hnb ?_
    intro a ha k hk hany
    rw [Find.subtree_below hstood hn (Grove.under_subset hk)] at hany
    rw [Find.subtree_below hstood hn ha]
    obtain ⟨t, ht, hbears⟩ := List.any_eq_true.mp hany
    exact List.any_eq_true.mpr ⟨t, Grove.under_trans hnb hk ht, hbears⟩
  refine ⟨passed, hheard, ?_⟩
  intro n hb
  rw [← Find.lowest_iff hstood hn hb, hbelow, hfilter, List.mem_filter, and_iff_right hb]
  refine and_congr_right fun hany => ?_
  have hmem : n ∈ ((x.forest.below x.root).keep fun n =>
      (x.forest.subtree n).any (x.bears passed)).toList := by
    rw [hfilter]
    exact List.mem_filter.mpr ⟨hb, hany⟩
  rw [Forest.children_keep (Forest.holds_tree.mp hstood).2 hnb hholds hmem]

end

variable {strict : Bool} {phase : Phase} {rooted : RootedRequest} {engines : List (Engine κ)}
  {r : Resolution κ} {w w' : World κ ω ρ}

/-- **What is left childless** below the roots of the engines are the lowest tests that have a node
    in their subtree which every filter includes, in the trees as the engines returned them.  So it
    is always a test, but one that a filter excludes when that node stands below it. -/
theorem childless_iff (hfresh : ∀ e ∈ engines, e.BuildsFresh)
    (hsuite : ∀ p, rooted.suite? = some p → w.forest.Stands p none [] ∧ w.forest.isSuite p = true)
    (h : (ofRequest engines strict phase rooted).on w = (.ok r, w')) :
    let xs := finds phase strict rooted engines (start rooted w) w
    r.roots = xs.map (fun x => (x.engine, x.root)) ∧
      ∀ x ∈ xs, ∃ passed, x.Heard rooted.request.nodeFilters passed ∧
        ∀ n ∈ (x.forest.below x.root).toList,
          (n ∈ (w'.forest.below x.root).toList ∧ w'.forest.children n = []) ↔
            x.forest.isTest n = true ∧ (∃ k ∈ x.forest.subtree n, passed k = true) ∧
              ∀ t ∈ x.forest.subtree n, t ≠ n → x.forest.isTest t = true →
                ∀ k ∈ x.forest.subtree t, passed k = false := by
  intro xs
  obtain ⟨hr, f, g, hsettled⟩ := ofRequest_eq_ok hfresh (fun p hp => (hsuite p hp).1) h
  refine ⟨by rw [hr]; rfl, ?_⟩
  intro x hx
  have hall : rooted.suite?.all f.isSuite = true := by
    cases hs : rooted.suite? with
    | none => rfl
    | some p =>
        show f.isSuite p = true
        rw [← (hsuite p hs).2]
        exact Forest.isSuite_congr (hsettled.planted.suite p hs).2.1
  obtain ⟨passed, hheard, hiff⟩ := hsettled.left_childless hall hx
  refine ⟨passed, hheard, ?_⟩
  intro n hb
  rw [hiff n hb, Find.bears_iff, and_assoc]
  refine and_congr_right fun _ => and_congr_right fun _ => ?_
  refine forall₂_congr fun t ht => forall_congr' fun htn => ?_
  rw [← Bool.not_eq_true, Find.bears_iff]
  simp only [not_and, not_exists, Bool.not_eq_true]

/-! ## An excluded test that is left childless -/

/-- A slow test that is a container as well, with a container below it. -/
def growSlow (id : UniqueId) : Growing NodeRef := do
  let testId ← Steps.ofExcept (id.append "ct" "T")
  let classId ← Steps.ofExcept (testId.append "class" "C")
  let root ← Forest.plant (Node.make (some id) "alpha")
  let test ← Forest.plant
    (Node.make (some testId) "T" .containerAndTest (StringSet.ofList ["slow"]))
  let container ← Forest.plant (Node.make (some classId) "C")
  Forest.attach test container
  Forest.attach root test
  return root

/-- An engine with that test. -/
def slow : Engine Unit where
  id := "alpha"
  discover _ id := do return some (← (growSlow id).first)
  execute _ _ := .done ()

theorem raised_growSlow {f f' : Forest} {id : UniqueId} {r : NodeRef}
    (h : (growSlow id).on f = (.ok r, f')) : ∃ n b, f.Raised f' r n b := by
  obtain ⟨testId, f₁, htestId, h⟩ := Steps.on_bind_eq_ok h
  rw [Steps.on_ofExcept] at htestId
  injection htestId with _ hf
  subst hf
  obtain ⟨classId, f₁, hclassId, h⟩ := Steps.on_bind_eq_ok h
  rw [Steps.on_ofExcept] at hclassId
  injection hclassId with _ hf
  subst hf
  obtain ⟨root, f₁, hroot, h⟩ := Steps.on_bind_eq_ok h
  obtain ⟨test, f₂, htest, h⟩ := Steps.on_bind_eq_ok h
  obtain ⟨container, f₃, hcontainer, h⟩ := Steps.on_bind_eq_ok h
  obtain ⟨_, f₄, hbelow, h⟩ := Steps.on_bind_eq_ok h
  obtain ⟨_, f₅, habove, h⟩ := Steps.on_bind_eq_ok h
  cases h
  have hraised := (Forest.raised_plant htest).attach (Forest.raised_plant hcontainer) hbelow
  exact ⟨_, _, (Forest.raised_plant hroot).attach hraised habove⟩

theorem slow_placeless : slow.Placeless := by
  have hnode : ∀ {id : UniqueId} {name kind tags source} (x : Node),
      Node.make (some id) name kind tags source = .ok x → x.parent = none ∧ x.children = ∅ := by
    intro id name kind tags source x hx
    rw [Node.make_eq_ok hx]
    exact ⟨rfl, rfl⟩
  intro f₀ n request id
  have hgrow : Forest.GrowthsMirror f₀ n (growSlow id) (growSlow id)
      (fun m r r' => n ≤ r.index ∧ r.index < m ∧ r' = r.shift f₀.size) := by
    refine (mirrors_ofExcept_same _).bind ?_
    rintro m testId _ _ ⟨rfl, rfl⟩
    refine (mirrors_ofExcept_same _).bind ?_
    rintro m classId _ _ ⟨rfl, rfl⟩
    refine (Forest.mirrors_plant hnode).bind ?_
    rintro m root _ _ ⟨rfl, hroot, rfl⟩
    refine (Forest.mirrors_plant hnode).bind ?_
    rintro m test _ _ ⟨rfl, htest, rfl⟩
    refine (Forest.mirrors_plant hnode).bind ?_
    rintro m container _ _ ⟨rfl, hcontainer, rfl⟩
    refine (Forest.mirrors_attach (by omega) (by omega)).bind ?_
    rintro m _ _ _ rfl
    refine (Forest.mirrors_attach (by omega) (by omega)).bind ?_
    rintro m _ _ _ rfl
    exact mirrors_pure ⟨by omega, by omega, rfl⟩
  refine (Forest.mirrors_first hgrow).bind ?_
  rintro m r _ _ ⟨hle, hlt, rfl⟩
  refine mirrors_pure ⟨?_, rfl⟩
  rintro x ⟨⟩
  exact ⟨hle, hlt⟩

theorem slow_buildsFresh : slow.BuildsFresh where
  leaves := slow_placeless.leaves
  fresh request id s r t h := by
    obtain ⟨root, t', hgrow, h⟩ := Steps.on_bind_eq_ok h
    cases h
    rw [Steps.on_first] at hgrow
    obtain ⟨hroot, rfl⟩ := Prod.mk.inj hgrow
    obtain ⟨n, b, hraised⟩ := raised_growSlow (Prod.ext hroot rfl)
    exact ⟨b, hraised.holds, hraised.nodup, hraised.fresh⟩

/-- Everything but what is slow. -/
def notSlow : RootedRequest where
  request := { nodeFilters := [.rule (.tags ⟨StringSet.ofList ["slow"], .excluding⟩)] }

/-- A world in which nobody knows anything. -/
def unaware : World Unit Unit Unit := { engines := (), listeners := (), resolver := () }

/-- The slow test is left without children, although the filter excludes it: the container below it
    was included, and taken away afterwards. -/
theorem childless_slow :
    ∃ r w' x, (ofRequest [slow] false .discovery notSlow).on unaware = (.ok r, w') ∧
      x ∈ finds .discovery false notSlow [slow] (start notSlow unaware) unaware ∧
      (⟨1⟩ ∈ (w'.forest.below x.root).toList ∧ w'.forest.children ⟨1⟩ = []) ∧
      (notSlow.request.nodeFilters.all fun filter =>
        filter.includes (NodeRule.judge x.forest ⟨1⟩)) = false := by
  have hfresh : ∀ e ∈ [slow], e.BuildsFresh := by
    intro e he
    rw [List.mem_singleton.mp he]
    exact slow_buildsFresh
  have hjudge : ∀ filter ∈ notSlow.request.nodeFilters, filter.ByLineage := by
    intro filter hfilter rule hrule
    rw [List.mem_singleton.mp hfilter] at hrule
    cases List.mem_singleton.mp hrule
  -- the tree as the engine returned it
  have hfound : (finds .discovery false notSlow [slow] (start notSlow unaware) unaware).any
      (fun x => decide ((x.forest.below x.root).toList = [⟨1⟩, ⟨2⟩]) &&
        decide (x.forest.subtree ⟨1⟩ = [⟨1⟩, ⟨2⟩]) &&
        x.forest.isTest ⟨1⟩ && !x.forest.isTest ⟨2⟩ &&
        notSlow.request.nodeFilters.all (fun filter =>
          filter.includes (NodeRule.judge x.forest ⟨2⟩)) &&
        !notSlow.request.nodeFilters.all (fun filter =>
          filter.includes (NodeRule.judge x.forest ⟨1⟩))) = true := by
    decide +kernel
  have hok : ((ofRequest [slow] false .discovery notSlow).on unaware).1.isOk = true := by
    decide +kernel
  rcases h : (ofRequest [slow] false .discovery notSlow).on unaware with ⟨result, w'⟩
  rw [h] at hok
  cases result with
  | error e => cases hok
  | ok r =>
      obtain ⟨x, hx, hfacts⟩ := List.any_eq_true.mp hfound
      simp only [Bool.and_eq_true, Bool.not_eq_true', decide_eq_true_eq] at hfacts
      obtain ⟨⟨⟨⟨⟨hbelow, hsubtree⟩, htest⟩, hcontainer⟩, hincluded⟩, hexcluded⟩ := hfacts
      obtain ⟨passed, hheard, hiff⟩ := (childless_iff hfresh (fun p hp => by cases hp) h).2 x hx
      have hone : ⟨1⟩ ∈ (x.forest.below x.root).toList := by simp [hbelow]
      have htwo : ⟨2⟩ ∈ x.tree.toList := Find.mem_tree.mpr (Or.inr (by simp [hbelow]))
      refine ⟨r, w', x, rfl, hx, (hiff ⟨1⟩ hone).mpr ⟨htest, ⟨⟨2⟩, ?_, ?_⟩, ?_⟩, hexcluded⟩
      · simp [hsubtree]
      · rw [hheard.eq hjudge htwo]
        exact hincluded
      · rw [hsubtree]
        intro t ht htn hbears
        rw [List.mem_singleton.mp ((List.mem_cons.mp ht).resolve_left htn), hcontainer] at hbears
        cases hbears

end Resolution

end TestLauncher
