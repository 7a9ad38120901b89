import TestLauncher.Proofs.Discovery.Progress
import TestLauncher.Proofs.Forest.Winnowing

/-! # What sifting does to a resolution

    Sifting goes through the trees of a resolution one after the other and judges nodes by
    the filters composed.  Filters that do not fail and judge a node by what it is and what
    is above it say of each node they come to what they would have said before
    (`siftNode_culls`), so sifting is a cull and the trees are winnowed
    (`Resolution.sift_winnows`).

    What a filter is asked about is not to be seen in the outcome.  So the verdict on a node
    is taken out of sifting (`siftNodeBy`): whatever steps give it, sifting does what it did,
    and steps that note each question show that no node is asked about twice. -/

namespace TestLauncher

namespace Forest

variable {τ : Type} {filter : NodeFilter} {f g : Forest} {root r n : NodeRef}

/-! ## One node -/

/-- Sifts a node with a verdict that steps give. -/
def siftNodeBy (ask : Forest → NodeRef → Steps (Forest × Journal × τ) Verdict)
    (root r : NodeRef) : Steps (Forest × Journal × τ) Unit := do
  let f := (← get).1
  match f.node? r with
  | none => pure ()
  | some n =>
    if r = root || !n.children.isEmpty then pure ()
    else
      let v ← ask f r
      if v.included then pure ()
      else
        let (_, j, t) ← get
        set (f, j.write (removalRecord n v), t)
        (uproot r).first

/-- Asks a filter for its verdict, and notes what it was asked about. -/
def askNoting (filter : NodeFilter) (f : Forest) (r : NodeRef) :
    Steps (Forest × Journal × List NodeRef) Verdict := do
  let (f', j, asked) ← get
  set (f', j, asked ++ [r])
  Steps.ofExcept (filter.verdict f r)

/-- What is logged about a node when it is judged. -/
def removal (filter : NodeFilter) (f : Forest) (r : NodeRef) : Option LogRecord := do
  let n ← f.node? r
  let v ← (filter.verdict f r).toOption
  if v.included then none else some (removalRecord n v)

/-- The journal once a node was judged. -/
def logRemoval (filter : NodeFilter) (f : Forest) (r : NodeRef) (j : Journal) : Journal :=
  (f.removal filter r).elim j j.write

/-- Notes about a node, and behind them the node itself. -/
def noteAsked (note : NodeRef → Journal → Journal) (r : NodeRef) (s : Journal × List NodeRef) :
    Journal × List NodeRef := (note r s.1, s.2 ++ [r])

/-- Whether a filter is asked about a node when the sifting comes to it. -/
def judges (f : Forest) (root r : NodeRef) : Bool :=
  (f.node? r).isSome && !(decide (r = root) || !(f.children r).isEmpty)

theorem on_siftNode (filter : NodeFilter) (root r : NodeRef) (f : Forest) (j : Journal) :
    (siftNode filter root r).on (f, j)
      = if f.judges root r then
          match filter.verdict f r with
          | .error e => (.error e, f, j)
          | .ok v =>
            if v.included then (.ok (), f, j)
            else (((uproot r).on f).1, ((uproot r).on f).2, f.logRemoval filter r j)
        else (.ok (), f, j) := by
  rw [siftNode, Steps.on_bind_ok (Steps.on_get _)]
  dsimp only
  rw [judges]
  cases hr : f.node? r with
  | none => rfl
  | some n =>
      rw [isEmpty_children hr]
      dsimp only
      cases hkeep : decide (r = root) || !n.children.isEmpty with
      | true => rfl
      | false =>
          rw [if_neg Bool.false_ne_true, Steps.on_bind, Steps.on_ofExcept, logRemoval, removal, hr]
          cases filter.verdict f r with
          | error e => rfl
          | ok v =>
              obtain ⟨included, reason⟩ := v
              cases included <;> rfl

/-- Whatever steps give the verdicts of a filter, sifting a node with them is sifting it by the
    filter; what the steps note is noted once when the filter is asked. -/
theorem on_siftNodeBy {ask : Forest → NodeRef → Steps (Forest × Journal × τ) Verdict}
    {tell : NodeRef → τ → τ}
    (hask : ∀ f r g j t, (ask f r).on (g, j, t) = (filter.verdict f r, g, j, tell r t))
    (root r : NodeRef) (f : Forest) (j : Journal) (t : τ) :
    (siftNodeBy ask root r).on (f, j, t)
      = (((siftNode filter root r).on (f, j)).1, ((siftNode filter root r).on (f, j)).2.1,
          ((siftNode filter root r).on (f, j)).2.2, if f.judges root r then tell r t else t) := by
  rw [on_siftNode, siftNodeBy, Steps.on_bind_ok (Steps.on_get _)]
  dsimp only
  rw [judges]
  cases hr : f.node? r with
  | none => rfl
  | some n =>
      rw [isEmpty_children hr]
      dsimp only
      cases hkeep : decide (r = root) || !n.children.isEmpty with
      | true => rfl
      | false =>
          rw [if_neg Bool.false_ne_true, Steps.on_bind, hask, logRemoval, removal, hr]
          cases filter.verdict f r with
          | error e => rfl
          | ok v =>
              obtain ⟨included, reason⟩ := v
              cases included <;> rfl

section

variable (hunfailing : filter.Unfailing) (hjudge : filter.ByAncestry)

include hunfailing in
theorem verdict_ok (f : Forest) (r : NodeRef) : ∃ v, filter.verdict f r = .ok v :=
  Filter.apply_ok filter fun rule hrule => hunfailing rule hrule f r

theorem includes_of_verdict {v : Verdict} (hv : filter.verdict f r = .ok v) :
    filter.includes (NodeRule.judge f r) = v.included := by
  have happly : filter.apply (NodeRule.judge f r) = .ok v := hv
  rw [Filter.includes, happly]
  rfl

include hunfailing in
/-- There is something to log about a node exactly when it is not included. -/
theorem removal_eq (hr : ∃ n, f.node? r = some n) :
    ∃ n v, f.node? r = some n ∧ filter.verdict f r = .ok v ∧
      f.removal filter r = if filter.includes (NodeRule.judge f r) then none
        else some (removalRecord n v) := by
  obtain ⟨n, hn⟩ := hr
  obtain ⟨v, hv⟩ := verdict_ok hunfailing f r
  refine ⟨n, v, hn, hv, ?_⟩
  rw [removal, hn, hv, includes_of_verdict hv]
  rfl

theorem removal_of_includes (h : filter.includes (NodeRule.judge f r) = true) :
    f.removal filter r = none := by
  rw [removal]
  cases f.node? r with
  | none => rfl
  | some n =>
      cases hv : filter.verdict f r with
      | error e => rfl
      | ok v =>
          rw [includes_of_verdict hv] at h
          exact if_pos h

include hunfailing hjudge

/-- The verdict on a node, and what is logged about it, hold while the way up from it does. -/
theorem removal_along {rest : List NodeRef} (hup : f.WayUp (r :: rest))
    (halong : f.Along g (r :: rest)) :
    filter.verdict g r = filter.verdict f r ∧ g.removal filter r = f.removal filter r := by
  have hverdict : filter.verdict g r = filter.verdict f r :=
    hjudge g f r r _ (HasAncestry.along hup halong) ⟨rest, hup, rfl⟩
  refine ⟨hverdict, ?_⟩
  obtain ⟨n, hn⟩ := Option.isSome_iff_exists.mp (hup.node (List.mem_cons_self ..))
  obtain ⟨n', hn'⟩ := Option.isSome_iff_exists.mp
    ((hup.along halong).node (List.mem_cons_self ..))
  have hid := map_id_of_bare? (halong.1 r)
  rw [hn, hn'] at hid
  rw [removal, removal, hn, hn', hverdict]
  obtain ⟨v, hv⟩ := verdict_ok hunfailing f r
  have hsame : removalRecord n' v = removalRecord n v := by
    rw [removalRecord, removalRecord, Option.some.inj hid]
  rw [hv]
  show (if v.included then none else some (removalRecord n' v)) = _
  rw [hsame]
  rfl

/-- **Sifting is a cull.** -/
theorem siftNode_culls (f : Forest) (root : NodeRef) :
    Culler f root (fun n => filter.includes (NodeRule.judge f n))
      (f.logRemoval filter) (siftNode filter root) where
  plucks := by
    rintro r ⟨g, j⟩
    rw [on_siftNode]
    split
    · cases filter.verdict g r with
      | error e => exact Or.inl rfl
      | ok v =>
          dsimp only
          split
          · exact Or.inl rfl
          · rw [on_uproot]
            cases g.detach r with
            | error e => exact Or.inl rfl
            | ok g' => exact Or.inr rfl
    · exact Or.inl rfl
  top := by
    intro g j
    rw [on_siftNode, if_neg (by simp [judges])]
  parent := by
    intro r g j hc
    rw [on_siftNode, if_neg (by simp [judges, hc])]
  kept := by
    intro r rest g j hr hup halong hc hpass
    obtain ⟨hverdict, -⟩ := removal_along hunfailing hjudge hup halong
    obtain ⟨n, v, -, hv, hlog⟩ := removal_eq hunfailing
      (Option.isSome_iff_exists.mp (hup.node (List.mem_cons_self ..)))
    have hjudged : g.judges root r = true := by
      simp [judges, hr, hc, (hup.along halong).node (List.mem_cons_self ..)]
    rw [includes_of_verdict hv] at hpass
    rw [includes_of_verdict hv, hpass, if_pos rfl] at hlog
    rw [on_siftNode, if_pos hjudged, hverdict, hv]
    dsimp only
    rw [if_pos hpass, logRemoval, hlog]
    rfl
  taken := by
    intro r rest g g' j hr hup halong hc hpass hdetach
    obtain ⟨hverdict, hremoval⟩ := removal_along hunfailing hjudge hup halong
    obtain ⟨v, hv⟩ := verdict_ok hunfailing f r
    have hjudged : g.judges root r = true := by
      simp [judges, hr, hc, (hup.along halong).node (List.mem_cons_self ..)]
    rw [includes_of_verdict hv] at hpass
    rw [on_siftNode, if_pos hjudged, hverdict, hv]
    dsimp only
    rw [hpass, if_neg Bool.false_ne_true, on_uproot, hdetach, logRemoval, hremoval, logRemoval]

/-- Sifting that notes what it asks about is a cull as well. -/
theorem siftNodeBy_culls (f : Forest) (root : NodeRef) :
    Culler f root (fun n => filter.includes (NodeRule.judge f n))
      (noteAsked (f.logRemoval filter)) (siftNodeBy (askNoting filter) root) := by
  have hplain := siftNode_culls hunfailing hjudge f root
  have hask : ∀ (f : Forest) (r : NodeRef) (g : Forest) (j : Journal) (asked : List NodeRef),
      (askNoting filter f r).on (g, j, asked) = (filter.verdict f r, g, j, asked ++ [r]) :=
    fun _ _ _ _ _ => rfl
  have hon := on_siftNodeBy hask
  refine ⟨?_, ?_, ?_, ?_, ?_⟩
  · rintro r ⟨g, j, asked⟩
    rw [hon]
    exact hplain.plucks r (g, j)
  · rintro g ⟨j, asked⟩
    rw [hon, hplain.top, if_neg (by simp [judges])]
  · rintro r g ⟨j, asked⟩ hc
    rw [hon, hplain.parent r g j hc, if_neg (by simp [judges, hc])]
  · rintro r rest g ⟨j, asked⟩ hr hup halong hc hpass
    have hjudged : g.judges root r = true := by
      simp [judges, hr, hc, (hup.along halong).node (List.mem_cons_self ..)]
    rw [hon, hplain.kept r rest g j hr hup halong hc hpass, if_pos hjudged]
    rfl
  · rintro r rest g g' ⟨j, asked⟩ hr hup halong hc hpass hdetach
    have hjudged : g.judges root r = true := by
      simp [judges, hr, hc, (hup.along halong).node (List.mem_cons_self ..)]
    rw [hon, hplain.taken r rest g g' j hr hup halong hc hpass hdetach, if_pos hjudged]
    rfl

end

/-! ## What was noted -/

theorem noted_logRemoval (filter : NodeFilter) (f : Forest) (rs : List NodeRef) (j : Journal) :
    noted (f.logRemoval filter) rs j = (rs.filterMap (f.removal filter)).foldl Journal.write j := by
  induction rs generalizing j with
  | nil => rfl
  | cons r rs ih =>
      show noted _ rs ((f.removal filter r).elim j j.write) = _
      rw [List.filterMap_cons]
      cases f.removal filter r with
      | none => exact ih j
      | some record => exact ih (j.write record)

theorem noted_noteAsked {note : NodeRef → Journal → Journal} (rs : List NodeRef) (j : Journal)
    (asked : List NodeRef) :
    noted (noteAsked note) rs (j, asked) = (noted note rs j, asked ++ rs) := by
  induction rs generalizing j asked with
  | nil =>
      rw [List.append_nil]
      rfl
  | cons r rs ih =>
      rw [List.append_cons asked r rs]
      exact ih (note r j) (asked ++ [r])

/-! ## What the trees tell beforehand -/

section

variable {roots : List NodeRef} {passes : NodeRef → Bool} (hf : f.Linked)
  (hroots : ∀ r ∈ roots, ∃ k, f.Deep k r) (hn : (roots.flatMap f.subtree).Nodup)

include hf hroots

theorem mapM_postOrder : roots.mapM f.postOrder
    = .ok (roots.map fun r => (f.below r).postOrder ++ [r]) := by
  induction roots with
  | nil => rfl
  | cons r roots ih =>
      obtain ⟨k, hk⟩ := hroots r (by simp)
      have hr : f.postOrder r = .ok ((f.below r).postOrder ++ [r]) :=
        (hf.hung_one hk).postOrder_eq reached_self
      rw [List.mapM_cons, hr, ih fun x hx => hroots x (by simp [hx])]
      rfl

theorem mem_subtree_of_mem_postOrder (hr : r ∈ roots) (hmem : n ∈ (f.below r).postOrder) :
    n ∈ f.subtree r ∧ n ≠ r := by
  obtain ⟨k, hk⟩ := hroots r hr
  have hhung := hf.hung_one hk
  rw [Grove.mem_postOrder] at hmem
  refine ⟨?_, fun e => (Grove.nodup_tree.mp (hhung.nodup_below reached_self)).1 (e ▸ hmem)⟩
  rw [hhung.subtree reached_self]
  exact List.mem_cons_of_mem r hmem

include hn

theorem nodup_postOrders : (f.postOrders roots).Nodup := by
  have hperm : (f.postOrders roots).Perm (roots.flatMap fun r => (f.below r).toList) :=
    List.Perm.flatMap_left roots fun r _ => (f.below r).perm_postOrder
  refine hperm.nodup_iff.mpr (hn.sublist ?_)
  have hparts : ∀ rs : List NodeRef, (∀ r ∈ rs, ∃ k, f.Deep k r) →
      (rs.flatMap fun r => (f.below r).toList).Sublist (rs.flatMap f.subtree) := by
    intro rs hrs
    induction rs with
    | nil => exact List.Sublist.slnil
    | cons r rs ih =>
        obtain ⟨k, hk⟩ := hrs r (by simp)
        rw [List.flatMap_cons, List.flatMap_cons, (hf.hung_one hk).subtree reached_self]
        exact ((List.sublist_cons_self ..).append (ih fun x hx => hrs x (by simp [hx])))
  exact hparts roots hroots

/-- The nodes that are not left, in post-order, are those that bear nothing. -/
theorem removed_eq : ((roots.map fun r => (f.below r).postOrder ++ [r]).flatten.filter fun n =>
      !decide (n ∈ roots.flatMap (f.cut (f.culled passes roots)).subtree))
    = (f.postOrders roots).filter fun n => !f.bears passes n := by
  have hwin : f.Winnowed (f.cut (f.culled passes roots)) roots passes := hf.winnowed hroots hn
  have hflat : (roots.map fun r => (f.below r).postOrder ++ [r]).flatten
      = roots.flatMap fun r => (f.below r).postOrder ++ [r] := rfl
  rw [hflat, postOrders, List.filter_flatMap, List.filter_flatMap]
  refine List.flatMap_congr fun r hr => ?_
  have hroot : r ∈ roots.flatMap (f.cut (f.culled passes roots)).subtree :=
    List.mem_flatMap.mpr ⟨r, hr, List.mem_cons_self ..⟩
  rw [List.filter_append, List.filter_cons, decide_eq_true hroot, Bool.not_true,
    if_neg Bool.false_ne_true, List.filter_nil, List.append_nil]
  refine List.filter_congr fun n hmem => ?_
  obtain ⟨hsub, hne⟩ := mem_subtree_of_mem_postOrder hf hroots hr hmem
  congr 1
  rw [Bool.eq_iff_iff, decide_eq_true_iff, bears, List.any_eq_true, ← hwin.attached r hr n hsub hne]
  constructor
  · intro h
    obtain ⟨s, hs, hns⟩ := List.mem_flatMap.mp h
    obtain rfl := eq_of_mem_subtrees hn hs hr ((hwin.order s hs).mem hns) hsub
    exact hns
  · exact fun h => List.mem_flatMap.mpr ⟨r, hr, h⟩

end

/-- The records about the nodes that are asked about are those about the nodes that go. -/
theorem filterMap_removal {roots : List NodeRef} (hunfailing : filter.Unfailing) (hf : f.Linked)
    (hroots : ∀ r ∈ roots, ∃ k, f.Deep k r) :
    ((f.postOrders roots).filter
        (f.bereft fun n => filter.includes (NodeRule.judge f n))).filterMap (f.removal filter)
      = ((f.postOrders roots).filter fun n =>
          !f.bears (fun n => filter.includes (NodeRule.judge f n)) n).filterMap
            (f.removal filter) := by
  rw [List.filterMap_filter, List.filterMap_filter]
  refine List.filterMap_congr fun n hmem => ?_
  obtain ⟨r, hr, hnr⟩ := List.mem_flatMap.mp hmem
  obtain ⟨k, hk⟩ := hroots r hr
  obtain ⟨j, hj⟩ :=
    hf.deep_of_mem_subtree hk (mem_subtree_of_mem_postOrder hf hroots hr hnr).1
  obtain ⟨m, v, -, -, hlog⟩ := removal_eq hunfailing hj.exists_node
  cases hbereft : f.bereft (fun n => filter.includes (NodeRule.judge f n)) n with
  | false =>
      rw [hf.bears_of_not_bereft hj hbereft]
      rfl
  | true =>
      rw [hf.bears_of_bereft hj hbereft, hlog]
      cases filter.includes (NodeRule.judge f n) <;> rfl

/-- Each node that is not included has its record. -/
theorem forall₂_removal (hunfailing : filter.Unfailing) {ns : List NodeRef}
    (hns : ∀ n ∈ ns, (∃ x, f.node? n = some x) ∧
      filter.includes (NodeRule.judge f n) = false) :
    List.Forall₂ (fun n record => ∃ x v, f.node? n = some x ∧ filter.verdict f n = .ok v ∧
      record = removalRecord x v) ns (ns.filterMap (f.removal filter)) := by
  induction ns with
  | nil => exact .nil
  | cons n ns ih =>
      obtain ⟨hnode, hout⟩ := hns n (by simp)
      obtain ⟨x, v, hx, hv, hlog⟩ := removal_eq hunfailing hnode
      rw [hout, if_neg Bool.false_ne_true] at hlog
      rw [List.filterMap_cons_some hlog]
      exact .cons ⟨x, v, hx, hv, rfl⟩ (ih fun m hm => hns m (by simp [hm]))

/-- What the cull notes in the journal: the nodes that go, in post-order, tree by tree. -/
theorem records_of_removed {roots : List NodeRef} (hunfailing : filter.Unfailing)
    (hf : f.Linked) (hroots : ∀ r ∈ roots, ∃ k, f.Deep k r)
    (hn : (roots.flatMap f.subtree).Nodup) (j : Journal) :
    ∃ posts records, roots.mapM f.postOrder = .ok posts ∧
      List.Forall₂ (fun n record => ∃ x v, f.node? n = some x ∧ filter.verdict f n = .ok v ∧
          record = removalRecord x v)
        (posts.flatten.filter fun n => !decide (n ∈ roots.flatMap
          (f.cut (f.culled (fun n => filter.includes (NodeRule.judge f n)) roots)).subtree))
        records ∧
      noted (f.logRemoval filter) ((f.postOrders roots).filter
          (f.bereft fun n => filter.includes (NodeRule.judge f n))) j
        = records.foldl Journal.write j := by
  refine ⟨_, _, mapM_postOrder hf hroots, ?_, noted_logRemoval filter f _ j⟩
  rw [filterMap_removal hunfailing hf hroots, removed_eq hf hroots hn]
  refine forall₂_removal hunfailing fun n hmem => ?_
  obtain ⟨hpost, hbare⟩ := List.mem_filter.mp hmem
  obtain ⟨r, hr, hnr⟩ := List.mem_flatMap.mp hpost
  obtain ⟨k, hk⟩ := hroots r hr
  obtain ⟨j, hj⟩ := hf.deep_of_mem_subtree hk (mem_subtree_of_mem_postOrder hf hroots hr hnr).1
  rw [Bool.not_eq_true', bears, List.any_eq_false] at hbare
  exact ⟨hj.exists_node, Bool.not_eq_true _ ▸ hbare n (List.mem_cons_self ..)⟩

end Forest

/-! ## A whole resolution -/

/-- Filters composed judge by ancestry when each of them does. -/
theorem compose_byAncestry {filters : List NodeFilter} {filter : NodeFilter}
    (h : ∀ part ∈ filters, part.ByAncestry)
    (hcompose : Filter.compose (filters.map some) = .ok filter) : filter.ByAncestry := by
  intro f g r s a hr hs
  have hparts : ∀ part ∈ filters,
      part.apply (NodeRule.judge f r) = part.apply (NodeRule.judge g s) :=
    fun part hpart => h part hpart f g r s a hr hs
  have hall : ∀ parts : List NodeFilter, (∀ part ∈ parts, part ∈ filters) →
      Filter.applyAll (NodeRule.judge f r) parts = Filter.applyAll (NodeRule.judge g s) parts := by
    intro parts
    induction parts with
    | nil => exact fun _ => by rw [Filter.applyAll, Filter.applyAll]
    | cons part parts ih =>
        intro hmem
        rw [Filter.applyAll, Filter.applyAll, hparts part (hmem part (by simp)),
          ih fun x hx => hmem x (by simp [hx])]
  rw [Filter.compose_some] at hcompose
  cases hcompose
  rcases filters with _ | ⟨first, _ | ⟨second, rest⟩⟩
  · rw [NodeFilter.verdict, NodeFilter.verdict, Filter.apply, Filter.apply]
  · exact hparts first (by simp)
  · rw [NodeFilter.verdict, NodeFilter.verdict, Filter.apply, Filter.apply]
    exact hall _ fun _ hmem => hmem

namespace Resolution

variable {κ ω ρ : Type} {filters : List NodeFilter} {r : Resolution κ} {w : World κ ω ρ}

/-- Sifting that notes what the filters are asked about. -/
def siftNoting (filters : List NodeFilter) (r : Resolution κ) :
    Steps (Forest × Journal × List NodeRef) Unit := do
  let filter ← Steps.ofExcept (Filter.compose (filters.map some))
  Forest.cullAll (Forest.siftNodeBy (Forest.askNoting filter)) (r.roots.map Prod.snd)

/-- What is done to the forest and the journal root by root is done to the world. -/
theorem on_forM_roots (c : NodeRef → Steps (Forest × Journal) Unit)
    (es : List (Engine κ × NodeRef)) (w : World κ ω ρ) :
    (es.forM fun e => Run.onForest (c e.2) : Run κ ω ρ Unit).on w
      = ((((es.map Prod.snd).forM c).on (w.forest, w.journal)).1, { w with
          forest := (((es.map Prod.snd).forM c).on (w.forest, w.journal)).2.1
          journal := (((es.map Prod.snd).forM c).on (w.forest, w.journal)).2.2 }) := by
  induction es generalizing w with
  | nil => rfl
  | cons e es ih =>
      show (Run.onForest (c e.2) >>= fun _ => es.forM fun e => Run.onForest (c e.2)).on w = _
      have hcons : ((e :: es).map Prod.snd).forM c
          = (c e.2 >>= fun _ => (es.map Prod.snd).forM c) := rfl
      rw [hcons, Steps.on_bind, Steps.on_bind, Run.onForest, Steps.on_within]
      rcases (c e.2).on (w.forest, w.journal) with ⟨result, f, j⟩
      cases result with
      | error fault => rfl
      | ok u => exact ih _

section

variable {filter : NodeFilter} (hcompose : Filter.compose (filters.map some) = .ok filter)

include hcompose

/-- Sifting a resolution culls the trees below its roots. -/
theorem on_sift (w : World κ ω ρ) :
    (sift filters r).on w
      = (((Forest.cullAll (Forest.siftNode filter) (r.roots.map Prod.snd)).on
            (w.forest, w.journal)).1, { w with
          forest := ((Forest.cullAll (Forest.siftNode filter) (r.roots.map Prod.snd)).on
            (w.forest, w.journal)).2.1
          journal := ((Forest.cullAll (Forest.siftNode filter) (r.roots.map Prod.snd)).on
            (w.forest, w.journal)).2.2 }) := by
  rw [sift, hcompose, Steps.on_bind_ok (Steps.on_ofExcept _ w)]
  exact on_forM_roots (fun root => Forest.sift filter root) r.roots w

theorem siftNoting_eq : siftNoting filters r
    = Forest.cullAll (Forest.siftNodeBy (Forest.askNoting filter)) (r.roots.map Prod.snd) := by
  rw [siftNoting, hcompose]
  rfl

end

/-- **What sifting does to a resolution.**  Let the engines' roots head trees of their own in a
    forest whose links agree, and let the filters not fail and judge nodes by their ancestry.
    Then sifting ends, and a node below a root stays exactly when some node of its subtree is
    included by the filters composed, all of them as they were before; everything that stays has
    the place it had, and the roots stay in any case.  One line is logged for each node that
    goes, in post-order, tree by tree.  No node is judged twice, and sifting once more changes
    nothing.

    The trees must not overlap: one that was gone through twice would be judged twice. -/
theorem sift_winnows (hlinked : w.forest.Linked)
    (hup : ∀ e ∈ r.roots, ∃ k, w.forest.Deep k e.2)
    (hapart : ((r.roots.map Prod.snd).flatMap w.forest.subtree).Nodup)
    (hunfailing : ∀ filter ∈ filters, filter.Unfailing)
    (hjudge : ∀ filter ∈ filters, filter.ByAncestry) :
    ∃ (filter : NodeFilter) (after : Forest) (journal : Journal),
      Filter.compose (filters.map some) = .ok filter ∧
      (sift filters r).on w = (.ok (), { w with forest := after, journal := journal }) ∧
      w.forest.Winnowed after (r.roots.map Prod.snd)
        (fun n => filter.includes (NodeRule.judge w.forest n)) ∧
      (∃ posts records, (r.roots.map Prod.snd).mapM w.forest.postOrder = .ok posts ∧
        List.Forall₂ (fun n record => ∃ x v, w.forest.node? n = some x ∧
            filter.verdict w.forest n = .ok v ∧ record = Forest.removalRecord x v)
          (posts.flatten.filter fun n =>
            !decide (n ∈ (r.roots.map Prod.snd).flatMap after.subtree)) records ∧
        journal = records.foldl Journal.write w.journal) ∧
      (∃ asked, (siftNoting filters r).on (w.forest, w.journal, [])
          = (.ok (), after, journal, asked) ∧ asked.Nodup) ∧
      (sift filters r).on { w with forest := after, journal := journal }
        = (.ok (), { w with forest := after, journal := journal }) := by
  obtain ⟨filter, hcompose⟩ : ∃ filter : NodeFilter,
      Filter.compose (filters.map some) = .ok filter := ⟨_, Filter.compose_some filters⟩
  have hunf := compose_unfailing hunfailing hcompose
  have hby := compose_byAncestry hjudge hcompose
  have hsift := fun w' : World κ ω ρ => on_sift (r := r) hcompose w'
  have hnoted := congrArg (Steps.on · (w.forest, w.journal, [])) (siftNoting_eq (r := r) hcompose)
  have hroots : ∀ x ∈ r.roots.map Prod.snd, ∃ k, w.forest.Deep k x := by
    intro x hx
    obtain ⟨e, he, rfl⟩ := List.mem_map.mp hx
    exact hup e he
  generalize r.roots.map Prod.snd = roots at hapart hsift hnoted hroots ⊢
  have hcull := fun x (_ : x ∈ roots) => Forest.siftNode_culls hunf hby w.forest x
  have hfirst := Forest.Culler.on_trees hlinked hroots hapart hcull w.journal
  have hagain := fun j => Forest.Culler.on_trees_again hlinked hroots hapart hcull
    (fun x j h => by rw [Forest.logRemoval, Forest.removal_of_includes h]; rfl) j
  have hasked := Forest.Culler.on_trees hlinked hroots hapart
    (fun x _ => Forest.siftNodeBy_culls hunf hby w.forest x) (w.journal, [])
  rw [Forest.noted_noteAsked, List.nil_append] at hasked
  refine ⟨filter, _, Forest.noted (w.forest.logRemoval filter) ((w.forest.postOrders roots).filter
      (w.forest.bereft fun n => filter.includes (NodeRule.judge w.forest n))) w.journal,
    hcompose, ?_, hlinked.winnowed hroots hapart,
    Forest.records_of_removed hunf hlinked hroots hapart w.journal, ?_, ?_⟩
  · rw [hsift, hfirst]
  · exact ⟨_, hnoted.trans hasked, (Forest.nodup_postOrders hlinked hroots hapart).filter _⟩
  · rw [hsift, hagain]

/-- The sample of a tree with a filter by a tag that only the test carries. -/
theorem sift_winnows_thicket :
    let fast : NodeFilter := .rule (.tags ⟨StringSet.ofList ["fast"], .including⟩)
    let r : Resolution Unit :=
      { roots := [(⟨"e", fun _ _ => return some ⟨0⟩, fun _ _ => .done ()⟩, ⟨0⟩)] }
    let w : World Unit Unit Unit :=
      { forest := Forest.thicket, engines := (), listeners := (), resolver := () }
    (w.forest.Linked ∧ (∀ e ∈ r.roots, ∃ k, w.forest.Deep k e.2) ∧
      ((r.roots.map Prod.snd).flatMap w.forest.subtree).Nodup ∧
      fast.Unfailing ∧ fast.ByAncestry) ∧
    ∃ after journal,
      (sift [fast] r).on w = (.ok (), { w with forest := after, journal := journal }) ∧
      after.subtree ⟨0⟩ = [⟨0⟩, ⟨3⟩, ⟨4⟩] ∧
      (sift [fast] r).on { w with forest := after, journal := journal }
        = (.ok (), { w with forest := after, journal := journal }) := by
  intro fast r w
  have hown : fast.Standard := by simp [fast, NodeFilter.Standard, Filter.leaves]
  have hfast : fast.Unfailing ∧ fast.ByAncestry := ⟨hown.unfailing, hown.byLineage.byAncestry⟩
  have hroots : ∀ e ∈ r.roots, ∃ k, w.forest.Deep k e.2 :=
    fun e he => ⟨0, List.mem_singleton.mp he ▸ Forest.deep_thicket⟩
  have hapart : ((r.roots.map Prod.snd).flatMap w.forest.subtree).Nodup := by decide +kernel
  have hunfailing : ∀ part ∈ [fast], part.Unfailing :=
    fun part hpart => List.mem_singleton.mp hpart ▸ hfast.1
  have hjudge : ∀ part ∈ [fast], part.ByAncestry :=
    fun part hpart => List.mem_singleton.mp hpart ▸ hfast.2
  obtain ⟨filter, after, journal, -, hsift, -, -, -, hagain⟩ :=
    sift_winnows (w := w) (r := r) Forest.linked_thicket hroots hapart hunfailing hjudge
  have hleft : ((sift [fast] r).on w).2.forest.subtree ⟨0⟩ = [⟨0⟩, ⟨3⟩, ⟨4⟩] := by decide +kernel
  rw [hsift] at hleft
  exact ⟨⟨Forest.linked_thicket, hroots, hapart, hfast⟩, after, journal, hsift, hleft, hagain⟩

end Resolution

end TestLauncher
