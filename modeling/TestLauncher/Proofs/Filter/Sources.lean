import TestLauncher.Proofs.Forest.Cycles
import TestLauncher.Proofs.Forest.Lockstep
import TestLauncher.Proofs.UniqueId
import TestLauncher.Resolution

/-! # The source of a node below the root of an engine's tree

    A rule about classes or modules judges a node by the source of the node or of the nearest
    node above it, below the root of the engine's tree.  Where that root is, it tells by the
    type of the last segment of an id, and the id of a node below the root may end in a
    segment of such a type as well.  There the way up ends too early: when the first source
    on the way is further up, or that of this node itself, none is found, and the node passes
    (`judged_below_root`).  The sources of the root and of what is above it, such as a suite,
    never count. -/

namespace TestLauncher

/-- The source of a node, if it has one that is not empty. -/
def Node.sourced (x : Node) : Option String := x.source.filter (· ≠ "")

/-- What rules about sources say to a node without one. -/
def Node.sourceless (x : Node) : Verdict := ⟨true, some ("'" ++ x.name ++ "' has no source")⟩

namespace Forest

variable {f g : Forest} {root r p z n : NodeRef} {x y : Node} {xs : List Node}
  {suite? : Option UniqueId} {engineId : String} {s? : Option String}

/-- A rule about classes or modules judges a node by a source, or lets it through without one. -/
structure JudgedBy (f : Forest) (n : NodeRef) (x : Node) (s? : Option String) : Prop where
  classNames : ∀ rule : PatternRule,
    (NodeRule.classNames rule).judge f n = .ok (s?.elim x.sourceless (rule.judge "Class "))
  modules : ∀ rule : ModuleRule,
    (NodeRule.modules rule).judge f n = .ok (s?.elim x.sourceless rule.judge)

/-- A rule about classes judges a node by its source, or lets it through without one. -/
theorem judge_classNames (hn : f.node? n = some x) (rule : PatternRule) :
    (NodeRule.classNames rule).judge f n
      = .ok ((f.sourceName n).elim x.sourceless (rule.judge "Class ")) := by
  simp only [NodeRule.judge, hn, NodeRule.judgeSource]
  cases f.sourceName n <;> rfl

/-- So does a rule about modules. -/
theorem judge_modules (hn : f.node? n = some x) (rule : ModuleRule) :
    (NodeRule.modules rule).judge f n
      = .ok ((f.sourceName n).elim x.sourceless rule.judge) := by
  simp only [NodeRule.judge, hn, NodeRule.judgeSource]
  cases f.sourceName n <;> rfl

/-- Rules about sources judge a node by the source that is found for it. -/
theorem judgedBy_sourceName (hn : f.node? n = some x) : f.JudgedBy n x (f.sourceName n) where
  classNames := judge_classNames hn
  modules := judge_modules hn

/-! ## The way up to below the root -/

/-- The nodes from one up to a child of another. -/
inductive UpTo (f : Forest) (root : NodeRef) : NodeRef → List Node → Prop where
  | child {r : NodeRef} {x : Node} (hr : f.node? r = some x) (hp : x.parent = some root) :
      UpTo f root r [x]
  | step {r p : NodeRef} {x : Node} {xs : List Node} (hr : f.node? r = some x)
      (hp : x.parent = some p) (h : UpTo f root p xs) : UpTo f root r (x :: xs)

/-- From a node below another there is a way up to its child. -/
theorem exists_upTo (h : f.Above n root) : ∃ x xs, f.UpTo root n (x :: xs) := by
  induction h using Relation.TransGen.head_induction_on with
  | single hp =>
      obtain ⟨x, hx, hp⟩ := Option.bind_eq_some_iff.mp hp
      exact ⟨x, [], .child hx hp⟩
  | head hp _ ih =>
      obtain ⟨x, hx, hp⟩ := Option.bind_eq_some_iff.mp hp
      obtain ⟨y, ys, hup⟩ := ih
      exact ⟨x, y :: ys, .step hx hp hup⟩

/-- The way up begins with the node. -/
theorem UpTo.node (h : f.UpTo root n (x :: xs)) : f.node? n = some x := by
  cases h with
  | child hr _ => exact hr
  | step hr _ _ => exact hr

/-- The first node of a lineage gives the source if it has one, and ends the search if it looks like
    a root. -/
theorem sourceOf_cons :
    sourceOf (x :: xs) = if x.id.last.isRoot then none else x.sourced.or (sourceOf xs) := by
  rw [sourceOf, Node.sourced]
  cases x.source.filter (· ≠ "") <;> rfl

/-- A root is asked for its own source no more than for those above it. -/
theorem sourceFrom_root (h : (f.id? root).any fun id => id.last.isRoot) (k : Nat) :
    f.sourceFrom k root = none := by
  cases k with
  | zero => rfl
  | succ k =>
      obtain ⟨id, hid, hroot⟩ := Option.any_eq_true _ _ |>.mp h
      obtain ⟨y, hy, rfl⟩ := Option.map_eq_some_iff.mp hid
      rw [sourceFrom_succ hy, if_pos hroot]

/-- However far it may go, the way up ends at the root. -/
theorem UpTo.sourceFrom (h : f.UpTo root n xs)
    (hroot : (f.id? root).any fun id => id.last.isRoot) (k : Nat) :
    f.sourceFrom (xs.length + k) n = sourceOf xs := by
  induction h with
  | @child r x hr hp =>
      rw [List.length_singleton, Nat.add_comm, sourceFrom_succ hr, hp, Option.bind_some,
        sourceFrom_root hroot, sourceOf_cons]
      rfl
  | @step r p x xs hr hp _ ih =>
      rw [List.length_cons, Nat.add_right_comm, sourceFrom_succ hr, hp, Option.bind_some, ih,
        sourceOf_cons]
      rfl

/-- The source that is found is the one of the way up. -/
theorem UpTo.sourceName (h : f.UpTo root n xs)
    (hroot : (f.id? root).any fun id => id.last.isRoot) : f.sourceName n = sourceOf xs := by
  refine Option.ext fun s => ?_
  rw [sourceName_eq_some_iff]
  constructor
  · rintro ⟨k, hk⟩
    rw [← h.sourceFrom hroot k]
    exact sourceFrom_of_le (Nat.le_add_left k _) hk
  · intro hs
    exact ⟨_, (h.sourceFrom hroot 0).trans hs⟩

/-! ## Where the way up ends too early -/

/-- One of some nodes going up looks like a root by its id, and the first source is its own or
    further up. -/
def CutsOff (xs : List Node) : Prop :=
  ∃ before y after, xs = before ++ y :: after ∧ y.id.last.isRoot = true ∧
    (∀ b ∈ before, b.sourced = none) ∧ ∃ b ∈ y :: after, b.sourced ≠ none

/-- Where the search is cut off there is a source further up. -/
theorem CutsOff.findSome?_ne (h : CutsOff xs) : xs.findSome? Node.sourced ≠ none := by
  obtain ⟨before, y, after, rfl, -, -, b, hb, hsource⟩ := h
  intro hnone
  exact hsource (List.findSome?_eq_none_iff.mp hnone b (List.mem_append_right before hb))

/-- Where the search is cut off no source is found. -/
theorem CutsOff.sourceOf (h : CutsOff xs) : sourceOf xs = none := by
  obtain ⟨before, y, after, rfl, hroot, hbefore, -⟩ := h
  induction before with
  | nil => rw [List.nil_append, sourceOf_cons, if_pos hroot]
  | cons b before ih =>
      rw [List.forall_mem_cons] at hbefore
      rw [List.cons_append, sourceOf_cons, hbefore.1, ih hbefore.2]
      split <;> rfl

/-- Where it is not cut off the first source is found. -/
theorem sourceOf_eq (h : ¬ CutsOff xs) : sourceOf xs = xs.findSome? Node.sourced := by
  induction xs with
  | nil => rfl
  | cons x xs ih =>
      rw [sourceOf_cons, List.findSome?_cons]
      by_cases hroot : x.id.last.isRoot = true
      · -- nothing further up has a source, or the way up would be cut off
        rw [if_pos hroot]
        symm
        rw [← List.findSome?_cons, List.findSome?_eq_none_iff]
        intro b hb
        by_contra hsource
        exact h ⟨[], x, xs, rfl, hroot, nofun, b, hb, hsource⟩
      · rw [if_neg hroot]
        cases hx : x.sourced with
        | some s => rfl
        | none =>
            rw [Option.none_or]
            refine ih ?_
            rintro ⟨before, y, after, rfl, hy, hbefore, hsource⟩
            exact h ⟨x :: before, y, after, rfl, hy, List.forall_mem_cons.mpr ⟨hx, hbefore⟩,
              hsource⟩

/-! ## Trees with the ids that engines are to give -/

/-- The tree of an engine, by its ids: that of the root is the one that the engine was given,
    and that of any other node the one of its parent with one more segment. -/
structure EngineTree (f : Forest) (suite? : Option UniqueId) (engineId : String)
    (root : NodeRef) : Prop where
  given : ∃ id, Resolution.rootId suite? engineId = .ok id ∧ f.id? root = some id
  pushed : ∀ p c, f.AtOrAbove p root → f.parent? c = some p →
    ∃ id s, f.id? p = some id ∧ f.id? c = some (id.push s)

/-- The source of a node is another. -/
def resourced (f : Forest) (z : NodeRef) (s? : Option String) : Forest :=
  f.modify z fun x => { x with source := s? }

/-- Another source leaves the ids alone. -/
theorem id?_resourced : (f.resourced z s?).id? r = f.id? r := id?_modify fun _ => rfl

namespace EngineTree

variable (h : f.EngineTree suite? engineId root)

include h

/-- The root of an engine's tree looks like a root. -/
theorem isRoot : (f.id? root).any fun id => id.last.isRoot := by
  obtain ⟨id, hid, hroot⟩ := h.given
  have htype : id.last.type = Segment.engineType := by
    cases suite? with
    | none => exact UniqueId.last_type_of_root hid
    | some u =>
        obtain ⟨s, rfl, hs, -⟩ := UniqueId.append_eq_ok hid
        rw [UniqueId.last_push, hs]
  rw [hroot]
  exact decide_eq_true (Or.inl htype)

/-- Going down, ids get longer. -/
theorem longer (hr : f.Above r root) : ∃ u v, f.id? root = some u ∧ f.id? r = some v ∧
    u.segments.length < v.segments.length := by
  induction hr using Relation.TransGen.head_induction_on with
  | single hp =>
      obtain ⟨u, s, hu, hv⟩ := h.pushed _ _ .refl hp
      exact ⟨u, u.push s, hu, hv, by simp⟩
  | head hp hrest ih =>
      obtain ⟨u, v, hu, hv, hlt⟩ := ih
      obtain ⟨v', s, hv', hw⟩ := h.pushed _ _ hrest.to_reflTransGen hp
      rw [hv] at hv'
      cases hv'
      refine ⟨u, v.push s, hu, hw, ?_⟩
      rw [UniqueId.segments_push, List.length_append]
      omega

/-- So the root is not above itself, and what is above it is no part of the tree. -/
theorem ne_of_above (hr : f.Above r root) (hz : f.AtOrAbove root z) : r ≠ z := by
  rintro rfl
  obtain ⟨u, v, hu, hv, hlt⟩ := h.longer (Relation.TransGen.trans_right hz hr)
  rw [hu] at hv
  cases hv
  omega

end EngineTree

/-! ## What a node is judged by -/

/-- Another source for a node that is not below the root leaves the way up as it is. -/
theorem UpTo.resourced (hup : f.UpTo root n xs) (hz : ∀ r, f.Above r root → r ≠ z) :
    (f.resourced z s?).UpTo root n xs := by
  have hsame : ∀ {r : NodeRef} {x : Node}, f.node? r = some x → f.Above r root →
      (f.resourced z s?).node? r = some x := by
    intro r x hr habove
    rw [Forest.resourced, node?_modify, if_neg (Ne.symm (hz r habove)), hr]
  have habove : ∀ {r : NodeRef} {xs : List Node}, f.UpTo root r xs → f.Above r root := by
    intro r xs h
    induction h with
    | child hr hp => exact .single ((parent?_of_node? hr).trans hp)
    | step hr hp _ ih => exact .head ((parent?_of_node? hr).trans hp) ih
  induction hup with
  | child hr hp => exact .child (hsame hr (habove (.child hr hp))) hp
  | step hr hp hup ih => exact .step (hsame hr (habove (.step hr hp hup))) hp ih

/-- **What a node below the root of an engine's tree is judged by** is the first source on the way
    up from it, short of the root, and it passes when there is none; and it passes as well when
    a node on the way cuts the source off.  The sources of the root and of what is above it do
    not matter. -/
theorem judged_below_root (htree : f.EngineTree suite? engineId root) (hn : f.Above n root) :
    (∃ x xs, f.UpTo root n (x :: xs)) ∧
    ∀ x xs, f.UpTo root n (x :: xs) →
      (¬ CutsOff (x :: xs) → f.JudgedBy n x ((x :: xs).findSome? Node.sourced)) ∧
      (CutsOff (x :: xs) → (x :: xs).findSome? Node.sourced ≠ none ∧ f.JudgedBy n x none) ∧
      ∀ z s? t?, f.AtOrAbove root z → f.JudgedBy n x t? → (f.resourced z s?).JudgedBy n x t? := by
  refine ⟨exists_upTo hn, fun x xs hup => ?_⟩
  have hnode := hup.node
  have hjudged := judgedBy_sourceName hnode
  have hname := hup.sourceName htree.isRoot
  refine ⟨fun h => ?_, fun h => ⟨h.findSome?_ne, ?_⟩, ?_⟩
  · rwa [hname, sourceOf_eq h] at hjudged
  · rwa [hname, h.sourceOf] at hjudged
  · intro z s? t? hz ht
    have hup' : (f.resourced z s?).UpTo root n (x :: xs) :=
      hup.resourced fun r hr => htree.ne_of_above hr hz
    have hroot : ((f.resourced z s?).id? root).any fun id => id.last.isRoot := by
      rw [id?_resourced]
      exact htree.isRoot
    have hsame : (f.resourced z s?).sourceName n = f.sourceName n :=
      (hup'.sourceName hroot).trans hname.symm
    constructor
    · intro rule
      rw [judge_classNames hup'.node, hsame, ← judge_classNames hnode]
      exact ht.classNames rule
    · intro rule
      rw [judge_modules hup'.node, hsame, ← judge_modules hnode]
      exact ht.modules rule

/-- A tree with a node whose id ends as that of a suite, and a test below it. -/
def innerSuite : Forest :=
  let id (parts : List (String × String)) : Option UniqueId :=
    (UniqueId.forEngine "E" >>= parts.foldlM fun id part => id.append part.1 part.2).toOption
  Edit.outcome [
    .build (id []) "E" .container ∅ none,
    .build (id [("suite", "S")]) "S" .container ∅ (some "a.B"), .addChild ⟨0⟩ (some ⟨1⟩),
    .build (id [("suite", "S"), ("test", "t")]) "t" .test ∅ none, .addChild ⟨1⟩ (some ⟨2⟩)]

/-- The tree with the inner suite is one that an engine may build. -/
theorem engineTree_innerSuite : innerSuite.EngineTree none "E" ⟨0⟩ where
  given := by
    have hok : (UniqueId.forEngine "E").isOk = true := by decide +kernel
    have hroot : innerSuite.id? ⟨0⟩ = (UniqueId.forEngine "E").toOption := by decide +kernel
    cases hid : UniqueId.forEngine "E" with
    | error fault =>
        rw [hid] at hok
        cases hok
    | ok id =>
        rw [hid] at hroot
        exact ⟨id, hid, hroot⟩
  pushed := by
    intro p c _ hp
    have hall : (List.range innerSuite.size).all (fun i => (innerSuite.parent? ⟨i⟩).all fun p =>
        (innerSuite.id? p).any fun u => (innerSuite.id? ⟨i⟩).any fun v => v = u.push v.last)
        = true := by decide +kernel
    obtain ⟨x, hx, -⟩ := Option.bind_eq_some_iff.mp hp
    have hlt := (innerSuite.node?_isSome_iff c).mp (by rw [hx]; rfl)
    have hchecked := List.all_eq_true.mp hall c.index (List.mem_range.mpr hlt)
    rw [hp, Option.all_some, Option.any_eq_true] at hchecked
    obtain ⟨u, hu, hpushed⟩ := hchecked
    obtain ⟨v, hv, hpushed⟩ := (Option.any_eq_true ..).mp hpushed
    exact ⟨u, v.last, hu, hv.trans (congrArg some (of_decide_eq_true hpushed))⟩

/-- The source of the inner node is the first on the way up from the test, and the test passes a
    rule that excludes it. -/
theorem judged_below_root_innerSuite :
    (innerSuite.EngineTree none "E" ⟨0⟩ ∧ innerSuite.Above ⟨2⟩ ⟨0⟩) ∧
    ∃ x y, innerSuite.UpTo ⟨0⟩ ⟨2⟩ [x, y] ∧ CutsOff [x, y] ∧
      [x, y].findSome? Node.sourced = some "a.B" ∧ innerSuite.JudgedBy ⟨2⟩ x none := by
  have hone : (innerSuite.node? ⟨1⟩).any (fun y => y.parent = some ⟨0⟩ ∧
      y.id.last.isRoot = true ∧ y.sourced = some "a.B") = true := by decide +kernel
  have htwo : (innerSuite.node? ⟨2⟩).any (fun x => x.parent = some ⟨1⟩ ∧ x.sourced = none)
      = true := by decide +kernel
  obtain ⟨y, hy, hdecide⟩ := (Option.any_eq_true ..).mp hone
  obtain ⟨hyp, hyroot, hysource⟩ := of_decide_eq_true hdecide
  obtain ⟨x, hx, hdecide⟩ := (Option.any_eq_true ..).mp htwo
  obtain ⟨hxp, hxsource⟩ := of_decide_eq_true hdecide
  have habove : innerSuite.Above ⟨2⟩ ⟨0⟩ :=
    .head ((parent?_of_node? hx).trans hxp) (.single ((parent?_of_node? hy).trans hyp))
  have hup : innerSuite.UpTo ⟨0⟩ ⟨2⟩ [x, y] := .step hx hxp (.child hy hyp)
  have hcut : CutsOff [x, y] := by
    refine ⟨[x], y, [], rfl, hyroot, List.forall_mem_singleton.mpr hxsource, y, ?_, ?_⟩
    · exact List.mem_singleton.mpr rfl
    · rw [hysource]
      exact nofun
  obtain ⟨-, hjudged⟩ := judged_below_root engineTree_innerSuite habove
  refine ⟨⟨engineTree_innerSuite, habove⟩, x, y, hup, hcut, ?_, ((hjudged x [y] hup).2.1 hcut).2⟩
  rw [List.findSome?_cons, hxsource, List.findSome?_cons, hysource]

end Forest

end TestLauncher
