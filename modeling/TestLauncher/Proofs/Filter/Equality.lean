import Mathlib.Data.Fintype.EquivFin
import TestLauncher.Filter.Engine
import TestLauncher.Proofs.Filter.Lineage
import TestLauncher.Proofs.Filter.Opposition
import TestLauncher.Proofs.Forest.Links

/-! # Equal filters

    Filters on ids and on tags are compared by their modes and by the sets of what they
    list.  The lists they were written with may differ: in order, in what is said twice or
    not at all, in white space.  These are the differences that leave the set alone, and no
    other does (`restates_iff`).  And the sets are just what shows in the answers, for
    whatever one set has and the other has not there is an id, or a node with that one tag,
    which the filters disagree about.  Between modes it is an id that neither lists, or a node
    without tags.  So filters are equal exactly when they include the same
    (`Filter.equal_iff_alike`). -/

namespace TestLauncher

variable {v w : List (Option String)} {m m' : Mode}

/-! ## Lists that say the same -/

/-- Lists of values that differ in their order, in values said again, absent or blank, and in the
    white space around values. -/
inductive Restates : List (Option String) → List (Option String) → Prop where
  | refl (v : List (Option String)) : Restates v v
  | symm {v w : List (Option String)} (h : Restates v w) : Restates w v
  | trans {u v w : List (Option String)} (h : Restates u v) (h' : Restates v w) : Restates u w
  | cons (x : Option String) {v w : List (Option String)} (h : Restates v w) :
      Restates (x :: v) (x :: w)
  | swap (x y : Option String) (v : List (Option String)) : Restates (x :: y :: v) (y :: x :: v)
  | again (x : Option String) (v : List (Option String)) : Restates (x :: x :: v) (x :: v)
  | absent (v : List (Option String)) : Restates (none :: v) v
  | blank {s : String} (hs : Text.isBlank s = true) (v : List (Option String)) :
      Restates (some s :: v) v
  | padded {front back : String} (hfront : Text.isBlank front = true)
      (hback : Text.isBlank back = true) (s : String) (v : List (Option String)) :
      Restates (some (front ++ s ++ back) :: v) (some s :: v)

theorem cleaned_none (v : List (Option String)) : cleaned (none :: v) = cleaned v := rfl

/-- A blank value is left out. -/
theorem cleaned_blank {s : String} (hs : Text.isBlank s = true) (v : List (Option String)) :
    cleaned (some s :: v) = cleaned v := by
  simp [cleaned, hs]

/-- White space around a value is left out. -/
theorem cleaned_some {s : String} (hs : Text.isBlank s = false) (v : List (Option String)) :
    cleaned (some s :: v) = Text.trim s :: cleaned v := by
  simp [cleaned, hs]

namespace Restates

/-- What remains when a list is cleaned is the same in another that says the same. -/
theorem mem_cleaned_iff (h : Restates v w) (t : String) : t ∈ cleaned v ↔ t ∈ cleaned w := by
  -- each value adds to what remains on its own
  obtain ⟨adds, hcons⟩ : ∃ adds : Option String → Prop, ∀ x v,
      t ∈ cleaned (x :: v) ↔ adds x ∨ t ∈ cleaned v := by
    refine ⟨fun x => t ∈ cleaned [x], fun x v => ?_⟩
    rw [← List.mem_append, cleaned, cleaned, cleaned, ← List.filterMap_append]
    rfl
  induction h with
  | refl v => exact Iff.rfl
  | symm _ ih => exact ih.symm
  | trans _ _ ih ih' => exact ih.trans ih'
  | cons x _ ih => rw [hcons, hcons, ih]
  | swap x y v => rw [hcons, hcons, hcons, hcons, or_left_comm]
  | again x v => rw [hcons, hcons, or_self_left]
  | absent v => rw [cleaned_none]
  | blank hs v => rw [cleaned_blank hs]
  | @padded front back hfront hback s v =>
      have hblank : Text.isBlank (front ++ s ++ back) = Text.isBlank s := by
        rw [Text.isBlank_append, Text.isBlank_append, hfront, hback, Bool.true_and, Bool.and_true]
      cases hs : Text.isBlank s with
      | true =>
          rw [hs] at hblank
          rw [cleaned_blank hs, cleaned_blank hblank]
      | false =>
          rw [hs] at hblank
          rw [cleaned_some hs, cleaned_some hblank, Text.trim_append hfront hback]

/-- A list in another order says the same. -/
theorem of_perm (h : v.Perm w) : Restates v w := by
  induction h with
  | nil => exact refl []
  | cons x _ ih => exact cons x ih
  | swap x y v => exact swap y x v
  | trans _ _ ih ih' => exact ih.trans ih'

/-- A value that is there need not be said again. -/
theorem of_mem {x : Option String} (hx : x ∈ v) : Restates (x :: v) v := by
  have hperm := List.perm_cons_erase hx
  have htwice := of_perm (hperm.cons x)
  exact (htwice.trans (again x (v.erase x))).trans (of_perm hperm.symm)

/-- Values said again change nothing. -/
theorem append_of_subset (h : ∀ x ∈ v, x ∈ w) : Restates (v ++ w) w := by
  induction v with
  | nil => exact refl w
  | cons x v ih =>
      obtain ⟨hx, hv⟩ := List.forall_mem_cons.mp h
      exact (of_mem (List.mem_append_right v hx)).trans (ih hv)

/-- Lists with the same values say the same. -/
theorem of_mem_iff (h : ∀ x, x ∈ v ↔ x ∈ w) : Restates v w := by
  have hvw := append_of_subset fun x hx => (h x).mp hx
  have hwv := append_of_subset fun x hx => (h x).mpr hx
  exact (hwv.symm.trans (of_perm List.perm_append_comm)).trans hvw

/-- A list says what remains of it when it is cleaned. -/
theorem cleaned (v : List (Option String)) :
    Restates v ((TestLauncher.cleaned v).map some) := by
  induction v with
  | nil => exact refl []
  | cons x v ih =>
      cases x with
      | none => exact (absent v).trans ih
      | some s =>
          cases hs : Text.isBlank s with
          | true =>
              rw [cleaned_blank hs]
              exact (blank hs v).trans ih
          | false =>
              obtain ⟨front, back, hfront, hback, hpad⟩ := Text.exists_append_trim s
              have htrim := padded hfront hback (Text.trim s) v
              rw [← hpad] at htrim
              rw [cleaned_some hs]
              exact htrim.trans (ih.cons _)

end Restates

/-- **Lists say the same** exactly when the same remains of both. -/
theorem restates_iff : Restates v w ↔ ∀ t, t ∈ cleaned v ↔ t ∈ cleaned w := by
  refine ⟨Restates.mem_cleaned_iff, fun h => ?_⟩
  have hsome : Restates ((cleaned v).map some) ((cleaned w).map some) := by
    refine Restates.of_mem_iff fun x => ?_
    cases x with
    | none => simp
    | some t => simpa using h t
  exact ((Restates.cleaned v).trans hsome).trans (Restates.cleaned w).symm

/-- Lists make one set when they have the same members. -/
theorem StringSet.ofList_eq_iff {l k : List String} :
    ofList l = ofList k ↔ ∀ t, t ∈ l ↔ t ∈ k := by
  constructor
  · intro h t
    rw [← mem_ofList, h, mem_ofList]
  · intro h
    exact ext_mem fun t => by rw [mem_ofList, mem_ofList, h]

/-- What remains of two lists makes the same set exactly when they say the same. -/
theorem ofList_cleaned_eq_iff :
    StringSet.ofList (cleaned v) = StringSet.ofList (cleaned w) ↔ Restates v w :=
  StringSet.ofList_eq_iff.trans restates_iff.symm

/-- Lists that say the same are empty together. -/
theorem Restates.cleaned_eq_nil_iff (h : Restates v w) :
    TestLauncher.cleaned v = [] ↔ TestLauncher.cleaned w = [] := by
  rw [List.eq_nil_iff_forall_not_mem, List.eq_nil_iff_forall_not_mem]
  exact forall_congr' fun t => not_congr (h.mem_cleaned_iff t)

/-! ## Filters on ids -/

namespace EngineIdRule

variable {r s : EngineIdRule}

/-- A rule on engine ids holds the cleaned ids, of which there must be one. -/
theorem make_eq (m : Mode) (v : List (Option String)) :
    make m v = if cleaned v = [] then refuse .noEngineIds
      else .ok ⟨StringSet.ofList (cleaned v), m⟩ := by
  rw [make]
  cases cleaned v <;> rfl

/-- A rule that is made holds the cleaned ids. -/
theorem make_eq_ok (h : make m v = .ok r) : r = ⟨StringSet.ofList (cleaned v), m⟩ := by
  rw [make_eq] at h
  split at h
  · cases h
  · cases h
    rfl

/-- A rule on engine ids includes the listed ids or the others, by its mode. -/
theorem included_judge (r : EngineIdRule) (id : String) :
    (r.judge id).included = (decide (id ∈ r.ids) == r.mode.isIncluding) := rfl

/-- Rules that include the same ids are the same. -/
theorem eq_of_included (h : ∀ id, (r.judge id).included = (s.judge id).included) : r = s := by
  obtain ⟨ids, mode⟩ := r
  obtain ⟨ids', mode'⟩ := s
  by_cases hmode : mode = mode'
  · subst hmode
    have hids : ids = ids' := by
      refine StringSet.ext_mem fun id => ?_
      have hid := h id
      rw [included_judge, included_judge] at hid
      cases mode <;> simpa [Mode.isIncluding] using hid
    rw [hids]
  · -- an id that neither of them lists is included by one and excluded by the other
    obtain ⟨id, hid⟩ := Infinite.exists_notMem_finset (ids.toList ++ ids'.toList).toFinset
    rw [List.mem_toFinset, List.mem_append, not_or] at hid
    have hfirst : ¬ id ∈ ids := hid.1
    have hsecond : ¬ id ∈ ids' := hid.2
    have hid := h id
    rw [included_judge, included_judge] at hid
    cases mode <;> cases mode' <;> simp [Mode.isIncluding, hfirst, hsecond] at hid hmode

end EngineIdRule

/-! ## Filters on tags -/

namespace TagRule

variable {r s : TagRule}

/-- A rule on tags holds the cleaned tags, of which there must be one. -/
theorem make_eq (m : Mode) (v : List (Option String)) :
    make m v = if cleaned v = [] then refuse .noTags
      else .ok ⟨StringSet.ofList (cleaned v), m⟩ := by
  rw [make]
  cases cleaned v <;> rfl

/-- A rule on tags includes what carries a listed tag or what carries none, by its mode. -/
theorem included_judge (r : TagRule) (tags : StringSet) :
    (r.judge tags).included = (tags.intersects r.tags == r.mode.isIncluding) := rfl

/-- Rules that include the same sets of tags are the same: sets of one tag tell what is listed, and
    the empty set tells the mode. -/
theorem eq_of_included (h : ∀ tags, (r.judge tags).included = (s.judge tags).included) : r = s := by
  obtain ⟨listed, mode⟩ := r
  obtain ⟨listed', mode'⟩ := s
  have hmode : mode = mode' := by
    have hempty := h ∅
    rw [included_judge, included_judge] at hempty
    have hnone : ∀ ts : StringSet, StringSet.intersects ∅ ts = false := fun ts => rfl
    simp only [hnone] at hempty
    cases mode <;> cases mode' <;> first | rfl | cases hempty
  subst hmode
  have hlisted : listed = listed' := by
    refine StringSet.ext_mem fun t => ?_
    have hone : ∀ ts, (StringSet.ofList [t]).intersects ts = true ↔ t ∈ ts := by
      intro ts
      simp [StringSet.intersects_iff]
    have ht := h (StringSet.ofList [t])
    rw [included_judge, included_judge] at ht
    rw [← hone, ← hone]
    cases mode <;> simpa [Mode.isIncluding] using ht
  rw [hlisted]

/-- Any set of tags is that of a node that can be built. -/
theorem exists_node_tagged (tags : StringSet) :
    ∃ edits x n, (Forest.Edit.outcome edits).node? x = some n ∧ n.tags = tags := by
  let id : UniqueId := UniqueId.single ⟨"engine", "e", by decide, by decide, by decide⟩
  let n : Node := { id, name := "e", kind := .test, tags }
  have hmake : Node.make (some id) "e" .test tags none = .ok n := by
    rw [Node.make, if_neg (by decide)]
  refine ⟨[.build (some id) "e" .test tags none], ⟨0⟩, n, ?_, rfl⟩
  rw [Forest.Edit.outcome, List.foldl_cons, Forest.Edit.perform, hmake]
  rfl

end TagRule

/-! ## Comparing -/

namespace Filter

/-- Single rules are compared as rules. -/
theorem same_rule {ρ : Type} (eq : ρ → ρ → Bool) (a b : ρ) :
    (rule a).same eq (rule b) = eq a b := by
  rw [same]

/-- A single rule judges as a filter does. -/
theorem apply_rule {ρ : Type} (judge : ρ → Except Fault Verdict) (a : ρ) :
    (rule a).apply judge = judge a := by
  rw [apply]

/-- A filter of engine ids includes an engine when its rule does. -/
theorem includes_ids (r : EngineIdRule) (id : String) :
    (rule (.ids r)).includes (EngineRule.judge id) = (r.judge id).included := by
  rw [includes, apply_rule]
  rfl

/-- A filter of tags includes a node when its rule does. -/
theorem includes_tags (r : TagRule) {f : Forest} {x : NodeRef} {n : Node}
    (hn : f.node? x = some n) :
    (rule (.tags r)).includes (NodeRule.judge f x) = (r.judge n.tags).included := by
  rw [includes, apply_rule]
  simp only [NodeRule.judge, hn]
  rfl

/-- **Filters are equal exactly when they include the same.**  Two filters on ids made from lists of
    values compare as equal if and only if they include the same ids, and two filters on tags if and
    only if they include the same of all nodes that can be built.  This is so if and only if they
    have one mode and the lists say the same; then one list is accepted as the other is, and the
    filters give the same reasons as well. -/
theorem equal_iff_alike :
    (∀ r s, EngineIdRule.make m v = .ok r → EngineIdRule.make m' w = .ok s →
      let f : EngineFilter := rule (.ids r)
      let g : EngineFilter := rule (.ids s)
      (f.same EngineRule.same g = true ↔
        ∀ id, f.includes (EngineRule.judge id) = g.includes (EngineRule.judge id)) ∧
      (f.same EngineRule.same g = true ↔ m = m' ∧ Restates v w) ∧
      (f.same EngineRule.same g = true → ∀ id, f.verdict id = g.verdict id)) ∧
    (∀ r s, TagRule.make m v = .ok r → TagRule.make m' w = .ok s →
      let f : NodeFilter := rule (.tags r)
      let g : NodeFilter := rule (.tags s)
      (f.same NodeRule.same g = true ↔ ∀ edits x,
        f.includes (NodeRule.judge (Forest.Edit.outcome edits) x)
          = g.includes (NodeRule.judge (Forest.Edit.outcome edits) x)) ∧
      (f.same NodeRule.same g = true ↔ m = m' ∧ Restates v w) ∧
      (f.same NodeRule.same g = true → ∀ forest x, f.verdict forest x = g.verdict forest x)) ∧
    (Restates v w → EngineIdRule.make m v = EngineIdRule.make m w ∧
      TagRule.make m v = TagRule.make m w) := by
  refine ⟨?_, ?_, ?_⟩
  · intro r s hr hs f g
    have hsame : f.same EngineRule.same g = true ↔ r = s := by
      rw [same_rule]
      exact decide_eq_true_iff
    rw [hsame]
    refine ⟨⟨?_, ?_⟩, ?_, ?_⟩
    · rintro rfl id
      rfl
    · intro h
      refine EngineIdRule.eq_of_included fun id => ?_
      rw [← includes_ids, ← includes_ids]
      exact h id
    · rw [EngineIdRule.make_eq_ok hr, EngineIdRule.make_eq_ok hs, EngineIdRule.mk.injEq,
        ofList_cleaned_eq_iff, and_comm]
    · rintro rfl id
      rfl
  · intro r s hr hs f g
    have hsame : f.same NodeRule.same g = true ↔ r = s := by
      rw [same_rule]
      exact decide_eq_true_iff
    rw [hsame]
    refine ⟨⟨?_, ?_⟩, ?_, ?_⟩
    · rintro rfl edits x
      rfl
    · intro h
      refine TagRule.eq_of_included fun tags => ?_
      obtain ⟨edits, x, n, hn, rfl⟩ := TagRule.exists_node_tagged tags
      rw [← includes_tags r hn, ← includes_tags s hn]
      exact h edits x
    · rw [TagRule.make_eq_ok hr, TagRule.make_eq_ok hs, TagRule.mk.injEq,
        ofList_cleaned_eq_iff, and_comm]
    · rintro rfl forest x
      rfl
  · intro h
    have hset := ofList_cleaned_eq_iff.mpr h
    rw [EngineIdRule.make_eq, EngineIdRule.make_eq, TagRule.make_eq, TagRule.make_eq, hset]
    simp only [h.cleaned_eq_nil_iff]
    exact ⟨trivial, trivial⟩

/-- Two names with white space, an absent value and one said again, and the two names in the other
    order.  Both lists make the same filter on ids, which answers alike everywhere; the filter on
    tags that includes what the first one lists and the one that excludes what the second one lists
    disagree about some node. -/
theorem equal_iff_alike_untidy :
    let untidy := [some " alpha ", none, some "beta", some "alpha"]
    let tidy := [some "beta", some "\t", some "alpha"]
    (∃ r s, EngineIdRule.make .including untidy = .ok r ∧
      EngineIdRule.make .including tidy = .ok s ∧
      ∀ id, EngineFilter.verdict (rule (.ids r)) id = EngineFilter.verdict (rule (.ids s)) id) ∧
    ∃ r s, TagRule.make .including untidy = .ok r ∧ TagRule.make .excluding tidy = .ok s ∧
      ∃ edits x, (rule (.tags r)).includes (NodeRule.judge (Forest.Edit.outcome edits) x)
        ≠ (rule (.tags s)).includes (NodeRule.judge (Forest.Edit.outcome edits) x) := by
  intro untidy tidy
  have hfirst : cleaned untidy = ["alpha", "beta", "alpha"] := by decide +kernel
  have hsecond : cleaned tidy = ["beta", "alpha"] := by decide +kernel
  have hsay : Restates untidy tidy := by
    rw [restates_iff, hfirst, hsecond]
    simp [or_comm]
  have hids : ∀ v, cleaned v ≠ [] → EngineIdRule.make .including v
      = .ok ⟨StringSet.ofList (cleaned v), .including⟩ := fun v hv => by
    rw [EngineIdRule.make_eq, if_neg hv]
  have htags : ∀ m v, cleaned v ≠ [] → TagRule.make m v
      = .ok ⟨StringSet.ofList (cleaned v), m⟩ := fun m v hv => by
    rw [TagRule.make_eq, if_neg hv]
  have huntidy : cleaned untidy ≠ [] := by simp [hfirst]
  have htidy : cleaned tidy ≠ [] := by simp [hsecond]
  refine ⟨⟨_, _, hids _ huntidy, hids _ htidy, ?_⟩, ⟨_, _, htags _ _ huntidy, htags _ _ htidy, ?_⟩⟩
  · obtain ⟨-, hsame, hverdict⟩ :=
      equal_iff_alike.1 _ _ (hids _ huntidy) (hids _ htidy)
    exact hverdict (hsame.mpr ⟨rfl, hsay⟩)
  · obtain ⟨hincludes, hsame, -⟩ :=
      equal_iff_alike.2.1 _ _ (htags .including _ huntidy) (htags .excluding _ htidy)
    have hmode : ¬ (Mode.including = .excluding ∧ Restates untidy tidy) := by simp
    obtain ⟨edits, hedits⟩ := not_forall.mp (mt (hsame.mp ∘ hincludes.mpr) hmode)
    obtain ⟨x, hx⟩ := not_forall.mp hedits
    exact ⟨edits, x, hx⟩

end Filter

end TestLauncher
