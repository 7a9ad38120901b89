import TestLauncher.UniqueId

/-! # What the text of an id tells

    The written form of an id does not always read back, but it tells the last value from
    the type of its segment and what stands before it: ids made alike with different values
    have different texts (`value_of_root`, `value_of_append`), and the root of an engine's
    tree never has the text of a suite's (`render_engine_ne_suite`).  Ids can be put below a
    segment; this makes their texts longer and leaves their ends as they are (`beneath`). -/

namespace TestLauncher

/-- Segments of one type that are written alike have one value. -/
theorem Segment.value_of_chars {s t : Segment} (ht : s.type = t.type) (h : s.chars = t.chars) :
    s.value = t.value := by
  rw [chars, chars, ht] at h
  have hvalue := List.append_cancel_left (List.append_cancel_right h)
  injection hvalue with _ hvalue
  exact String.toList_inj.mp hvalue

/-- A type without reserved characters and a value make a segment if neither is blank. -/
theorem Segment.make_ok {type value : String} (ht : Text.isBlank type = false)
    (hp : type.toList.any isReserved = false) (hv : Text.isBlank value = false) :
    ∃ s, make type value = .ok s := by
  rw [make, dif_pos ht, dif_pos hp, dif_pos hv]
  exact ⟨_, rfl⟩

namespace UniqueId

variable {u v a b : UniqueId} {type value value' : String}

/-- The last segment is written after a slash. -/
theorem charsOf_append {ss : List Segment} (hss : ss ≠ []) (t : Segment) :
    charsOf (ss ++ [t]) = charsOf ss ++ '/' :: t.chars := by
  induction ss with
  | nil => exact absurd rfl hss
  | cons s ss ih =>
      cases ss with
      | nil => rfl
      | cons s' ss =>
          show s.chars ++ '/' :: charsOf (s' :: ss ++ [t]) = _
          rw [ih (List.cons_ne_nil s' ss), charsOf, List.append_assoc]
          rfl

/-- The first segment is written before a slash. -/
theorem charsOf_cons {ss : List Segment} (hss : ss ≠ []) (t : Segment) :
    charsOf (t :: ss) = t.chars ++ '/' :: charsOf ss := by
  cases ss with
  | nil => exact absurd rfl hss
  | cons s ss => rfl

/-- A written id begins with a bracket. -/
theorem exists_charsOf {ss : List Segment} (hss : ss ≠ []) : ∃ cs, charsOf ss = '[' :: cs := by
  cases ss with
  | nil => exact absurd rfl hss
  | cons s ss =>
      cases ss with
      | nil => exact ⟨_, rfl⟩
      | cons s' ss => exact ⟨_, rfl⟩

/-- A written id is not blank. -/
theorem isBlank_render (u : UniqueId) : Text.isBlank u.render = false := by
  obtain ⟨cs, hcs⟩ := exists_charsOf u.nonempty
  rw [Text.isBlank, render, String.toList_ofList, hcs]
  simp [show Text.isBlankChar '[' = false by decide]

/-- A root id is a single segment. -/
theorem root_eq_ok (h : root type value = .ok u) :
    ∃ s, u = single s ∧ s.type = type ∧ s.value = value := by
  rw [root] at h
  cases hs : Segment.make type value with
  | error e =>
      rw [hs] at h
      cases h
  | ok s =>
      rw [hs] at h
      cases h
      exact ⟨s, rfl, Segment.type_of_make hs⟩

/-- A root id is written in one pair of brackets. -/
theorem render_of_root (h : root type value = .ok u) :
    u.render = "[" ++ type ++ ":" ++ value ++ "]" := by
  obtain ⟨s, rfl, rfl, rfl⟩ := root_eq_ok h
  refine String.toList_inj.mp ?_
  simp [render, single, charsOf, Segment.chars]

/-- A root id has the type it was made with. -/
theorem last_type_of_root (h : root type value = .ok u) : u.last.type = type := by
  obtain ⟨s, rfl, hs, -⟩ := root_eq_ok h
  exact hs

/-- An appended segment is the last. -/
theorem append_eq_ok (h : u.append type value = .ok v) :
    ∃ s, v = u.push s ∧ s.type = type ∧ s.value = value := by
  rw [append] at h
  cases hs : Segment.make type value with
  | error e =>
      rw [hs] at h
      cases h
  | ok s =>
      rw [hs] at h
      cases h
      exact ⟨s, rfl, Segment.type_of_make hs⟩

/-- Ids of one segment of a given type read differently when their values differ. -/
theorem value_of_root (hu : root type value = .ok u) (hv : root type value' = .ok v)
    (h : u.render = v.render) : value = value' := by
  obtain ⟨s, rfl, hs, rfl⟩ := root_eq_ok hu
  obtain ⟨t, rfl, ht, rfl⟩ := root_eq_ok hv
  exact Segment.value_of_chars (hs.trans ht.symm) (String.ofList_injective h)

/-- And so do ids below others that read the same. -/
theorem value_of_append (ha : u.append type value = .ok a) (hb : v.append type value' = .ok b)
    (huv : u.render = v.render) (h : a.render = b.render) : value = value' := by
  obtain ⟨s, rfl, hs, rfl⟩ := append_eq_ok ha
  obtain ⟨t, rfl, ht, rfl⟩ := append_eq_ok hb
  have hchars : charsOf u.segments = charsOf v.segments := String.ofList_injective huv
  have hall : charsOf (u.segments ++ [s]) = charsOf (v.segments ++ [t]) :=
    String.ofList_injective h
  rw [charsOf_append u.nonempty, charsOf_append v.nonempty, hchars] at hall
  have hlast := List.append_cancel_left hall
  injection hlast with _ hlast
  exact Segment.value_of_chars (hs.trans ht.symm) hlast

/-- The id of an engine's root never reads as that of a suite. -/
theorem render_engine_ne_suite (hu : forEngine value = .ok u)
    (hv : root Segment.suiteType value' = .ok v) : u.render ≠ v.render := by
  intro h
  obtain ⟨s, rfl, hs, -⟩ := root_eq_ok hu
  obtain ⟨t, rfl, ht, -⟩ := root_eq_ok hv
  have hchars : s.chars = t.chars := String.ofList_injective h
  rw [Segment.chars, Segment.chars, hs, ht] at hchars
  have htypes : Segment.engineType.toList = ['e', 'n', 'g', 'i', 'n', 'e'] ∧
      Segment.suiteType.toList = ['s', 'u', 'i', 't', 'e'] := by decide
  rw [htypes.1, htypes.2] at hchars
  injection hchars with _ hchars
  injection hchars with hfirst
  exact absurd hfirst (by decide)

/-! ## Longer ids -/

/-- The id below a segment, if there is one. -/
def beneath (top : Option Segment) (u : UniqueId) : UniqueId :=
  ⟨top.toList ++ u.segments, List.append_ne_nil_of_right_ne_nil _ u.nonempty⟩

variable {top : Option Segment}

/-- Ids below a segment differ when the ids do. -/
theorem beneath_injective (top : Option Segment) : Function.Injective (beneath top) := by
  intro u v h
  exact ext_iff.mpr (List.append_cancel_left (ext_iff.mp h))

theorem beneath_none (u : UniqueId) : u.beneath none = u := rfl

/-- An id below a segment ends as it did. -/
theorem last_beneath (u : UniqueId) : (u.beneath top).last = u.last :=
  List.getLast_append_right u.nonempty

/-- A segment may be pushed before or after the id is put below another. -/
theorem push_beneath (u : UniqueId) (s : Segment) :
    (u.beneath top).push s = (u.push s).beneath top :=
  ext_iff.mpr (List.append_assoc ..)

/-- Appending below a segment gives the appended id below it, or the same fault. -/
theorem append_beneath (u : UniqueId) (type value : String) :
    (u.beneath top).append type value = (u.append type value).map (beneath top) := by
  rw [append, append]
  cases Segment.make type value with
  | error e => rfl
  | ok s => exact congrArg Except.ok (u.push_beneath s)

theorem render_single (s : Segment) : (single s).render = s.render := rfl

/-- An id below a segment is written after it. -/
theorem render_beneath (s : Segment) (u : UniqueId) :
    (u.beneath (some s)).render = s.render ++ "/" ++ u.render := by
  refine String.toList_inj.mp ?_
  simp only [render, Segment.render, String.toList_append, String.toList_ofList, List.append_assoc]
  exact charsOf_cons u.nonempty s

end UniqueId

end TestLauncher
