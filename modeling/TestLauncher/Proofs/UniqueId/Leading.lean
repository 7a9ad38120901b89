import TestLauncher.Proofs.UniqueId.Reading

/-! # Ids that lead others

    One id leads another when its segments are the first ones of the other.  The written
    forms tell this only where segments can be told apart: the text of an id may well begin
    with that of another and a slash, as a value may hold both.  With the bracket that opens
    the next segment it takes more, since a value that goes on with `]/[` is just what ids
    whose segments can be told apart do not have.  For these, an id leads a longer one exactly
    when its text followed by `/[` begins the text of the other
    (`Separable.render_prefix_iff`). -/

namespace TestLauncher.UniqueId

variable {u v : UniqueId} {ps : List (List Char)} {ss ts : List Segment}

instance : DecidablePred Separable := fun u =>
  inferInstanceAs (Decidable (∀ s ∈ u.segments, Whole s.value))

/-- What is joined from pieces is cut into them again, also when the text goes on. -/
theorem pieces_intercalate_append (hne : ps ≠ []) (hps : ∀ p ∈ ps, ¬ delimiter <:+: p)
    (rest : List Char) :
    pieces (delimiter.intercalate ps ++ delimiter ++ rest) = ps ++ pieces rest := by
  induction ps with
  | nil => exact absurd rfl hne
  | cons p ps ih =>
      obtain ⟨hp, hps⟩ := List.forall_mem_cons.mp hps
      cases ps with
      | nil =>
          rw [List.intercalate_singleton]
          exact pieces_append_delimiter hp rest
      | cons q ps =>
          rw [List.intercalate_cons_cons, List.append_assoc, List.append_assoc,
            pieces_append_delimiter hp, ← List.append_assoc, ih (List.cons_ne_nil q ps) hps]
          rfl

theorem charsOf_append_append (hss : ss ≠ []) (hts : ts ≠ []) :
    charsOf (ss ++ ts) = charsOf ss ++ '/' :: charsOf ts := by
  induction ss with
  | nil => exact absurd rfl hss
  | cons s ss ih =>
      cases ss with
      | nil => exact charsOf_cons hts s
      | cons s' ss =>
          have hrest := ih (List.cons_ne_nil s' ss)
          rw [List.cons_append, charsOf_cons (by simp), hrest,
            charsOf_cons (List.cons_ne_nil s' ss), List.append_assoc]
          rfl

theorem toList_render (u : UniqueId) : u.render.toList = charsOf u.segments :=
  String.toList_ofList

/-- Segments added to an id are written behind it. -/
theorem render_prefix_of_segments (hts : ts ≠ []) (h : v.segments ++ ts = u.segments) :
    (v.render ++ "/[").toList <+: u.render.toList := by
  obtain ⟨cs, hcs⟩ := exists_charsOf hts
  refine ⟨cs, ?_⟩
  rw [String.toList_append, toList_render, toList_render, ← h,
    charsOf_append_append v.nonempty hts, hcs, List.append_assoc]
  rfl

/-- **A text goes on** after that of an id with the bracket of one more segment when its id goes on
    after that id, if segments can be told apart. -/
theorem Separable.render_prefix_iff (hu : u.Separable) (hv : v.Separable) :
    (v.render ++ "/[").toList <+: u.render.toList ↔ v.segments <+: u.segments ∧ v ≠ u := by
  constructor
  · intro h
    rw [String.toList_append, toList_render, toList_render, charsOf_eq v.nonempty,
      charsOf_eq u.nonempty] at h
    have hstart : delimiter.intercalate (v.segments.map Segment.inner) ++ delimiter
        <+: delimiter.intercalate (u.segments.map Segment.inner) ++ [']'] := by
      simpa [delimiter] using h
    -- the last character is another bracket, so the text goes on before it
    have hinner : delimiter.intercalate (v.segments.map Segment.inner) ++ delimiter
        <+: delimiter.intercalate (u.segments.map Segment.inner) := by
      refine (List.prefix_concat_iff.mp hstart).resolve_left fun hall => ?_
      have hlast := congrArg List.getLast? hall
      simp [delimiter] at hlast
    obtain ⟨rest, hrest⟩ := hinner
    have hcut := pieces_intercalate (by simpa using u.nonempty) hu.not_delimiter_infix
    rw [← hrest, pieces_intercalate_append (by simpa using v.nonempty) hv.not_delimiter_infix]
      at hcut
    have hlead : v.segments.map Segment.inner <+: u.segments.map Segment.inner := ⟨_, hcut⟩
    refine ⟨(List.prefix_map_iff_of_injective Segment.inner_injective).mp hlead, ?_⟩
    rintro rfl
    exact pieces_ne_nil rest (List.self_eq_append_right.mp hcut.symm)
  · rintro ⟨⟨ts, hts⟩, hne⟩
    refine render_prefix_of_segments ?_ hts
    rintro rfl
    exact hne (ext_iff.mpr (by rw [← hts, List.append_nil]))

/-- **Texts lead as ids do.**  An id whose segments can be told apart leads another one exactly when
    the two read the same, or the text of the other goes on after it with a slash and a bracket. -/
theorem Separable.hasPrefix_iff_render (hu : u.Separable) (hv : v.Separable) :
    u.hasPrefix v = true ↔
      u.render = v.render ∨ (v.render ++ "/[").toList <+: u.render.toList := by
  rw [hasPrefix_iff, hu.render_prefix_iff hv]
  constructor
  · intro hlead
    by_cases hsame : v = u
    · exact Or.inl (congrArg render hsame.symm)
    · exact Or.inr ⟨hlead, hsame⟩
  · rintro (hsame | ⟨hlead, -⟩)
    · rw [hu.eq_of_render hv hsame]
    · exact hlead

end TestLauncher.UniqueId
