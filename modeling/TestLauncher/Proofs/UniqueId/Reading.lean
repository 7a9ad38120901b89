import Mathlib.Data.List.Infix
import Mathlib.Data.List.TakeWhile
import TestLauncher.Proofs.UniqueId

/-! # Reading an id back

    Nothing is escaped in the written form of an id, so reading has to find the boundaries
    between segments again.  It cuts the text at every `]/[`.  A cut never falls across
    the end of a segment, since no proper beginning of `]/[` is also an end of it
    (`pieces_append_delimiter`), and what lies between two cuts is a type up to the first
    colon and a value after it (`splitPiece?_eq_some_iff`).  So reading is the inverse of
    writing on the ids whose values hold neither `]/[` nor a line break, and refuses every
    text that none of them is written as (`parse_inverts_render`). -/

namespace TestLauncher

namespace Segment

/-- The characters of a written segment between its brackets. -/
def inner (s : Segment) : List Char := s.type.toList ++ ':' :: s.value.toList

/-- A written segment is its inner part in brackets. -/
theorem chars_eq (s : Segment) : s.chars = '[' :: s.inner ++ [']'] := by
  simp [chars, inner]

/-- The type of a segment holds no reserved character. -/
theorem not_isReserved_of_mem {s : Segment} {c : Char} (hc : c ∈ s.type.toList) :
    isReserved c = false := by
  have hplain := s.type_plain
  rw [List.any_eq_false] at hplain
  exact Bool.eq_false_iff.mpr (hplain c hc)

/-- The type of a segment is not empty. -/
theorem type_ne_nil (s : Segment) : s.type.toList ≠ [] := by
  intro hnil
  have hblank := s.type_not_blank
  rw [Text.isBlank, hnil] at hblank
  exact absurd hblank (by decide)

/-- The type is what stands before the first reserved character. -/
theorem takeWhile_inner (s : Segment) :
    s.inner.takeWhile (fun c => !isReserved c) = s.type.toList := by
  have hall : ∀ c ∈ s.type.toList, (!isReserved c) = true := by
    intro c hc
    rw [not_isReserved_of_mem hc]
    rfl
  rw [inner, List.takeWhile_append_of_pos hall, List.takeWhile_cons_of_neg (by decide),
    List.append_nil]

/-- A segment is told by what stands between its brackets. -/
theorem inner_injective : Function.Injective inner := by
  intro s t h
  have htype : s.type = t.type := by
    refine String.toList_inj.mp ?_
    rw [← takeWhile_inner s, ← takeWhile_inner t, h]
  rw [inner, inner, htype] at h
  injection List.append_cancel_left h with _ hvalue
  exact ext_iff.mpr ⟨htype, String.toList_inj.mp hvalue⟩

end Segment

namespace UniqueId

variable {u v : UniqueId} {c : Char} {p cs rest : List Char} {ps : List (List Char)}
variable {ss : List Segment} {text : String}

/-- The characters that part two segments, with the bracket before and after. -/
def delimiter : List Char := [']', '/', '[']

/-- Ids that are written so that they can be read back: no value holds a line break or the
characters that part two segments. -/
def Expressible (u : UniqueId) : Prop :=
  ∀ s ∈ u.segments, '\n' ∉ s.value.toList ∧ ¬ delimiter <:+: s.value.toList

instance : DecidablePred Expressible := fun u =>
  inferInstanceAs (Decidable (∀ s ∈ u.segments,
    '\n' ∉ s.value.toList ∧ ¬ delimiter <:+: s.value.toList))

/-! ## Cutting and joining -/

theorem pieces_delimiter (rest : List Char) :
    pieces (delimiter ++ rest) = [] :: pieces rest := rfl

/-- There is always a piece. -/
theorem pieces_ne_nil (cs : List Char) : pieces cs ≠ [] := by
  fun_induction pieces cs <;> simp

/-- A character that does not begin a delimiter belongs to the first piece. -/
theorem pieces_cons (hc : ¬ delimiter <+: c :: rest) (hrest : pieces rest = p :: ps) :
    pieces (c :: rest) = (c :: p) :: ps := by
  rw [pieces]
  · rw [hrest]
  · rintro rest' rfl hcut
    refine hc ⟨rest', ?_⟩
    rw [hcut]
    rfl

/-- What is cut can be joined again. -/
theorem intercalate_pieces (cs : List Char) : delimiter.intercalate (pieces cs) = cs := by
  fun_induction pieces cs with
  | case1 rest ih =>
      obtain ⟨p, ps, hps⟩ := List.exists_cons_of_ne_nil (pieces_ne_nil rest)
      rw [hps] at ih ⊢
      rw [List.intercalate_cons_cons, ih]
      rfl
  | case2 => rfl
  | case3 c rest _ hnil => exact absurd hnil (pieces_ne_nil rest)
  | case4 c rest _ p ps hps ih =>
      rw [hps] at ih
      cases ps with
      | nil =>
          rw [List.intercalate_singleton] at ih ⊢
          rw [ih]
      | cons q ps =>
          rw [List.intercalate_cons_cons] at ih ⊢
          rw [← ih, List.cons_append, List.cons_append]

/-- No piece holds the characters at which the text was cut. -/
theorem not_delimiter_infix_of_mem_pieces (hp : p ∈ pieces cs) : ¬ delimiter <:+: p := by
  fun_induction pieces cs generalizing p with
  | case1 rest ih =>
      rcases List.mem_cons.mp hp with rfl | hp
      · decide
      · exact ih hp
  | case2 =>
      rw [List.mem_singleton.mp hp]
      decide
  | case3 c rest _ hnil => exact absurd hnil (pieces_ne_nil rest)
  | case4 c rest hcut q qs hqs ih =>
      rw [hqs] at ih
      rcases List.mem_cons.mp hp with rfl | hp
      · rw [List.infix_cons_iff]
        rintro (⟨more, hmore⟩ | hinfix)
        · -- The piece begins the text, so the text would have been cut right here.
          have hq : delimiter.intercalate (q :: qs) = rest := by
            rw [← hqs, intercalate_pieces]
          have hlead : q <+: rest := by
            rw [← hq]
            cases qs with
            | nil =>
                rw [List.intercalate_singleton]
            | cons q' qs =>
                rw [List.intercalate_cons_cons, List.append_assoc]
                exact List.prefix_append _ _
          obtain ⟨after, rfl⟩ := hlead
          have hstart : delimiter ++ (more ++ after) = c :: (q ++ after) := by
            rw [← List.append_assoc, hmore, List.cons_append]
          injection hstart with hc hq'
          exact hcut (more ++ after) hc.symm hq'.symm
        · exact ih (List.mem_cons_self ..) hinfix
      · exact ih (List.mem_cons_of_mem _ hp)

/-- A cut never falls across the end of a piece. -/
theorem pieces_append_delimiter (hp : ¬ delimiter <:+: p) (rest : List Char) :
    pieces (p ++ delimiter ++ rest) = p :: pieces rest := by
  induction p with
  | nil => exact pieces_delimiter rest
  | cons c p ih =>
      rw [List.infix_cons_iff, not_or] at hp
      obtain ⟨hstart, hlater⟩ := hp
      refine pieces_cons ?_ (ih hlater)
      rintro ⟨more, hmore⟩
      -- A cut here would have its second or third character at the start of the delimiter.
      cases p with
      | nil => simp [delimiter] at hmore
      | cons c' p =>
          cases p with
          | nil => simp [delimiter] at hmore
          | cons c'' p =>
              simp only [delimiter, List.cons_append, List.nil_append, List.cons.injEq] at hmore
              obtain ⟨rfl, rfl, rfl, -⟩ := hmore
              exact hstart ⟨p, rfl⟩

/-- Characters without a delimiter are one piece. -/
theorem pieces_self (hp : ¬ delimiter <:+: p) : pieces p = [p] := by
  induction p with
  | nil => rfl
  | cons c p ih =>
      rw [List.infix_cons_iff, not_or] at hp
      exact pieces_cons hp.1 (ih hp.2)

/-- What is joined from pieces is cut into them again. -/
theorem pieces_intercalate (hne : ps ≠ []) (hps : ∀ p ∈ ps, ¬ delimiter <:+: p) :
    pieces (delimiter.intercalate ps) = ps := by
  induction ps with
  | nil => exact absurd rfl hne
  | cons p ps ih =>
      have hp := hps p (List.mem_cons_self ..)
      cases ps with
      | nil =>
          rw [List.intercalate_singleton]
          exact pieces_self hp
      | cons q ps =>
          rw [List.intercalate_cons_cons, pieces_append_delimiter hp,
            ih (List.cons_ne_nil q ps) fun p' hp' => hps p' (List.mem_cons_of_mem p hp')]

/-- The written form is the insides of the segments, joined and put between brackets. -/
theorem charsOf_eq (hss : ss ≠ []) :
    charsOf ss = '[' :: delimiter.intercalate (ss.map Segment.inner) ++ [']'] := by
  induction ss with
  | nil => exact absurd rfl hss
  | cons s ss ih =>
      cases ss with
      | nil => rw [charsOf, Segment.chars_eq, List.map_singleton, List.intercalate_singleton]
      | cons t ss =>
          rw [charsOf, ih (List.cons_ne_nil t ss), Segment.chars_eq, List.map_cons, List.map_cons,
            List.map_cons, List.intercalate_cons_cons]
          simp [delimiter]

/-- The inside of a segment holds the delimiter only where its value does. -/
theorem delimiter_infix_inner_iff (s : Segment) :
    delimiter <:+: s.inner ↔ delimiter <:+: s.value.toList := by
  have hskip : ∀ {c : Char} {cs : List Char}, c ≠ ']' →
      (delimiter <:+: c :: cs ↔ delimiter <:+: cs) := by
    intro c cs hc
    rw [List.infix_cons_iff, or_iff_right]
    rintro ⟨more, hmore⟩
    injection hmore with hc'
    exact hc hc'.symm
  have htype : ∀ type : List Char, (∀ c ∈ type, isReserved c = false) →
      (delimiter <:+: type ++ ':' :: s.value.toList ↔ delimiter <:+: s.value.toList) := by
    intro type hplain
    induction type with
    | nil => exact hskip (by decide)
    | cons c type ih =>
        rw [List.cons_append, hskip, ih fun c' hc' => hplain c' (List.mem_cons_of_mem c hc')]
        rintro rfl
        exact absurd (hplain _ (List.mem_cons_self ..)) (by decide)
  exact htype _ fun c hc => Segment.not_isReserved_of_mem hc

/-- A value without the characters that part two segments. -/
def Whole (value : String) : Prop := ¬ delimiter <:+: value.toList

instance : DecidablePred Whole := fun value =>
  inferInstanceAs (Decidable (¬ delimiter <:+: value.toList))

/-- Ids whose segments can be told apart: no value holds the characters that part two of them. -/
def Separable (u : UniqueId) : Prop := ∀ s ∈ u.segments, Whole s.value

/-- An id of one segment is separable if its value is whole. -/
theorem separable_single {s : Segment} (hs : Whole s.value) : (single s).Separable := by
  intro t ht
  rw [List.mem_singleton.mp ht]
  exact hs

/-- A segment with a whole value keeps an id separable. -/
theorem Separable.push (hu : u.Separable) {s : Segment} (hs : Whole s.value) :
    (u.push s).Separable := by
  intro t ht
  rw [segments_push, List.mem_append, List.mem_singleton] at ht
  rcases ht with ht | rfl
  · exact hu t ht
  · exact hs

/-- Segments of ids whose segments can be told apart do not hold the delimiter. -/
theorem Separable.not_delimiter_infix (hu : u.Separable) :
    ∀ p ∈ u.segments.map Segment.inner, ¬ delimiter <:+: p := by
  intro p hp
  obtain ⟨s, hs, rfl⟩ := List.mem_map.mp hp
  rw [delimiter_infix_inner_iff]
  exact hu s hs

/-- **Different ids read differently** where their segments can be told apart. -/
theorem Separable.eq_of_render (hu : u.Separable) (hv : v.Separable)
    (h : u.render = v.render) : u = v := by
  have hchars : charsOf u.segments = charsOf v.segments := String.ofList_injective h
  rw [charsOf_eq u.nonempty, charsOf_eq v.nonempty, List.cons_append, List.cons_append] at hchars
  injection hchars with _ hchars
  have hjoined := List.append_cancel_right hchars
  have hinner : u.segments.map Segment.inner = v.segments.map Segment.inner := by
    rw [← pieces_intercalate (by simpa using u.nonempty) hu.not_delimiter_infix, hjoined,
      pieces_intercalate (by simpa using v.nonempty) hv.not_delimiter_infix]
  exact ext_iff.mpr (Segment.inner_injective.list_map hinner)

/-! ## One piece -/

/-- A piece is split at the first colon, after a type that is not empty and before a value without
    line breaks. -/
theorem splitPiece?_eq_some_iff {type value : String} :
    splitPiece? p = some (type, value) ↔
      p = type.toList ++ ':' :: value.toList ∧ type.toList ≠ [] ∧
        (∀ c ∈ type.toList, isReserved c = false) ∧ '\n' ∉ value.toList := by
  constructor
  · intro h
    rw [splitPiece?] at h
    split at h
    · rename_i value' hdrop
      split at h
      · cases h
      · rename_i hfine
        simp only [Bool.or_eq_true, not_or, List.isEmpty_iff, List.contains_iff_mem] at hfine
        cases h
        have hp := List.takeWhile_append_dropWhile (p := fun c => !isReserved c) (l := p)
        rw [hdrop] at hp
        simp only [String.toList_ofList]
        refine ⟨hp.symm, hfine.1, ?_, hfine.2⟩
        intro c hc
        have hplain := List.mem_takeWhile_imp hc
        rwa [Bool.not_eq_true'] at hplain
    · cases h
  · rintro ⟨rfl, htype, hplain, hline⟩
    have hall : ∀ c ∈ type.toList, (!isReserved c) = true := by
      intro c hc
      rw [hplain c hc]
      rfl
    have htake : (type.toList ++ ':' :: value.toList).takeWhile (fun c => !isReserved c) =
        type.toList := by
      rw [List.takeWhile_append_of_pos hall, List.takeWhile_cons_of_neg (by decide),
        List.append_nil]
    have hdrop : (type.toList ++ ':' :: value.toList).dropWhile (fun c => !isReserved c) =
        ':' :: value.toList := by
      rw [List.dropWhile_append_of_pos hall, List.dropWhile_cons_of_neg (by decide)]
    rw [splitPiece?, htake, hdrop]
    simp [htype, hline]

/-- The segment in a piece, or why there is none. -/
def readPiece (text : String) (piece : List Char) : Except Fault Segment :=
  match splitPiece? piece with
  | none => refuse (.malformedUniqueId text)
  | some (type, value) => Segment.make type value

/-- A segment is read from exactly what is written of it. -/
theorem readPiece_eq_ok_iff {s : Segment} :
    readPiece text p = .ok s ↔ p = s.inner ∧ '\n' ∉ s.value.toList := by
  rw [readPiece]
  constructor
  · intro h
    split at h
    · cases h
    · rename_i type value hsplit
      obtain ⟨rfl, rfl⟩ := Segment.type_of_make h
      obtain ⟨hp, -, -, hline⟩ := splitPiece?_eq_some_iff.mp hsplit
      exact ⟨hp, hline⟩
  · rintro ⟨rfl, hline⟩
    have hsplit : splitPiece? s.inner = some (s.type, s.value) :=
      splitPiece?_eq_some_iff.mpr
        ⟨rfl, s.type_ne_nil, fun c hc => Segment.not_isReserved_of_mem hc, hline⟩
    rw [hsplit]
    exact Segment.make_self s

/-- A piece holds a segment or is refused. -/
theorem readPiece_ok_or_refused (text : String) (p : List Char) :
    (∃ s, readPiece text p = .ok s) ∨ ∃ cause, readPiece text p = .error (.refused cause) := by
  rw [readPiece]
  split
  · exact Or.inr ⟨_, rfl⟩
  · unfold Segment.make
    split_ifs
    · exact Or.inl ⟨_, rfl⟩
    · exact Or.inr ⟨_, rfl⟩
    · exact Or.inr ⟨_, rfl⟩
    · exact Or.inr ⟨_, rfl⟩

/-! ## All pieces -/

/-- Segments are read from exactly what is written of them. -/
theorem mapM_readPiece_eq_ok_iff :
    ps.mapM (readPiece text) = .ok ss ↔
      ps = ss.map Segment.inner ∧ ∀ s ∈ ss, '\n' ∉ s.value.toList := by
  induction ps generalizing ss with
  | nil =>
      rw [List.mapM_nil]
      constructor
      · rintro ⟨⟩
        exact ⟨rfl, fun s hs => absurd hs List.not_mem_nil⟩
      · rintro ⟨hss, -⟩
        rw [List.map_eq_nil_iff.mp hss.symm]
        rfl
  | cons p ps ih =>
      rw [List.mapM_cons]
      constructor
      · intro h
        obtain ⟨s, hs, h⟩ := bind_eq_ok h
        obtain ⟨ss', hss', h⟩ := bind_eq_ok h
        cases h
        obtain ⟨rfl, hline⟩ := readPiece_eq_ok_iff.mp hs
        obtain ⟨rfl, hlines⟩ := ih.mp hss'
        exact ⟨rfl, List.forall_mem_cons.mpr ⟨hline, hlines⟩⟩
      · rintro ⟨hss, hlines⟩
        obtain ⟨s, ss', rfl, rfl, rfl⟩ := List.map_eq_cons_iff.mp hss.symm
        obtain ⟨hline, hlines⟩ := List.forall_mem_cons.mp hlines
        rw [readPiece_eq_ok_iff.mpr ⟨rfl, hline⟩]
        show (List.mapM (readPiece text) (ss'.map Segment.inner) >>= fun tail =>
          pure (s :: tail)) = _
        rw [ih.mpr ⟨rfl, hlines⟩]
        rfl

/-- Pieces are read, or one of them is refused. -/
theorem mapM_readPiece_ok_or_refused (text : String) (ps : List (List Char)) :
    (∃ ss, ps.mapM (readPiece text) = .ok ss) ∨
      ∃ cause, ps.mapM (readPiece text) = .error (.refused cause) := by
  induction ps with
  | nil => exact Or.inl ⟨[], rfl⟩
  | cons p ps ih =>
      rw [List.mapM_cons]
      rcases readPiece_ok_or_refused text p with ⟨s, hs⟩ | ⟨cause, hs⟩
      · rw [hs]
        rcases ih with ⟨ss, hss⟩ | ⟨cause, hss⟩
        · exact Or.inl ⟨s :: ss, by rw [hss]; rfl⟩
        · exact Or.inr ⟨cause, by rw [hss]; rfl⟩
      · exact Or.inr ⟨cause, by rw [hs]; rfl⟩

/-! ## The whole text -/

/-- Only what stands in brackets has an inside. -/
theorem unbracket?_eq_some_iff {inside : List Char} :
    unbracket? cs = some inside ↔ cs = '[' :: inside ++ [']'] := by
  constructor
  · intro h
    unfold unbracket? at h
    split at h
    · rename_i rest
      split at h
      · rename_i hlast
        cases h
        rw [List.cons_append, List.dropLast_append_getLast? _ hlast]
      · cases h
    · cases h
  · rintro rfl
    rw [List.cons_append, unbracket?, if_pos (List.getLast?_concat ..), List.dropLast_concat]

/-- A text between brackets is read piece by piece, and every other text is refused. -/
theorem parse_eq (text : String) :
    (∃ inside, text.toList = '[' :: inside ++ [']'] ∧
      parse text = (pieces inside).mapM (readPiece text) >>= ofSegments) ∨
    (∀ inside, text.toList ≠ '[' :: inside ++ [']']) ∧
      ∃ cause, parse text = .error (.refused cause) := by
  cases hinside : unbracket? text.toList with
  | none =>
      refine Or.inr ⟨?_, ?_⟩
      · intro inside htext
        rw [unbracket?_eq_some_iff.mpr htext] at hinside
        cases hinside
      · by_cases hblank : Text.isBlank text = true
        · exact ⟨.emptyUniqueId, by rw [parse, if_pos hblank]; rfl⟩
        · exact ⟨.malformedUniqueId text, by rw [parse, if_neg hblank, hinside]; rfl⟩
  | some inside =>
      have htext := unbracket?_eq_some_iff.mp hinside
      refine Or.inl ⟨inside, htext, ?_⟩
      have hblank : ¬ Text.isBlank text = true := by
        rw [Text.isBlank, htext]
        simp [show Text.isBlankChar '[' = false by decide]
      rw [parse, if_neg hblank, hinside]
      rfl

/-- An id is built from its own segments. -/
theorem ofSegments_segments (u : UniqueId) : ofSegments u.segments = .ok u := by
  obtain ⟨segments, hne⟩ := u
  cases segments with
  | nil => exact absurd rfl hne
  | cons s ss => rfl

/-- What is built from segments has these segments. -/
theorem ofSegments_eq_ok (h : ofSegments ss = .ok u) : u.segments = ss := by
  cases ss with
  | nil => cases h
  | cons s ss =>
      cases h
      rfl

/-- The texts that are read, and what is read from them. -/
theorem parse_eq_ok_iff :
    parse text = .ok u ↔
      ∃ inside, text.toList = '[' :: inside ++ [']'] ∧
        pieces inside = u.segments.map Segment.inner ∧
          ∀ s ∈ u.segments, '\n' ∉ s.value.toList := by
  rcases parse_eq text with ⟨inside, htext, hparse⟩ | ⟨hnot, cause, hparse⟩
  · rw [hparse]
    constructor
    · intro h
      obtain ⟨ss, hss, h⟩ := bind_eq_ok h
      rw [ofSegments_eq_ok h]
      exact ⟨inside, htext, mapM_readPiece_eq_ok_iff.mp hss⟩
    · rintro ⟨inside', htext', hread⟩
      rw [htext] at htext'
      obtain rfl : inside = inside' := by simpa using htext'
      rw [mapM_readPiece_eq_ok_iff.mpr hread]
      exact ofSegments_segments u
  · rw [hparse]
    constructor
    · rintro ⟨⟩
    · rintro ⟨inside, htext, -⟩
      exact absurd htext (hnot inside)

/-- **Reading is the exact inverse of writing** on the ids that can be expressed, and refuses
    every text that is not the written form of one of them. -/
theorem parse_inverts_render (text : String) :
    (∀ u, parse text = .ok u ↔ u.render = text ∧ u.Expressible) ∧
      ((∃ u : UniqueId, u.render = text ∧ u.Expressible) ∨
        ∃ fault, parse text = .error fault ∧ fault.kind = .precondition) := by
  have hread : ∀ u, parse text = .ok u ↔ u.render = text ∧ u.Expressible := by
    intro u
    rw [parse_eq_ok_iff]
    constructor
    · rintro ⟨inside, htext, hpieces, hlines⟩
      constructor
      · rw [render, charsOf_eq u.nonempty, ← hpieces, intercalate_pieces, ← htext,
          String.ofList_toList]
      · intro s hs
        refine ⟨hlines s hs, ?_⟩
        rw [← delimiter_infix_inner_iff]
        apply not_delimiter_infix_of_mem_pieces
        rw [hpieces]
        exact List.mem_map_of_mem hs
    · rintro ⟨rfl, hexpressible⟩
      refine ⟨delimiter.intercalate (u.segments.map Segment.inner), ?_, ?_, ?_⟩
      · rw [render, String.toList_ofList, charsOf_eq u.nonempty]
      · refine pieces_intercalate (fun hnil => u.nonempty (List.map_eq_nil_iff.mp hnil)) ?_
        intro p hp
        obtain ⟨s, hs, rfl⟩ := List.mem_map.mp hp
        rw [delimiter_infix_inner_iff]
        exact (hexpressible s hs).2
      · intro s hs
        exact (hexpressible s hs).1
  refine ⟨hread, ?_⟩
  rcases parse_eq text with ⟨inside, -, hparse⟩ | ⟨-, cause, hrefused⟩
  · rcases mapM_readPiece_ok_or_refused text (pieces inside) with ⟨ss, hss⟩ | ⟨cause, hss⟩
    · rw [hss] at hparse
      cases ss with
      | nil => exact Or.inr ⟨_, hparse, rfl⟩
      | cons s ss => exact Or.inl ⟨_, (hread _).mp hparse⟩
    · rw [hss] at hparse
      exact Or.inr ⟨_, hparse, rfl⟩
  · exact Or.inr ⟨_, hrefused, rfl⟩

end UniqueId

end TestLauncher
