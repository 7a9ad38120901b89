import TestLauncher.Text.Ranges

/-! # Blank text

    White space is the Unicode property together with the four separators
    U+001C to U+001F.  A text is blank when it holds nothing else; trimming
    removes white space at both ends, so a text is blank exactly when nothing
    is left of it (`trim_eq_empty_iff`), and white space put around it does not
    show (`trim_append`). -/

namespace TestLauncher.Text

/-- The code points that count as white space. -/
def blankRanges : Ranges :=
  [(0x09, 0x0D), (0x1C, 0x20), (0x85, 0x85), (0xA0, 0xA0), (0x1680, 0x1680),
   (0x2000, 0x200A), (0x2028, 0x2029), (0x202F, 0x202F), (0x205F, 0x205F), (0x3000, 0x3000)]

/-- Whether a character is white space. -/
def isBlankChar (c : Char) : Bool :=
  blankRanges.contains c.toNat

/-- Whether a text holds nothing but white space. -/
def isBlank (s : String) : Bool :=
  s.toList.all isBlankChar

/-- The characters without the white space at both ends. -/
def trimChars (cs : List Char) : List Char :=
  ((cs.dropWhile isBlankChar).reverse.dropWhile isBlankChar).reverse

/-- The text without the white space at both ends. -/
def trim (s : String) : String :=
  String.ofList (trimChars s.toList)

/-- Every character that the core library calls white space is blank. -/
theorem isBlankChar_of_isWhitespace {c : Char} (h : c.isWhitespace = true) :
    isBlankChar c = true := by
  simp [Char.isWhitespace] at h
  rcases h with ((h | h) | h) | h <;> subst h <;> decide

theorem trimChars_eq_nil_iff (cs : List Char) :
    trimChars cs = [] ↔ cs.all isBlankChar = true := by
  have drop_nil : ∀ l : List Char, l.dropWhile isBlankChar = [] ↔ l.all isBlankChar = true := by
    intro l
    induction l with
    | nil => simp
    | cons c l ih => by_cases h : isBlankChar c = true <;> simp [h, ih]
  constructor
  · intro h
    have h := List.reverse_eq_nil_iff.mp h
    have hall := (drop_nil _).mp h
    rw [List.all_reverse] at hall
    have : cs = cs.takeWhile isBlankChar ++ cs.dropWhile isBlankChar :=
      (List.takeWhile_append_dropWhile).symm
    rw [this, List.all_append, hall, Bool.and_true, List.all_eq_true]
    intro c hc
    exact List.all_eq_true.mp List.all_takeWhile c hc
  · intro h
    simp [trimChars, (drop_nil cs).mpr h]

theorem trim_eq_empty_iff (s : String) : trim s = "" ↔ isBlank s = true := by
  have : trim s = "" ↔ trimChars s.toList = [] := by
    constructor
    · intro h
      have := congrArg String.toList h
      simpa [trim] using this
    · intro h
      simp [trim, h]
  rw [this, trimChars_eq_nil_iff]
  rfl

theorem isBlank_append (s t : String) : isBlank (s ++ t) = (isBlank s && isBlank t) := by
  rw [isBlank, String.toList_append, List.all_append]
  rfl

theorem trimChars_append {front cs back : List Char} (hfront : front.all isBlankChar = true)
    (hback : back.all isBlankChar = true) : trimChars (front ++ cs ++ back) = trimChars cs := by
  have hlead : ∀ l : List Char, (front ++ l).dropWhile isBlankChar = l.dropWhile isBlankChar :=
    fun l => List.dropWhile_append_of_pos (List.all_eq_true.mp hfront)
  rw [trimChars, List.append_assoc, hlead, List.dropWhile_append]
  split
  · -- nothing is left, with or without what follows
    rename_i hnone
    have hall : back.dropWhile isBlankChar = [] := by
      rw [← back.append_nil, List.dropWhile_append_of_pos (List.all_eq_true.mp hback)]
      rfl
    rw [trimChars, hall, List.isEmpty_iff.mp hnone]
  · have hrev : ∀ c ∈ back.reverse, isBlankChar c = true := fun c hc =>
      List.all_eq_true.mp hback c (List.mem_reverse.mp hc)
    rw [List.reverse_append, List.dropWhile_append_of_pos hrev, ← trimChars]

/-- White space around a text does not matter when it is trimmed. -/
theorem trim_append {front back : String} (hfront : isBlank front = true)
    (hback : isBlank back = true) (s : String) : trim (front ++ s ++ back) = trim s := by
  rw [trim, String.toList_append, String.toList_append, trimChars_append hfront hback, ← trim]

/-- A text is what is left of it when it is trimmed, with white space around that. -/
theorem exists_append_trim (s : String) : ∃ front back : String, isBlank front = true ∧
    isBlank back = true ∧ s = front ++ trim s ++ back := by
  have hfront := List.takeWhile_append_dropWhile (p := isBlankChar) (l := s.toList)
  have hback := List.takeWhile_append_dropWhile (p := isBlankChar)
    (l := (s.toList.dropWhile isBlankChar).reverse)
  refine ⟨String.ofList (s.toList.takeWhile isBlankChar), String.ofList
    (((s.toList.dropWhile isBlankChar).reverse.takeWhile isBlankChar).reverse), ?_, ?_, ?_⟩
  · rw [isBlank, String.toList_ofList]
    exact List.all_takeWhile
  · rw [isBlank, String.toList_ofList, List.all_reverse]
    exact List.all_takeWhile
  · refine String.toList_inj.mp ?_
    rw [trim, trimChars, String.toList_append, String.toList_append, String.toList_ofList,
      String.toList_ofList, String.toList_ofList, List.append_assoc, ← List.reverse_append,
      hback, List.reverse_reverse, hfront]

/-- A text that is not blank. -/
structure NonBlank where
  /-- The text itself. -/
  text : String
  not_blank : isBlank text = false
deriving DecidableEq

namespace NonBlank

/-- The text, if it is not blank. -/
def ofString? (s : String) : Option NonBlank :=
  if h : isBlank s = false then some ⟨s, h⟩ else none

instance : ToString NonBlank where
  toString t := t.text

theorem text_of_ofString? {s : String} {t : NonBlank} (h : ofString? s = some t) : t.text = s := by
  unfold ofString? at h
  split at h
  · cases h; rfl
  · cases h

theorem ofString?_eq_none_iff {s : String} : ofString? s = none ↔ isBlank s = true := by
  unfold ofString?
  split
  · simp_all
  · simp_all

@[simp] theorem ofString?_text (t : NonBlank) : ofString? t.text = some t := by
  simp [ofString?, t.not_blank]

end NonBlank

end TestLauncher.Text
