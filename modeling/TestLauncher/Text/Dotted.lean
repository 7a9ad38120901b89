/-! # Dotted names

    A dotted name is read as its components between dots; joining the components
    gives the name back (`ofComponents_components`).  The components of a name lead
    those of the names that go on after it with a dot (`components_prefix_iff`).  The
    last component is the simple name and the others name what encloses it. -/

namespace TestLauncher.Text

/-- The pieces between the occurrences of a separator. -/
def splitChar (sep : Char) : List Char → List (List Char)
  | [] => [[]]
  | c :: cs =>
    if c = sep then [] :: splitChar sep cs
    else
      match splitChar sep cs with
      | [] => [[c]]
      | piece :: pieces => (c :: piece) :: pieces

/-- The pieces with a separator between any two. -/
def joinChar (sep : Char) : List (List Char) → List Char
  | [] => []
  | [piece] => piece
  | piece :: next :: pieces => piece ++ sep :: joinChar sep (next :: pieces)

theorem splitChar_ne_nil (sep : Char) (cs : List Char) : splitChar sep cs ≠ [] := by
  cases cs with
  | nil => simp [splitChar]
  | cons c cs =>
    unfold splitChar
    split
    · simp
    · split <;> simp

theorem joinChar_splitChar (sep : Char) (cs : List Char) :
    joinChar sep (splitChar sep cs) = cs := by
  induction cs with
  | nil => rfl
  | cons c cs ih =>
    unfold splitChar
    obtain ⟨piece, pieces, h⟩ := List.exists_cons_of_ne_nil (splitChar_ne_nil sep cs)
    rw [h] at ih ⊢
    split
    · rename_i hc
      simp [joinChar, ih, hc]
    · cases pieces with
      | nil => simpa [joinChar] using ih
      | cons next rest => simpa [joinChar] using ih

/-- A separator parts what is before it from what is after it. -/
theorem splitChar_append (sep : Char) (cs ds : List Char) :
    splitChar sep (cs ++ sep :: ds) = splitChar sep cs ++ splitChar sep ds := by
  induction cs with
  | nil => simp [splitChar]
  | cons c cs ih =>
    obtain ⟨piece, pieces, h⟩ := List.exists_cons_of_ne_nil (splitChar_ne_nil sep cs)
    rw [List.cons_append, splitChar, splitChar, ih, h]
    split <;> rfl

theorem splitChar_of_not_mem {sep : Char} {cs : List Char} (h : sep ∉ cs) :
    splitChar sep cs = [cs] := by
  induction cs with
  | nil => rfl
  | cons c cs ih =>
    rw [List.mem_cons, not_or] at h
    rw [splitChar, if_neg (Ne.symm h.1), ih h.2]

theorem joinChar_append (sep : Char) {ps qs : List (List Char)} (hp : ps ≠ []) (hq : qs ≠ []) :
    joinChar sep (ps ++ qs) = joinChar sep ps ++ sep :: joinChar sep qs := by
  induction ps with
  | nil => exact absurd rfl hp
  | cons p ps ih =>
    cases ps with
    | nil =>
      obtain ⟨q, qs, rfl⟩ := List.exists_cons_of_ne_nil hq
      rfl
    | cons p' ps =>
      have hrest := ih (List.cons_ne_nil p' ps)
      rw [List.cons_append] at hrest
      rw [List.cons_append, List.cons_append, joinChar, hrest, joinChar, List.append_assoc]
      rfl

/-- The pieces of one text lead those of another when the texts are the same, or when the second
one goes on after the first with a separator. -/
theorem splitChar_prefix_iff (sep : Char) (cs ds : List Char) :
    splitChar sep cs <+: splitChar sep ds ↔ ds = cs ∨ cs ++ [sep] <+: ds := by
  constructor
  · rintro ⟨more, hmore⟩
    have hjoin := joinChar_splitChar sep ds
    rw [← hmore] at hjoin
    by_cases hnone : more = []
    · rw [hnone, List.append_nil, joinChar_splitChar] at hjoin
      exact Or.inl hjoin.symm
    · rw [joinChar_append sep (splitChar_ne_nil sep cs) hnone, joinChar_splitChar] at hjoin
      refine Or.inr ⟨joinChar sep more, ?_⟩
      rw [List.append_assoc]
      exact hjoin
  · rintro (rfl | ⟨more, rfl⟩)
    · exact List.prefix_rfl
    · rw [List.append_assoc, List.singleton_append, splitChar_append]
      exact List.prefix_append _ _

/-- The components of a dotted name. -/
def components (name : String) : List String :=
  (splitChar '.' name.toList).map String.ofList

/-- The dotted name with the given components. -/
def ofComponents (parts : List String) : String :=
  String.ofList (joinChar '.' (parts.map String.toList))

@[simp] theorem ofComponents_components (name : String) :
    ofComponents (components name) = name := by
  simp [ofComponents, components, Function.comp_def, joinChar_splitChar]

theorem components_prefix_iff (name other : String) :
    components name <+: components other ↔
      other = name ∨ name.toList ++ ['.'] <+: other.toList := by
  have htoList : ∀ n : String, (components n).map String.toList = splitChar '.' n.toList := by
    intro n
    simp [components, Function.comp_def]
  have hsplit : components name <+: components other ↔
      splitChar '.' name.toList <+: splitChar '.' other.toList := by
    constructor
    · intro h
      rw [← htoList, ← htoList]
      exact h.map String.toList
    · intro h
      exact h.map String.ofList
  rw [hsplit, splitChar_prefix_iff, String.toList_inj]

/-- A last component after a dot. -/
theorem components_dot (name : String) {last : String} (h : '.' ∉ last.toList) :
    components (name ++ "." ++ last) = components name ++ [last] := by
  have hlist : (name ++ "." ++ last).toList = name.toList ++ '.' :: last.toList := by simp
  rw [components, hlist, splitChar_append, splitChar_of_not_mem h, List.map_append, ← components]
  simp

/-- The last component of a dotted name. -/
def simpleName (name : String) : String :=
  (components name).getLast?.getD ""

/-- The name without its last component; empty when there is only one. -/
def enclosingName (name : String) : String :=
  ofComponents (components name).dropLast

end TestLauncher.Text
