/-! # Sets of texts

    A set of texts is kept as its strictly increasing list, by code point.  Two sets
    with the same members are therefore equal (`ext_mem`), and listing one needs no
    sorting. -/

namespace TestLauncher

/-- The code points of a text.  Texts are in the lexicographic order of these. -/
def Text.codePoints (s : String) : List Nat := s.toList.map Char.toNat

theorem Text.codePoints_lt {s t : String} (h : s < t) : codePoints s < codePoints t :=
  List.map_lt (fun _ _ hlt => hlt) (String.lt_iff.mp h)

/-- A finite set of texts. -/
structure StringSet where
  /-- The members, strictly increasing by code point. -/
  toList : List String
  sorted : toList.Pairwise (· < ·)
deriving DecidableEq

namespace StringSet

/-- Puts a text into an increasing list, unless it is there. -/
def insertSorted (s : String) : List String → List String
  | [] => [s]
  | t :: ts => if s < t then s :: t :: ts else if s = t then t :: ts else t :: insertSorted s ts

theorem mem_insertSorted {s t : String} {l : List String} :
    t ∈ insertSorted s l ↔ t = s ∨ t ∈ l := by
  induction l with
  | nil => simp [insertSorted]
  | cons u us ih =>
    unfold insertSorted
    split
    · simp
    · split
      · rename_i h; subst h; simp
      · simp only [List.mem_cons, ih]
        constructor
        · rintro (h | h | h) <;> simp [h]
        · rintro (h | h | h) <;> simp [h]

theorem sorted_insertSorted {s : String} {l : List String} (h : l.Pairwise (· < ·)) :
    (insertSorted s l).Pairwise (· < ·) := by
  induction l with
  | nil => simp [insertSorted]
  | cons u us ih =>
    obtain ⟨hu, hus⟩ := List.pairwise_cons.mp h
    unfold insertSorted
    split
    · rename_i hs
      refine List.pairwise_cons.mpr ⟨?_, h⟩
      intro t ht
      rcases List.mem_cons.mp ht with rfl | ht
      · exact hs
      · exact String.lt_trans hs (hu t ht)
    · split
      · exact h
      · rename_i hlt hne
        refine List.pairwise_cons.mpr ⟨?_, ih hus⟩
        intro t ht
        rcases mem_insertSorted.mp ht with rfl | ht
        · exact Std.lt_of_le_of_ne (String.not_lt.mp hlt) (Ne.symm hne)
        · exact hu t ht

/-- The set without members. -/
def empty : StringSet := ⟨[], List.Pairwise.nil⟩

instance : EmptyCollection StringSet where
  emptyCollection := empty

instance : Inhabited StringSet where
  default := empty

/-- The set with one more member. -/
def insert (s : String) (ss : StringSet) : StringSet :=
  ⟨insertSorted s ss.toList, sorted_insertSorted ss.sorted⟩

/-- The set of the texts in a list. -/
def ofList (l : List String) : StringSet :=
  l.foldr insert empty

/-- Membership in the list of members. -/
instance : Membership String StringSet where
  mem ss s := s ∈ ss.toList

instance (s : String) (ss : StringSet) : Decidable (s ∈ ss) :=
  inferInstanceAs (Decidable (s ∈ ss.toList))

/-- The number of members. -/
def size (ss : StringSet) : Nat := ss.toList.length

/-- Whether two sets have a member in common. -/
def intersects (ss ts : StringSet) : Bool :=
  ss.toList.any fun s => decide (s ∈ ts)

theorem mem_def {s : String} {ss : StringSet} : s ∈ ss ↔ s ∈ ss.toList := Iff.rfl

@[simp] theorem not_mem_empty (s : String) : s ∉ empty := by
  simp [mem_def, empty]

@[simp] theorem mem_insert {s t : String} {ss : StringSet} :
    t ∈ insert s ss ↔ t = s ∨ t ∈ ss := mem_insertSorted

@[simp] theorem mem_ofList {s : String} {l : List String} : s ∈ ofList l ↔ s ∈ l := by
  induction l with
  | nil => simp [ofList]
  | cons t ts ih =>
    have : ofList (t :: ts) = insert t (ofList ts) := rfl
    simp [this, ih]

theorem nodup_toList (ss : StringSet) : ss.toList.Nodup :=
  ss.sorted.imp fun hlt => by
    rintro rfl
    exact String.lt_irrefl _ hlt

theorem sorted_codePoints (ss : StringSet) :
    (ss.toList.map Text.codePoints).Pairwise (· < ·) :=
  List.pairwise_map.mpr (ss.sorted.imp Text.codePoints_lt)

/-- A set lists what any list of its members without repeats does. -/
theorem perm_toList {ss : StringSet} {l : List String} (hl : l.Nodup)
    (h : ∀ s, s ∈ ss ↔ s ∈ l) : ss.toList.Perm l :=
  (List.perm_ext_iff_of_nodup ss.nodup_toList hl).mpr h

theorem intersects_iff {ss ts : StringSet} :
    intersects ss ts = true ↔ ∃ s, s ∈ ss ∧ s ∈ ts := by
  simp [intersects, mem_def]

/-- Increasing lists with the same members are the same list. -/
theorem eq_of_mem_iff {l m : List String} (hl : l.Pairwise (· < ·)) (hm : m.Pairwise (· < ·))
    (h : ∀ s, s ∈ l ↔ s ∈ m) : l = m := by
  induction l generalizing m with
  | nil =>
    cases m with
    | nil => rfl
    | cons t ts => exact absurd ((h t).mpr (List.mem_cons_self ..)) (by simp)
  | cons s ss ih =>
    cases m with
    | nil => exact absurd ((h s).mp (List.mem_cons_self ..)) (by simp)
    | cons t ts =>
      obtain ⟨hs, hss⟩ := List.pairwise_cons.mp hl
      obtain ⟨ht, hts⟩ := List.pairwise_cons.mp hm
      -- the heads are the least members of the same set
      have hst : s = t := by
        rcases List.mem_cons.mp ((h s).mp (List.mem_cons_self ..)) with e | hmem
        · exact e
        · rcases List.mem_cons.mp ((h t).mpr (List.mem_cons_self ..)) with e | hmem'
          · exact e.symm
          · exact absurd (String.lt_trans (hs t hmem') (ht s hmem)) (String.lt_irrefl s)
      subst hst
      congr 1
      refine ih hss hts fun u => ?_
      constructor
      · intro hu
        rcases List.mem_cons.mp ((h u).mp (List.mem_cons_of_mem _ hu)) with rfl | hu'
        · exact absurd (hs u hu) (String.lt_irrefl u)
        · exact hu'
      · intro hu
        rcases List.mem_cons.mp ((h u).mpr (List.mem_cons_of_mem _ hu)) with rfl | hu'
        · exact absurd (ht u hu) (String.lt_irrefl u)
        · exact hu'

/-- Sets with the same members are equal. -/
theorem ext_mem {ss ts : StringSet} (h : ∀ s, s ∈ ss ↔ s ∈ ts) : ss = ts := by
  obtain ⟨l, hl⟩ := ss
  obtain ⟨m, hm⟩ := ts
  have : l = m := eq_of_mem_iff hl hm h
  subst this
  rfl

end StringSet

end TestLauncher
