/-! # Maps in order of first insertion

    An ordered map lists its entries in the order in which their keys first arrived.
    Writing to a key that is present replaces the value and moves nothing; a new key
    goes to the end; erasing a key closes the gap.  The keys are pairwise different by
    construction, and `get?` is the view the operations are described through; the order
    that writing leaves is told by `keys`. -/

namespace TestLauncher

/-- A finite map that remembers the order in which its keys first arrived. -/
structure OrderedMap (κ α : Type) where
  /-- The entries in order of arrival of their keys. -/
  toList : List (κ × α)
  nodup : (toList.map Prod.fst).Nodup

namespace OrderedMap

variable {κ α : Type}

/-- The map without entries. -/
def empty : OrderedMap κ α := ⟨[], List.nodup_nil⟩

instance : EmptyCollection (OrderedMap κ α) where
  emptyCollection := empty

instance : Inhabited (OrderedMap κ α) where
  default := empty

instance [DecidableEq κ] [DecidableEq α] : DecidableEq (OrderedMap κ α) := fun m n =>
  if h : m.toList = n.toList then
    isTrue (by cases m; cases n; cases h; rfl)
  else
    isFalse fun e => h (congrArg toList e)

/-- The keys in order of arrival. -/
def keys (m : OrderedMap κ α) : List κ := m.toList.map Prod.fst

/-- The values in order of arrival of their keys. -/
def values (m : OrderedMap κ α) : List α := m.toList.map Prod.snd

/-- The number of entries. -/
def size (m : OrderedMap κ α) : Nat := m.toList.length

/-- Whether there are no entries. -/
def isEmpty (m : OrderedMap κ α) : Bool := m.toList.isEmpty

variable [DecidableEq κ]

/-- The value under a key in a list of entries: the first one with that key. -/
def lookup (k : κ) : List (κ × α) → Option α
  | [] => none
  | e :: es => if e.1 = k then some e.2 else lookup k es

/-- Writes a value: in place where the key is present, else at the end. -/
def write (k : κ) (v : α) : List (κ × α) → List (κ × α)
  | [] => [(k, v)]
  | e :: es => if e.1 = k then (k, v) :: es else e :: write k v es

/-- The list without the entry of a key. -/
def strike (k : κ) : List (κ × α) → List (κ × α)
  | [] => []
  | e :: es => if e.1 = k then es else e :: strike k es

/-- Writing adds a key at the end, unless it is there. -/
theorem map_fst_write (k : κ) (v : α) (l : List (κ × α)) :
    (write k v l).map Prod.fst
      = if k ∈ l.map Prod.fst then l.map Prod.fst else l.map Prod.fst ++ [k] := by
  induction l with
  | nil => simp [write]
  | cons e es ih =>
    unfold write
    by_cases h : e.1 = k
    · simp [h]
    · have hk : k ≠ e.1 := fun he => h he.symm
      simp only [h, if_false, List.map_cons, ih, List.mem_cons, hk, false_or]
      split <;> simp

/-- Writing keeps the keys different. -/
theorem nodup_write {k : κ} {v : α} {l : List (κ × α)} (h : (l.map Prod.fst).Nodup) :
    ((write k v l).map Prod.fst).Nodup := by
  rw [map_fst_write]
  split
  · exact h
  · rename_i hk
    refine List.nodup_append.mpr ⟨h, by simp, ?_⟩
    intro a ha b hb
    rcases List.mem_singleton.mp hb with rfl
    exact fun e => hk (e ▸ ha)

/-- Striking out only takes away. -/
theorem sublist_strike (k : κ) (l : List (κ × α)) : (strike k l).Sublist l := by
  induction l with
  | nil => exact List.Sublist.slnil
  | cons e es ih =>
    unfold strike
    split
    · exact List.sublist_cons_self ..
    · exact ih.cons_cons _

/-- Striking out keeps the keys different. -/
theorem nodup_strike {k : κ} {l : List (κ × α)} (h : (l.map Prod.fst).Nodup) :
    ((strike k l).map Prod.fst).Nodup :=
  h.sublist ((sublist_strike k l).map _)

/-- The value under a key. -/
def get? (m : OrderedMap κ α) (k : κ) : Option α := lookup k m.toList

/-- Whether a key is present. -/
def contains (m : OrderedMap κ α) (k : κ) : Bool := (m.get? k).isSome

/-- The value under a key, or the given one. -/
def getD (m : OrderedMap κ α) (k : κ) (v : α) : α := (m.get? k).getD v

/-- Writes a value: in place where the key is present, else at the end. -/
def insert (m : OrderedMap κ α) (k : κ) (v : α) : OrderedMap κ α :=
  ⟨write k v m.toList, nodup_write m.nodup⟩

/-- The map without a key. -/
def erase (m : OrderedMap κ α) (k : κ) : OrderedMap κ α :=
  ⟨strike k m.toList, nodup_strike m.nodup⟩

/-- Writes the entries of a list one after the other. -/
def insertAll (m : OrderedMap κ α) (es : List (κ × α)) : OrderedMap κ α :=
  es.foldl (fun m e => m.insert e.1 e.2) m

/-- The map of the entries of a list: first positions, last values. -/
def ofList (es : List (κ × α)) : OrderedMap κ α := empty.insertAll es

/-- The entries of the first map overlaid by those of the second. -/
def overlay (m n : OrderedMap κ α) : OrderedMap κ α := m.insertAll n.toList

/-- Looking up after writing finds what was written, and elsewhere what was there. -/
theorem lookup_write (k k' : κ) (v : α) (l : List (κ × α)) :
    lookup k' (write k v l) = if k = k' then some v else lookup k' l := by
  induction l with
  | nil => simp [write, lookup]
  | cons e es ih =>
    unfold write
    by_cases h : e.1 = k
    · subst h
      by_cases hk : e.1 = k' <;> simp [lookup, hk]
    · simp only [h, if_false, lookup, ih]
      by_cases hk : e.1 = k'
      · subst hk
        simp [Ne.symm h]
      · simp [hk]

/-- Nothing is found exactly under what is no key. -/
theorem lookup_eq_none_iff (k : κ) (l : List (κ × α)) :
    lookup k l = none ↔ k ∉ l.map Prod.fst := by
  induction l with
  | nil => simp [lookup]
  | cons e es ih =>
    by_cases h : e.1 = k
    · simp [lookup, h]
    · simp only [lookup, h, if_false, ih, List.map_cons, List.mem_cons, not_or]
      exact ⟨fun hn => ⟨fun e => h e.symm, hn⟩, fun hn => hn.2⟩

/-- Looking up after striking out finds nothing there, and elsewhere what was there. -/
theorem lookup_strike {k : κ} (k' : κ) {l : List (κ × α)} (h : (l.map Prod.fst).Nodup) :
    lookup k' (strike k l) = if k = k' then none else lookup k' l := by
  induction l with
  | nil => simp [strike, lookup]
  | cons e es ih =>
    have hn := List.nodup_cons.mp h
    unfold strike
    by_cases hk : e.1 = k
    · subst hk
      by_cases hk' : e.1 = k'
      · subst hk'
        simpa [lookup] using (lookup_eq_none_iff _ _).mpr hn.1
      · simp [lookup, hk']
    · simp only [hk, if_false, lookup, ih hn.2]
      by_cases hk' : e.1 = k'
      · subst hk'
        simp [Ne.symm hk]
      · simp [hk']

@[simp] theorem get?_empty (k : κ) : (empty : OrderedMap κ α).get? k = none := rfl

omit [DecidableEq κ] in
@[simp] theorem keys_empty : (empty : OrderedMap κ α).keys = [] := rfl

/-- After an insertion the key has the new value and every other key what it had. -/
theorem get?_insert (m : OrderedMap κ α) (k k' : κ) (v : α) :
    (m.insert k v).get? k' = if k = k' then some v else m.get? k' :=
  lookup_write ..

/-- An insertion adds its key at the end, unless the key is there. -/
theorem keys_insert (m : OrderedMap κ α) (k : κ) (v : α) :
    (m.insert k v).keys = if k ∈ m.keys then m.keys else m.keys ++ [k] :=
  map_fst_write ..

/-- After an erasure the key has no value and every other key what it had. -/
theorem get?_erase (m : OrderedMap κ α) (k k' : κ) :
    (m.erase k).get? k' = if k = k' then none else m.get? k' :=
  lookup_strike k' m.nodup

/-- There is no value exactly where there is no key. -/
theorem get?_eq_none_iff (m : OrderedMap κ α) (k : κ) : m.get? k = none ↔ k ∉ m.keys :=
  lookup_eq_none_iff ..

/-- A map contains its keys. -/
@[simp] theorem contains_iff (m : OrderedMap κ α) (k : κ) :
    m.contains k = true ↔ k ∈ m.keys := by
  have := m.get?_eq_none_iff k
  unfold contains
  cases h : m.get? k with
  | none => simp [this.mp h]
  | some v =>
    simp only [Option.isSome_some, true_iff]
    exact Classical.byContradiction fun hn => by simp [this.mpr hn] at h

/-- A key is what there is a value under. -/
theorem mem_keys_iff (m : OrderedMap κ α) (k : κ) : k ∈ m.keys ↔ ∃ v, m.get? k = some v := by
  rw [← contains_iff, contains, Option.isSome_iff_exists]

theorem insertAll_cons (m : OrderedMap κ α) (e : κ × α) (es : List (κ × α)) :
    m.insertAll (e :: es) = (m.insert e.1 e.2).insertAll es := rfl

/-- Entries are inserted one list after the other. -/
theorem insertAll_append (m : OrderedMap κ α) (es fs : List (κ × α)) :
    m.insertAll (es ++ fs) = (m.insertAll es).insertAll fs :=
  List.foldl_append

/-- The last entry is inserted last. -/
theorem insertAll_concat (m : OrderedMap κ α) (es : List (κ × α)) (e : κ × α) :
    m.insertAll (es ++ [e]) = (m.insertAll es).insert e.1 e.2 :=
  insertAll_append ..

/-- The value written last is the one that stays. -/
theorem get?_insertAll (m : OrderedMap κ α) (es : List (κ × α)) (k : κ) :
    (m.insertAll es).get? k = (lookup k es.reverse).or (m.get? k) := by
  obtain ⟨rs, rfl⟩ : ∃ rs : List (κ × α), es = rs.reverse := ⟨es.reverse, es.reverse_reverse.symm⟩
  rw [List.reverse_reverse]
  induction rs with
  | nil => rfl
  | cons e rs ih =>
      rw [List.reverse_cons, insertAll_concat, get?_insert, lookup]
      by_cases hk : e.1 = k
      · rw [if_pos hk, if_pos hk, Option.some_or]
      · rw [if_neg hk, if_neg hk, ih]

/-! ## Entries -/

omit [DecidableEq κ] in
/-- Maps with the same entries in the same order are equal. -/
theorem ext_toList {m n : OrderedMap κ α} (h : m.toList = n.toList) : m = n := by
  cases m
  cases n
  cases h
  rfl

/-- Among different keys every entry is found. -/
theorem lookup_eq_some_of_mem {k : κ} {v : α} {l : List (κ × α)} (hn : (l.map Prod.fst).Nodup)
    (h : (k, v) ∈ l) : lookup k l = some v := by
  induction l with
  | nil => simp at h
  | cons e es ih =>
      have hn' := List.nodup_cons.mp hn
      rcases List.mem_cons.mp h with rfl | h
      · simp [lookup]
      · have hk : e.1 ≠ k := fun he => hn'.1 (he ▸ List.mem_map_of_mem h)
        rw [lookup, if_neg hk]
        exact ih hn'.2 h

/-- What is found is an entry. -/
theorem mem_of_lookup_eq_some {k : κ} {v : α} {l : List (κ × α)} (h : lookup k l = some v) :
    (k, v) ∈ l := by
  induction l with
  | nil => simp [lookup] at h
  | cons e es ih =>
      unfold lookup at h
      split at h
      · rename_i he
        subst he
        cases h
        exact List.mem_cons_self ..
      · exact List.mem_cons_of_mem _ (ih h)

/-- The value under a key is that of its entry. -/
theorem get?_eq_some_iff (m : OrderedMap κ α) (k : κ) (v : α) :
    m.get? k = some v ↔ (k, v) ∈ m.toList :=
  ⟨mem_of_lookup_eq_some, lookup_eq_some_of_mem m.nodup⟩

/-- Where no key comes twice, entries are found from either end. -/
theorem lookup_reverse (k : κ) {l : List (κ × α)} (hn : (l.map Prod.fst).Nodup) :
    lookup k l.reverse = lookup k l := by
  have hn' : (l.reverse.map Prod.fst).Nodup := by
    rw [List.map_reverse]
    exact List.pairwise_reverse.mpr (hn.imp Ne.symm)
  refine Option.ext fun v => ⟨fun h => ?_, fun h => ?_⟩
  · exact lookup_eq_some_of_mem hn (List.mem_reverse.mp (mem_of_lookup_eq_some h))
  · exact lookup_eq_some_of_mem hn' (List.mem_reverse.mpr (mem_of_lookup_eq_some h))

/-- What lies on top is found first. -/
theorem get?_overlay (m n : OrderedMap κ α) (k : κ) :
    (m.overlay n).get? k = (n.get? k).or (m.get? k) := by
  rw [overlay, get?_insertAll, lookup_reverse k n.nodup]
  rfl

/-! ## The order of keys -/

/-- One more element at the end counts unless it is there already. -/
theorem eraseDups_concat (ks : List κ) (k : κ) :
    (ks ++ [k]).eraseDups = if k ∈ ks then ks.eraseDups else ks.eraseDups ++ [k] := by
  rw [List.eraseDups_append]
  by_cases h : k ∈ ks <;> simp [List.removeAll, List.eraseDups_cons, h]

/-- A list of different elements is its own list of first occurrences. -/
theorem eraseDups_of_nodup {ks : List κ} (h : ks.Nodup) : ks.eraseDups = ks := by
  induction ks with
  | nil => rfl
  | cons k ks ih =>
      obtain ⟨hk, hks⟩ := List.nodup_cons.mp h
      have hfilter : (ks.filter fun l => !l == k) = ks := by
        refine List.filter_eq_self.mpr fun l hl => ?_
        simpa using fun hlk : l = k => hk (hlk ▸ hl)
      rw [List.eraseDups_cons, hfilter, ih hks]

/-- Keys that are new come last, in the order in which each is written first. -/
theorem keys_insertAll (m : OrderedMap κ α) (es : List (κ × α)) :
    (m.insertAll es).keys = m.keys ++ (es.map Prod.fst).eraseDups.filter fun k => k ∉ m.keys := by
  obtain ⟨rs, rfl⟩ : ∃ rs : List (κ × α), es = rs.reverse := ⟨es.reverse, es.reverse_reverse.symm⟩
  induction rs with
  | nil => exact (List.append_nil _).symm
  | cons e rs ih =>
      have hmem : e.1 ∈ (m.insertAll rs.reverse).keys
          ↔ e.1 ∈ m.keys ∨ e.1 ∈ rs.reverse.map Prod.fst := by
        rw [ih, List.mem_append, List.mem_filter, List.mem_eraseDups, decide_eq_true_eq]
        exact ⟨Or.imp_right And.left, fun h => (Decidable.em (e.1 ∈ m.keys)).imp_right fun hm =>
          ⟨h.resolve_left hm, hm⟩⟩
      rw [List.reverse_cons, insertAll_concat, keys_insert, List.map_append, List.map_singleton,
        eraseDups_concat]
      by_cases hrs : e.1 ∈ rs.reverse.map Prod.fst
      · rw [if_pos (hmem.mpr (Or.inr hrs)), if_pos hrs, ih]
      rw [if_neg hrs, List.filter_append, ← List.append_assoc, ← ih]
      by_cases hm : e.1 ∈ m.keys
      · rw [if_pos (hmem.mpr (Or.inl hm))]
        simp [hm]
      · rw [if_neg fun h => (hmem.mp h).elim hm hrs]
        simp [hm]

/-- Of several entries for a key the last one counts. -/
theorem get?_ofList (es : List (κ × α)) (k : κ) : (ofList es).get? k = lookup k es.reverse := by
  rw [ofList, get?_insertAll, get?_empty, Option.or_none]

/-- The keys of a list of entries stand where they first occur. -/
theorem keys_ofList (es : List (κ × α)) :
    (ofList es).keys = (es.map Prod.fst).eraseDups := by
  rw [ofList, keys_insertAll, keys_empty, List.nil_append]
  exact List.filter_eq_self.mpr fun k _ => decide_eq_true List.not_mem_nil

/-- The keys below come first, then those that only the map on top has. -/
theorem keys_overlay (m n : OrderedMap κ α) :
    (m.overlay n).keys = m.keys ++ n.keys.filter fun k => k ∉ m.keys := by
  rw [overlay, keys_insertAll, eraseDups_of_nodup n.nodup]
  rfl

/-- An overlay has the keys of both maps. -/
theorem mem_keys_overlay (m n : OrderedMap κ α) (k : κ) :
    k ∈ (m.overlay n).keys ↔ k ∈ m.keys ∨ k ∈ n.keys := by
  rw [keys_overlay, List.mem_append, List.mem_filter, decide_eq_true_eq]
  constructor
  · rintro (hm | ⟨hn, -⟩)
    · exact Or.inl hm
    · exact Or.inr hn
  · intro h
    by_cases hm : k ∈ m.keys
    · exact Or.inl hm
    · exact Or.inr ⟨h.resolve_left hm, hm⟩

/-- Among different keys striking one out leaves all other entries. -/
theorem strike_eq_filter {k : κ} {l : List (κ × α)} (hn : (l.map Prod.fst).Nodup) :
    strike k l = l.filter fun e => e.1 ≠ k := by
  induction l with
  | nil => rfl
  | cons e es ih =>
      have hn' := List.nodup_cons.mp hn
      unfold strike
      split
      · rename_i he
        subst he
        rw [List.filter_cons_of_neg (by simp)]
        refine (List.filter_eq_self.mpr fun x hx => ?_).symm
        exact decide_eq_true fun hxe => hn'.1 (hxe ▸ List.mem_map_of_mem hx)
      · rename_i he
        rw [List.filter_cons_of_pos (by simpa using he), ih hn'.2]

/-- An erasure leaves all other entries, in their order. -/
theorem toList_erase (m : OrderedMap κ α) (k : κ) :
    (m.erase k).toList = m.toList.filter fun e => e.1 ≠ k :=
  strike_eq_filter m.nodup

/-- A new key is written at the end. -/
theorem write_of_not_mem {k : κ} {v : α} {l : List (κ × α)} (h : k ∉ l.map Prod.fst) :
    write k v l = l ++ [(k, v)] := by
  induction l with
  | nil => rfl
  | cons e es ih =>
      simp only [List.map_cons, List.mem_cons, not_or] at h
      rw [write, if_neg (Ne.symm h.1), ih h.2, List.cons_append]

/-- A new key is inserted at the end. -/
theorem toList_insert_of_not_mem {m : OrderedMap κ α} {k : κ} (h : k ∉ m.keys) (v : α) :
    (m.insert k v).toList = m.toList ++ [(k, v)] :=
  write_of_not_mem h

/-- Writing what is there changes nothing. -/
theorem write_of_lookup {k : κ} {v : α} {l : List (κ × α)} (h : lookup k l = some v) :
    write k v l = l := by
  induction l with
  | nil => cases h
  | cons e es ih =>
      rw [lookup] at h
      rw [write]
      split at h
      · rename_i he
        cases h
        rw [if_pos he, ← he]
      · rename_i he
        rw [if_neg he, ih h]

/-- Writing what is there changes nothing. -/
theorem insert_of_get? {m : OrderedMap κ α} {k : κ} {v : α} (h : m.get? k = some v) :
    m.insert k v = m :=
  ext_toList (write_of_lookup h)

/-- A value after writing is the one written or one there was. -/
theorem mem_values_write {k : κ} {v x : α} {l : List (κ × α)}
    (h : x ∈ (write k v l).map Prod.snd) : x = v ∨ x ∈ l.map Prod.snd := by
  induction l with
  | nil => exact Or.inl (List.mem_singleton.mp h)
  | cons e es ih =>
      rw [write] at h
      split at h
      · rcases List.mem_cons.mp h with h | h
        · exact Or.inl h
        · exact Or.inr (List.mem_cons_of_mem _ h)
      · rcases List.mem_cons.mp h with h | h
        · exact Or.inr (List.mem_cons.mpr (Or.inl h))
        · exact (ih h).imp_right (List.mem_cons_of_mem _)

/-- A value after an insertion is the one inserted or one there was. -/
theorem mem_values_insert {m : OrderedMap κ α} {k : κ} {v x : α} (h : x ∈ (m.insert k v).values) :
    x = v ∨ x ∈ m.values :=
  mem_values_write h

/-- A value after an erasure is one there was. -/
theorem mem_values_erase {m : OrderedMap κ α} {k : κ} {x : α} (h : x ∈ (m.erase k).values) :
    x ∈ m.values :=
  ((sublist_strike k m.toList).map Prod.snd).mem h

/-! ## Other values under the same keys -/

section

variable {β : Type} (φ : α → β)

omit [DecidableEq κ] in
/-- Changing values keeps the keys different. -/
theorem nodup_map (m : OrderedMap κ α) :
    ((m.toList.map fun e => (e.1, φ e.2)).map Prod.fst).Nodup := by
  rw [List.map_map]
  exact m.nodup

/-- The map with other values under its keys. -/
def map (m : OrderedMap κ α) : OrderedMap κ β :=
  ⟨m.toList.map fun e => (e.1, φ e.2), m.nodup_map φ⟩

omit [DecidableEq κ] in
/-- The values of a mapped map are the mapped values. -/
theorem values_map (m : OrderedMap κ α) : (m.map φ).values = m.values.map φ := by
  rw [values, values, map, List.map_map, List.map_map]
  rfl

omit [DecidableEq κ] in
/-- A mapped map is empty when the map is. -/
theorem isEmpty_map (m : OrderedMap κ α) : (m.map φ).isEmpty = m.isEmpty := by
  rw [isEmpty, isEmpty, map, List.isEmpty_map]

/-- Looking up commutes with changing values. -/
theorem lookup_map (k : κ) (l : List (κ × α)) :
    lookup k (l.map fun e => (e.1, φ e.2)) = (lookup k l).map φ := by
  induction l with
  | nil => rfl
  | cons e es ih =>
      rw [List.map_cons, lookup, lookup]
      by_cases h : e.1 = k
      · rw [if_pos h, if_pos h]
        rfl
      · rw [if_neg h, if_neg h, ih]

/-- The value under a key is mapped. -/
theorem get?_map (m : OrderedMap κ α) (k : κ) : (m.map φ).get? k = (m.get? k).map φ :=
  lookup_map φ k m.toList

/-- Writing commutes with changing values. -/
theorem write_map (k : κ) (v : α) (l : List (κ × α)) :
    write k (φ v) (l.map fun e => (e.1, φ e.2)) = (write k v l).map fun e => (e.1, φ e.2) := by
  induction l with
  | nil => rfl
  | cons e es ih =>
      rw [List.map_cons, write, write]
      by_cases h : e.1 = k
      · rw [if_pos h, if_pos h]
        rfl
      · rw [if_neg h, if_neg h, ih]
        rfl

/-- Striking out commutes with changing values. -/
theorem strike_map (k : κ) (l : List (κ × α)) :
    strike k (l.map fun e => (e.1, φ e.2)) = (strike k l).map fun e => (e.1, φ e.2) := by
  induction l with
  | nil => rfl
  | cons e es ih =>
      rw [List.map_cons, strike, strike]
      by_cases h : e.1 = k
      · rw [if_pos h, if_pos h]
      · rw [if_neg h, if_neg h, ih]
        rfl

/-- Inserting commutes with changing values. -/
theorem insert_map (m : OrderedMap κ α) (k : κ) (v : α) :
    (m.map φ).insert k (φ v) = (m.insert k v).map φ :=
  ext_toList (write_map φ k v m.toList)

/-- Erasing commutes with changing values. -/
theorem erase_map (m : OrderedMap κ α) (k : κ) : (m.map φ).erase k = (m.erase k).map φ :=
  ext_toList (strike_map φ k m.toList)

end

/-! ## The same values under other keys -/

section

variable {ν : Type} {φ : κ → ν} (hφ : Function.Injective φ)

omit [DecidableEq κ] in
include hφ in
/-- Keys that are renamed one to one stay different. -/
theorem nodup_mapKeys (m : OrderedMap κ α) :
    ((m.toList.map fun e => (φ e.1, e.2)).map Prod.fst).Nodup := by
  have hkeys : (m.toList.map fun e => (φ e.1, e.2)).map Prod.fst
      = (m.toList.map Prod.fst).map φ := by
    rw [List.map_map, List.map_map]
    rfl
  rw [hkeys]
  exact List.Pairwise.map φ (fun a b hab e => hab (hφ e)) m.nodup

/-- The map with its values under other keys. -/
def mapKeys (m : OrderedMap κ α) : OrderedMap ν α :=
  ⟨m.toList.map fun e => (φ e.1, e.2), m.nodup_mapKeys hφ⟩

omit [DecidableEq κ] in
/-- Renaming keys leaves the values. -/
theorem values_mapKeys (m : OrderedMap κ α) : (m.mapKeys hφ).values = m.values := by
  rw [values, values, mapKeys, List.map_map]
  rfl

variable [DecidableEq ν]

include hφ in
/-- Looking up commutes with renaming keys. -/
theorem lookup_mapKeys (k : κ) (l : List (κ × α)) :
    lookup (φ k) (l.map fun e => (φ e.1, e.2)) = lookup k l := by
  induction l with
  | nil => rfl
  | cons e es ih =>
      rw [List.map_cons, lookup, lookup]
      by_cases h : e.1 = k
      · rw [if_pos (congrArg φ h), if_pos h]
      · rw [if_neg fun he => h (hφ he), if_neg h, ih]

/-- The value under a renamed key is that under the key. -/
theorem get?_mapKeys (m : OrderedMap κ α) (k : κ) : (m.mapKeys hφ).get? (φ k) = m.get? k :=
  lookup_mapKeys hφ k m.toList

include hφ in
/-- Writing commutes with renaming keys. -/
theorem write_mapKeys (k : κ) (v : α) (l : List (κ × α)) :
    write (φ k) v (l.map fun e => (φ e.1, e.2)) = (write k v l).map fun e => (φ e.1, e.2) := by
  induction l with
  | nil => rfl
  | cons e es ih =>
      rw [List.map_cons, write, write]
      by_cases h : e.1 = k
      · rw [if_pos (congrArg φ h), if_pos h]
        rfl
      · rw [if_neg fun he => h (hφ he), if_neg h, ih]
        rfl

include hφ in
/-- Striking out commutes with renaming keys. -/
theorem strike_mapKeys (k : κ) (l : List (κ × α)) :
    strike (φ k) (l.map fun e => (φ e.1, e.2)) = (strike k l).map fun e => (φ e.1, e.2) := by
  induction l with
  | nil => rfl
  | cons e es ih =>
      rw [List.map_cons, strike, strike]
      by_cases h : e.1 = k
      · rw [if_pos (congrArg φ h), if_pos h]
      · rw [if_neg fun he => h (hφ he), if_neg h, ih]
        rfl

/-- Inserting commutes with renaming keys. -/
theorem insert_mapKeys (m : OrderedMap κ α) (k : κ) (v : α) :
    (m.mapKeys hφ).insert (φ k) v = (m.insert k v).mapKeys hφ :=
  ext_toList (write_mapKeys hφ k v m.toList)

/-- Erasing commutes with renaming keys. -/
theorem erase_mapKeys (m : OrderedMap κ α) (k : κ) :
    (m.mapKeys hφ).erase (φ k) = (m.erase k).mapKeys hφ :=
  ext_toList (strike_mapKeys hφ k m.toList)

end

end OrderedMap

end TestLauncher
