import TestLauncher.Collection.OrderedMap
import TestLauncher.Collection.StringSet
import TestLauncher.Fault
import TestLauncher.Text.Blank

/-! # Configuration parameters

    The parameters handed to engines are two maps of texts: what a request sets, over
    defaults.  `asMap` is the one map they amount to, defaults first; every other view
    (`get`, `contains`, `keys`, `size`) answers as that map would. -/

namespace TestLauncher

/-- Whether two maps have the same entries, in whatever order. -/
def OrderedMap.sameEntries {κ α : Type} [DecidableEq κ] [DecidableEq α]
    (m n : OrderedMap κ α) : Bool :=
  m.size == n.size && m.toList.all fun e => decide (n.get? e.1 = some e.2)

namespace OrderedMap

variable {κ α : Type} [DecidableEq κ] {m n : OrderedMap κ α}

omit [DecidableEq κ] in
theorem length_keys (m : OrderedMap κ α) : m.keys.length = m.size :=
  List.length_map ..

/-- What is found in one map and in another as well is among the keys of both. -/
theorem keys_subset (h : ∀ k v, m.get? k = some v → n.get? k = some v) : m.keys ⊆ n.keys := by
  intro k hk
  obtain ⟨v, hv⟩ := (m.mem_keys_iff k).mp hk
  exact (n.mem_keys_iff k).mpr ⟨v, h k v hv⟩

/-- Maps have the same entries exactly when every look-up finds the same in both. -/
theorem sameEntries_iff [DecidableEq α] :
    m.sameEntries n = true ↔ ∀ k, m.get? k = n.get? k := by
  have hentries : (m.toList.all fun e => decide (n.get? e.1 = some e.2)) = true
      ↔ ∀ k v, m.get? k = some v → n.get? k = some v := by
    simp only [List.all_eq_true, decide_eq_true_eq, Prod.forall, get?_eq_some_iff]
  rw [sameEntries, Bool.and_eq_true, beq_iff_eq, hentries, ← length_keys, ← length_keys]
  constructor
  · rintro ⟨hsize, hfound⟩ k
    cases hm : m.get? k with
    | some v => exact (hfound k v hm).symm
    | none =>
        refine ((n.get?_eq_none_iff k).mpr fun hk => ?_).symm
        -- with this key the second map would have one more than the first
        have hnew : (k :: m.keys).Nodup :=
          List.nodup_cons.mpr ⟨(m.get?_eq_none_iff k).mp hm, m.nodup⟩
        have hsub : k :: m.keys ⊆ n.keys := List.cons_subset.mpr ⟨hk, keys_subset hfound⟩
        have hlen := hnew.length_le_of_subset hsub
        rw [List.length_cons] at hlen
        omega
  · intro h
    have hfound : ∀ k v, m.get? k = some v → n.get? k = some v := fun k v hv => h k ▸ hv
    have hback : ∀ k v, n.get? k = some v → m.get? k = some v := fun k v hv => h k ▸ hv
    have hle := List.Nodup.length_le_of_subset m.nodup (keys_subset hfound)
    have hge := List.Nodup.length_le_of_subset n.nodup (keys_subset hback)
    exact ⟨Nat.le_antisymm hle hge, hfound⟩

end OrderedMap

/-- Text parameters with defaults. -/
structure Parameters where
  /-- What was set. -/
  explicit : OrderedMap String String := ∅
  /-- What holds where nothing was set. -/
  defaults : OrderedMap String String := ∅

namespace Parameters

instance : EmptyCollection Parameters where
  emptyCollection := {}

/-- The words for true. -/
def trueWords : List String := ["true", "1", "yes", "on"]

/-- The words for false. -/
def falseWords : List String := ["false", "0", "no", "off"]

/-- The truth value a text stands for, whatever the case of its letters and the white space
around it. -/
def readBool? (text : String) : Option Bool :=
  let word := (Text.trim text).map Char.toLower
  if word ∈ trueWords then some true
  else if word ∈ falseWords then some false
  else none

/-- The value under a key: what was set, else the default, else the given fallback. -/
def get (p : Parameters) (key : String) (fallback : Option String) : Except Fault (Option String) :=
  if Text.isBlank key then refuse .blankLookupKey
  else .ok ((p.explicit.get? key).or ((p.defaults.get? key).or fallback))

/-- The value under a key, read as a truth value. -/
def getBool (p : Parameters) (key : String) (fallback : Option Bool) :
    Except Fault (Option Bool) := do
  match ← p.get key none with
  | none => return fallback
  | some text =>
    match readBool? text with
    | some b => return some b
    | none => refuse (.notBoolean key text)

/-- The one map the parameters amount to: the defaults, overlaid by what was set. -/
def asMap (p : Parameters) : OrderedMap String String := p.defaults.overlay p.explicit

/-- The keys with a value. -/
def keys (p : Parameters) : StringSet :=
  StringSet.ofList (p.defaults.keys ++ p.explicit.keys)

/-- Whether a key has a value. -/
def contains (p : Parameters) (key : String) : Bool :=
  p.explicit.contains key || p.defaults.contains key

/-- The number of keys with a value. -/
def size (p : Parameters) : Nat := p.keys.size

/-- Parameters are the same when they amount to the same entries. -/
def same (p q : Parameters) : Bool := p.asMap.sameEntries q.asMap

/-- The written form of parameters. -/
def shown (p : Parameters) : String :=
  "ConfigurationParameters(" ++ Text.quotePairs p.asMap.toList ++ ")"

theorem get?_asMap (p : Parameters) (key : String) :
    p.asMap.get? key = (p.explicit.get? key).or (p.defaults.get? key) :=
  OrderedMap.get?_overlay ..

@[simp] theorem mem_keys (p : Parameters) (key : String) :
    key ∈ p.keys ↔ key ∈ p.defaults.keys ∨ key ∈ p.explicit.keys := by
  simp [keys]

theorem contains_iff_mem_keys (p : Parameters) (key : String) :
    p.contains key = true ↔ key ∈ p.keys := by
  simp [contains, or_comm]

end Parameters

end TestLauncher
