import TestLauncher.Parameters

/-! # Parameters as one map

    Parameters are two maps, what was set and the defaults, and each question finds its own
    way through the two: a look-up tries one and then the other, a test for a key is content
    with either, and the keys are those of both, gathered in a set that lists them in order.
    All the same the answers are those of one map, the defaults overlaid by what was set.

    Comparing goes by that map too (`same_iff`), so it cannot tell where a value comes from,
    and neither can a look-up.  A look-up refuses a blank key, however: what there is under
    one shows when parameters are compared or gone through, but not when they are asked.  So
    it takes parameters without blank keys for the answers to decide whether they are the
    same (`views_of_one_map`). -/

namespace TestLauncher.Parameters

variable {p q : Parameters} {key : String}

/-- Whether all there is can be asked for: no key is blank, be it set or a default. -/
def Askable (p : Parameters) : Prop :=
  ∀ key ∈ p.explicit.keys ++ p.defaults.keys, Text.isBlank key = false

instance : DecidablePred Askable := fun p =>
  inferInstanceAs (Decidable (∀ key ∈ p.explicit.keys ++ p.defaults.keys, _))

/-! ## One at a time -/

theorem get_eq_ok (p : Parameters) (hkey : Text.isBlank key = false) (fallback : Option String) :
    p.get key fallback = .ok ((p.asMap.get? key).or fallback) := by
  rw [get, if_neg (by rw [hkey]; exact Bool.false_ne_true), get?_asMap, Option.or_assoc]

/-- Whatever the parameters, a blank key is refused. -/
theorem get_eq_refuse (p : Parameters) (hkey : Text.isBlank key = true)
    (fallback : Option String) : p.get key fallback = refuse .blankLookupKey := by
  rw [get, if_pos hkey]

theorem mem_keys_iff_asMap (p : Parameters) (key : String) :
    key ∈ p.keys ↔ key ∈ p.asMap.keys := by
  rw [mem_keys, asMap, OrderedMap.mem_keys_overlay]

theorem keys_perm_asMap (p : Parameters) : p.keys.toList.Perm p.asMap.keys :=
  StringSet.perm_toList p.asMap.nodup p.mem_keys_iff_asMap

theorem Askable.not_blank (hp : p.Askable) (hkey : key ∈ p.asMap.keys) :
    Text.isBlank key = false := by
  rw [asMap, OrderedMap.mem_keys_overlay, or_comm] at hkey
  exact hp key (List.mem_append.mpr hkey)

/-! ## Two compared -/

theorem same_iff : p.same q = true ↔ ∀ key, p.asMap.get? key = q.asMap.get? key :=
  OrderedMap.sameEntries_iff

/-- Parameters that are the same have the same keys. -/
theorem keys_eq_of_same (h : p.same q = true) : p.keys = q.keys := by
  refine StringSet.ext_mem fun key => ?_
  rw [mem_keys_iff_asMap, mem_keys_iff_asMap, OrderedMap.mem_keys_iff, OrderedMap.mem_keys_iff,
    same_iff.mp h key]

/-- Parameters that are the same answer alike, and refuse alike. -/
theorem get_eq_of_same (h : p.same q = true) (key : String) (fallback : Option String) :
    p.get key fallback = q.get key fallback := by
  cases hkey : Text.isBlank key with
  | true => rw [get_eq_refuse p hkey, get_eq_refuse q hkey]
  | false => rw [get_eq_ok p hkey, get_eq_ok q hkey, same_iff.mp h key]

/-- Without a fallback the answer is what there is under the key, or that there is nothing. -/
theorem get?_eq_of_get (hkey : Text.isBlank key = false) (h : p.get key none = q.get key none) :
    p.asMap.get? key = q.asMap.get? key := by
  rw [get_eq_ok p hkey, get_eq_ok q hkey, Option.or_none, Option.or_none] at h
  exact Except.ok.inj h

/-- Under a blank key there is nothing where all can be asked for. -/
theorem Askable.get?_of_blank (hp : p.Askable) (hkey : Text.isBlank key = true) :
    p.asMap.get? key = none := by
  refine (p.asMap.get?_eq_none_iff key).mpr fun hmem => ?_
  rw [hp.not_blank hmem] at hkey
  exact Bool.false_ne_true hkey

/-- Askable parameters that answer alike are the same. -/
theorem same_of_get (hp : p.Askable) (hq : q.Askable)
    (h : ∀ key, Text.isBlank key = false → p.get key none = q.get key none) :
    p.same q = true := by
  refine same_iff.mpr fun key => ?_
  cases hkey : Text.isBlank key with
  | true => rw [hp.get?_of_blank hkey, hq.get?_of_blank hkey]
  | false => exact get?_eq_of_get hkey (h key hkey)

/-- Askable parameters that list the same keys, with the same values, are the same. -/
theorem same_of_listed (hp : p.Askable) (hkeys : p.keys.toList = q.keys.toList)
    (h : ∀ key ∈ p.keys.toList, p.get key none = q.get key none) : p.same q = true := by
  refine same_iff.mpr fun key => ?_
  have hmem : key ∈ p.asMap.keys ↔ key ∈ q.asMap.keys := by
    rw [← p.keys_perm_asMap.mem_iff, hkeys, q.keys_perm_asMap.mem_iff]
  by_cases hkey : key ∈ p.asMap.keys
  · exact get?_eq_of_get (hp.not_blank hkey) (h key (p.keys_perm_asMap.mem_iff.mpr hkey))
  · rw [(p.asMap.get?_eq_none_iff key).mpr hkey,
      (q.asMap.get?_eq_none_iff key).mpr (mt hmem.mpr hkey)]

/-- **One map, many views.**  Asked for a key that is not blank, parameters answer with what their
    one map has under it, or else with the fallback.  They contain the keys of this map; going
    through them yields these keys, each of them once, strictly increasing by code point; and their
    size is the number of these keys.  Parameters of which no key is blank are the same exactly when
    they answer alike for every key that is not blank, with any fallback or with none; and exactly
    when they list the same keys, with the same values.  In all of this it does not matter which
    entries were set and which are defaults. -/
theorem views_of_one_map (p q : Parameters) :
    (∀ key fallback, Text.isBlank key = false →
      p.get key fallback = .ok ((p.asMap.get? key).or fallback)) ∧
    (∀ key, p.contains key = true ↔ key ∈ p.asMap.keys) ∧
    p.keys.toList.Perm p.asMap.keys ∧
    (p.keys.toList.map Text.codePoints).Pairwise (· < ·) ∧
    p.size = p.asMap.keys.length ∧
    (p.Askable → q.Askable →
      (p.same q = true ↔ ∀ key fallback, Text.isBlank key = false →
        p.get key fallback = q.get key fallback) ∧
      (p.same q = true ↔ ∀ key, Text.isBlank key = false → p.get key none = q.get key none) ∧
      (p.same q = true ↔ p.keys.toList = q.keys.toList ∧
        ∀ key ∈ p.keys.toList, p.get key none = q.get key none)) := by
  refine ⟨fun key fallback hkey => p.get_eq_ok hkey fallback, fun key => ?_, p.keys_perm_asMap,
    p.keys.sorted_codePoints, p.keys_perm_asMap.length_eq, fun hp hq => ⟨?_, ?_, ?_⟩⟩
  · rw [contains_iff_mem_keys, mem_keys_iff_asMap]
  · constructor
    · intro h key fallback _
      exact get_eq_of_same h key fallback
    · intro h
      exact same_of_get hp hq fun key hkey => h key none hkey
  · constructor
    · intro h key _
      exact get_eq_of_same h key none
    · exact same_of_get hp hq
  · constructor
    · intro h
      exact ⟨congrArg StringSet.toList (keys_eq_of_same h), fun key _ => get_eq_of_same h key none⟩
    · rintro ⟨hkeys, h⟩
      exact same_of_listed hp hkeys h

/-- Three entries, one of which overrules a default. -/
def overruling : Parameters where
  explicit := .ofList [("local", "1"), ("Local", "2")]
  defaults := .ofList [("shared", "x"), ("local", "0")]

/-- The same entries with defaults for what was set, and the other way round. -/
def crossed : Parameters where
  explicit := .ofList [("shared", "x")]
  defaults := .ofList [("Local", "2"), ("local", "1")]

/-- Entries set and entries left to the defaults, once this way and once the other. -/
theorem views_of_one_map_crossed :
    Text.isBlank "local" = false ∧ overruling.get "local" (some "9") = .ok (some "1") ∧
    overruling.Askable ∧ crossed.Askable ∧ overruling.same crossed = true ∧
    (∀ key fallback, Text.isBlank key = false →
      overruling.get key fallback = crossed.get key fallback) ∧
    overruling.keys.toList = crossed.keys.toList := by
  obtain ⟨hget, -, -, -, -, hsame⟩ := views_of_one_map overruling crossed
  have hblank : Text.isBlank "local" = false := by decide
  have hp : overruling.Askable := by decide
  have hq : crossed.Askable := by decide
  have hentries : overruling.same crossed = true := by decide
  obtain ⟨hanswers, -, hlisted⟩ := hsame hp hq
  have hvalue : overruling.asMap.get? "local" = some "1" := by decide
  refine ⟨hblank, ?_, hp, hq, hentries, hanswers.mp hentries, (hlisted.mp hentries).1⟩
  rw [hget "local" (some "9") hblank, hvalue]
  rfl

end TestLauncher.Parameters
