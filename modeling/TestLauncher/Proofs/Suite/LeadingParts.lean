import Mathlib.Order.Bounds.Basic
import TestLauncher.Proofs.Suite.Lookups

/-! # The leading part that decides

    A dotted class name may be parted in many ways into a module and attributes.  The
    module is the longest leading part that can be imported, and nothing before it in
    length is tried: what that module comes to decides, whether it is found to have the
    class, to lack it, or to be broken (`ModuleTable.longest_part_decides`).  That leading
    parts which cannot be imported were asked for first shows in nothing but what is
    loaded, and no import depends on that. -/

namespace TestLauncher

namespace ModuleTable

variable {table : ModuleTable} {name : String} {s : ModuleStore} {scope : Namespace}

/-- The import of a module says that the module cannot be imported. -/
def Lacks (table : ModuleTable) (name : String) : Prop :=
  ∃ f, table.outcome name = .error f ∧ f.kind.isImport = true

theorem Sound.afterLoading (hs : table.Sound s) (names : List String) :
    table.Sound (table.afterLoading names s) := by
  induction names generalizing s with
  | nil => exact hs
  | cons name names ih => exact ih (hs.on_load name).1

end ModuleTable

namespace MarkedSuites

variable {table : ModuleTable} {name module : String} {s : Journal × MarkedSuites}
  {scope : Namespace} {attributes : List String} {rest : List (String × List String)} {f : Fault}

/-! ## The module that decides -/

/-- The line about a class that is not there. -/
def unknownLine (name : String) : LogRecord :=
  LogLevel.debug.record logger <|
    "Could not import class '" ++ name ++ "'; not treating it as a suite."

/-- What a module that can be imported makes of a class: the suite it is, if any, and the line
    that is written about it, if any. -/
def verdict (table : ModuleTable) (name module : String) (attributes : List String) :
    Except Fault (Option SuiteDeclaration) × Option LogRecord :=
  match table.outcome module with
  | .error f => if f.escapes then (.error f, none) else (.ok none, some (brokenLine module f))
  | .ok scope =>
    match follow scope attributes with
    | none => (.ok none, some (unknownLine name))
    | some m => (.ok m.suite?, none)

/-- The journal with a line, if there is one. -/
def noting (line? : Option LogRecord) (j : Journal) : Journal := line?.elim j j.write

/-- A module that cannot be imported is passed over. -/
theorem lookInFirst_of_lacks (hs : table.Sound s.2.store) (h : table.Lacks module) :
    (lookInFirst table name ((module, attributes) :: rest)).on s
      = (lookInFirst table name rest).on (afterImporting table [module] s) := by
  obtain ⟨f, hf, himport⟩ := h
  rw [lookInFirst, on_importModule_bind fun _ => rfl, hs.load_eq_outcome, hf]
  exact if_pos himport

/-- The first that can be imported decides, and no other is asked for. -/
theorem lookInFirst_of_not_lacks (hs : table.Sound s.2.store) (h : ¬ table.Lacks module) :
    (lookInFirst table name ((module, attributes) :: rest)).on s
      = ((verdict table name module attributes).1,
          noting (verdict table name module attributes).2 s.1,
          (afterImporting table [module] s).2) := by
  rw [lookInFirst, on_importModule_bind fun _ => rfl, hs.load_eq_outcome, verdict]
  cases hout : table.outcome module with
  | ok scope =>
      dsimp only
      cases follow scope attributes <;> rfl
  | error f =>
      have himport : ¬ f.kind.isImport = true := fun himport => h ⟨f, hout, himport⟩
      dsimp only
      rw [if_neg himport]
      by_cases hescapes : f.escapes = true
      · rw [if_pos hescapes, if_pos hescapes]
        rfl
      · rw [if_neg hescapes, if_neg hescapes]
        rfl

/-- However many cannot be imported before it. -/
theorem lookInFirst_append (hs : table.Sound s.2.store) {absent : List (String × List String)}
    (h : ∀ place ∈ absent, table.Lacks place.1) (places : List (String × List String)) :
    (lookInFirst table name (absent ++ places)).on s
      = (lookInFirst table name places).on (afterImporting table (absent.map Prod.fst) s) := by
  induction absent generalizing s with
  | nil => rfl
  | cons place absent ih =>
      obtain ⟨hplace, habsent⟩ := List.forall_mem_cons.mp h
      have hsound : table.Sound (afterImporting table [place.1] s).2.store := hs.afterLoading _
      rw [List.cons_append, lookInFirst_of_lacks hs hplace, ih hsound habsent]
      rfl

/-- None of them can be imported. -/
theorem lookInFirst_of_all_lack (hs : table.Sound s.2.store)
    {places : List (String × List String)} (h : ∀ place ∈ places, table.Lacks place.1) :
    (lookInFirst table name places).on s = (.ok none, s.1.write (unknownLine name),
      (afterImporting table (places.map Prod.fst) s).2) := by
  have happend : (lookInFirst table name (places ++ [])).on s = _ := lookInFirst_append hs h []
  rw [List.append_nil] at happend
  rw [happend]
  rfl

/-- The first that can be imported, after some that cannot. -/
theorem lookInFirst_of_first (hs : table.Sound s.2.store) {absent : List (String × List String)}
    (habsent : ∀ place ∈ absent, table.Lacks place.1) (h : ¬ table.Lacks module) :
    (lookInFirst table name (absent ++ (module, attributes) :: rest)).on s
      = ((verdict table name module attributes).1,
          noting (verdict table name module attributes).2 s.1,
          (afterImporting table (absent.map Prod.fst ++ [module]) s).2) := by
  rw [lookInFirst_append hs habsent, lookInFirst_of_not_lacks (hs.afterLoading _) h,
    afterImporting_append]
  rfl

/-! ## Parts of a name -/

/-- The first components of a dotted name. -/
def leading (name : String) (k : Nat) : String := Text.ofComponents ((Text.components name).take k)

/-- The leading parts of a dotted name that have so many components and leave some, the longest
    first. -/
def leadingFrom (name : String) (k : Nat) : List String :=
  (List.range' k ((Text.components name).length - k)).reverse.map (leading name)

/-- The leading part of so many components, and the other components. -/
def place (name : String) (k : Nat) : String × List String :=
  (leading name k, (Text.components name).drop k)

theorem length_components_pos (name : String) : 0 < (Text.components name).length :=
  List.length_pos_of_ne_nil (by simp [Text.components, Text.splitChar_ne_nil])

theorem partings_eq (name : String) : partings name
    = (List.range' 1 ((Text.components name).length - 1)).reverse.map (place name) := by
  obtain ⟨n, hn⟩ : ∃ n, (Text.components name).length = n + 1 :=
    ⟨_, (Nat.succ_pred_eq_of_pos (length_components_pos name)).symm⟩
  have hmap : ∀ ks : List Nat, (∀ k ∈ ks, k ≠ 0) → ks.filterMap (fun k => if k = 0 then none
      else some (Text.ofComponents ((Text.components name).take k), (Text.components name).drop k))
        = ks.map (place name) := by
    intro ks hks
    rw [← List.filterMap_eq_map]
    refine List.filterMap_congr fun k hk => ?_
    rw [if_neg (hks k hk)]
    rfl
  rw [partings, hn, List.range_eq_range', List.range'_succ, List.reverse_cons,
    List.filterMap_append, hmap _ fun k hk => by
      rw [List.mem_reverse, List.mem_range'_1] at hk
      omega]
  simp

theorem map_fst_partings (name : String) : (partings name).map Prod.fst = leadingFrom name 1 := by
  rw [partings_eq, List.map_map]
  rfl

/-- The places to part a name, cut at one of them. -/
theorem partings_cut {k : Nat} (hk : 0 < k) (hlt : k < (Text.components name).length) :
    ∃ (longer : List Nat) (shorter : List (String × List String)), partings name
        = longer.map (place name) ++ (leading name k, (Text.components name).drop k) :: shorter ∧
      leadingFrom name k = (longer.map (place name)).map Prod.fst ++ [leading name k] ∧
      ∀ l ∈ longer, k < l ∧ l < (Text.components name).length := by
  obtain ⟨m, hm⟩ : ∃ m, (Text.components name).length = k + 1 + m :=
    ⟨_, (Nat.add_sub_of_le hlt).symm⟩
  have hsplit : List.range' 1 (k + 1 + m - 1)
      = List.range' 1 (k - 1) ++ k :: List.range' (k + 1) m := by
    have hsum : k + 1 + m - 1 = (k - 1) + (m + 1) := by omega
    rw [hsum, ← List.range'_append_1, Nat.add_sub_cancel' hk, List.range'_succ]
  have hlonger : List.range' k (k + 1 + m - k) = k :: List.range' (k + 1) m := by
    rw [show k + 1 + m - k = m + 1 by omega, List.range'_succ]
  refine ⟨(List.range' (k + 1) m).reverse, (List.range' 1 (k - 1)).reverse.map (place name),
    ?_, ?_, ?_⟩
  · rw [partings_eq, hm, hsplit]
    simp
    rfl
  · rw [leadingFrom, hm, hlonger, List.map_map]
    simp [Function.comp_def, place]
  · intro l hl
    rw [List.mem_reverse, List.mem_range'_1] at hl
    omega

/-! ## The suite of a class -/

/-- A class that is not remembered is looked for. -/
theorem suitesFor_of_new {name : Text.NonBlank} (hnew : s.2.classes.get? name.text = none)
    {result : Except Fault (Option SuiteDeclaration)} {j : Journal} {m : MarkedSuites}
    (h : (lookForClass table name.text).on s = (result, j, m)) :
    ((suitesFor table (.ofClass name)).on s).1 = result.map Option.toList ∧
      ((suitesFor table (.ofClass name)).on s).2.1 = j ∧
      ((suitesFor table (.ofClass name)).on s).2.2.store = m.store := by
  rw [on_suitesFor_ofClass, on_suiteOfClass, hnew, h]
  cases result <;> exact ⟨rfl, rfl, rfl⟩

end MarkedSuites

namespace ModuleStore

variable {module outer own owner : String} {scope : Namespace} {mark? : Option MarkSpec}
  {attributes : List (String × Member)} {m : Member} {s t : ModuleStore}

/-- The declaration that a class owes to its own mark. -/
def ownSuite? (module : String) (scope : Namespace) (owner outer own : String)
    (mark? : Option MarkSpec) : Option SuiteDeclaration :=
  mark?.bind fun mark => (markContent module scope mark).toOption.map fun c =>
    c.declaration owner (outer ++ own) own

theorem suite?_of_marked
    (h : (match mark? with
      | none => pure (.ofClass owner (outer ++ own) none attributes)
      | some mark => do
        let content ← Steps.ofExcept (markContent module scope mark)
        pure (.ofClass owner (outer ++ own) (some (content.declaration owner (outer ++ own) own))
          attributes) : Steps ModuleStore Member).on s = (.ok m, t)) :
    m.suite? = ownSuite? module scope owner outer own mark? := by
  cases mark? with
  | none =>
      cases h
      rfl
  | some mark =>
      obtain ⟨c, u, hc, h⟩ := Steps.on_bind_eq_ok h
      rw [Steps.on_ofExcept] at hc
      cases h
      rw [ownSuite?, Option.bind_some, (Prod.mk.inj hc).1]
      rfl

/-- A class is built with that declaration, and with none that its base has. -/
theorem suite?_of_build {load : String → Steps ModuleStore Namespace}
    {owner? base? : Option String} {members : List (String × MemberSpec)}
    (h : (build load module scope outer (.ofClass own owner? base? members mark?)).on s
      = (.ok m, t)) :
    m.suite? = ownSuite? module scope (owner?.getD module) outer own mark? := by
  rw [build] at h
  obtain ⟨inner, u, -, h⟩ := Steps.on_bind_eq_ok h
  simp only [pure_bind] at h
  cases base? with
  | none => exact suite?_of_marked h
  | some base =>
      obtain ⟨b, v, -, h⟩ := Steps.on_bind_eq_ok h
      exact suite?_of_marked h

end ModuleStore

open MarkedSuites in
/-- **The longest leading part that can be imported decides.**  Whatever was asked before, let a
    class be asked for that is not remembered.  If no leading part of its name can be imported, it
    is no suite, and one line says so.  Otherwise the leading parts are asked for from the longest
    on down to the longest that can be imported, and no shorter one.  If that one fails, its fault
    passes or one line tells of it and the class is no suite.  If it loads, the rest of the name is
    followed from there: where that leads nowhere, one line says so; a value is no suite, and a
    class is the suite it carries.  What a class carries is the declaration of its own mark,
    whatever class it inherits from. -/
theorem ModuleTable.longest_part_decides (table : ModuleTable) (name : Text.NonBlank)
    (before : List Selector) (j : Journal)
    (hnew : (afterAsking table before (j, ∅)).2.classes.get? name.text = none) :
    let s := afterAsking table before (j, ∅)
    let reply := ((suitesFor table (.ofClass name)).on s).1
    let t := ((suitesFor table (.ofClass name)).on s).2
    let parts := Text.components name.text
    (∀ names module, ((table.load module).on (table.afterLoading names s.2.store)).1
      = table.outcome module) ∧
    ((∀ k, 0 < k → k < parts.length → table.Lacks (leading name.text k)) →
      reply = .ok [] ∧ t.1 = s.1.write (unknownLine name.text) ∧
        t.2.store = table.afterLoading (leadingFrom name.text 1) s.2.store) ∧
    (∀ k, IsGreatest {k | 0 < k ∧ k < parts.length ∧ ¬ table.Lacks (leading name.text k)} k →
      t.2.store = table.afterLoading (leadingFrom name.text k) s.2.store ∧
      match table.outcome (leading name.text k) with
      | .error f =>
        if f.escapes then reply = .error f ∧ t.1 = s.1
        else reply = .ok [] ∧ t.1 = s.1.write (brokenLine (leading name.text k) f)
      | .ok scope =>
        match follow scope (parts.drop k) with
        | none => reply = .ok [] ∧ t.1 = s.1.write (unknownLine name.text)
        | some (.value _) => reply = .ok [] ∧ t.1 = s.1
        | some (.ofClass _ _ suite? _) => reply = .ok suite?.toList ∧ t.1 = s.1) ∧
    ∀ load module outer own scope owner? base? members mark? m u v,
      (ModuleStore.build load module scope outer (.ofClass own owner? base? members mark?)).on u
          = (.ok m, v) →
        m.suite? = ModuleStore.ownSuite? module scope (owner?.getD module) outer own mark? := by
  intro s reply t parts
  have hsound : table.Sound s.2.store := (settled_afterAsking table before j).store
  refine ⟨fun names module => (hsound.afterLoading names).load_eq_outcome module, ?_, ?_, ?_⟩
  · intro hnone
    have hall : ∀ p ∈ partings name.text, table.Lacks p.1 := by
      intro p hp
      rw [partings_eq] at hp
      obtain ⟨k, hk, rfl⟩ := List.mem_map.mp hp
      rw [List.mem_reverse, List.mem_range'_1] at hk
      have hlt : k < (Text.components name.text).length := by omega
      exact hnone k hk.1 hlt
    have hlook : (lookInFirst table name.text (partings name.text)).on s = _ :=
      lookInFirst_of_all_lack hsound hall
    rw [map_fst_partings] at hlook
    exact suitesFor_of_new hnew hlook
  · rintro k ⟨⟨hk, hlt, hpresent⟩, hgreatest⟩
    obtain ⟨longer, shorter, hcut, hfrom, hlonger⟩ := partings_cut hk hlt
    have habsent : ∀ p ∈ longer.map (place name.text), table.Lacks p.1 := by
      intro p hp
      obtain ⟨l, hl, rfl⟩ := List.mem_map.mp hp
      obtain ⟨hkl, hllt⟩ := hlonger l hl
      by_contra hlacks
      have hle : l ≤ k := hgreatest ⟨by omega, hllt, hlacks⟩
      omega
    have hlook : (lookInFirst table name.text (longer.map (place name.text)
          ++ (leading name.text k, (Text.components name.text).drop k) :: shorter)).on s = _ :=
      lookInFirst_of_first hsound habsent hpresent
    rw [← hfrom, ← hcut] at hlook
    obtain ⟨hreply, hline, hstore⟩ := suitesFor_of_new hnew hlook
    refine ⟨hstore, ?_⟩
    rw [verdict] at hreply hline
    cases hout : table.outcome (leading name.text k) with
    | error f =>
        rw [hout] at hreply hline
        dsimp only at hreply hline ⊢
        by_cases hescapes : f.escapes = true
        · rw [if_pos hescapes] at hreply hline ⊢
          exact ⟨hreply, hline⟩
        · rw [if_neg hescapes] at hreply hline ⊢
          exact ⟨hreply, hline⟩
    | ok scope =>
        rw [hout] at hreply hline
        dsimp only at hreply hline ⊢
        rcases hfollow : follow scope (parts.drop k) with _ | m
        · rw [hfollow] at hreply hline
          exact ⟨hreply, hline⟩
        · rw [hfollow] at hreply hline
          cases m <;> exact ⟨hreply, hline⟩
  · intro load module outer own scope owner? base? members mark? m u v h
    exact ModuleStore.suite?_of_build h

/-- A module with a suite and, in a class, one without a mark that inherits from it.  A second
    module, named like that class, cannot be imported. -/
def ModuleTable.halfway : ModuleTable := OrderedMap.ofList [
  ("p.q", .error (.raised .importing (some "no"))),
  ("p", .ok [("S", .ofClass "S" none none [] (some ⟨[.named "p.C"], {}⟩)),
    ("q", .ofClass "q" none none [("T", .ofClass "T" none (some "S") [] none)] none)])]

open MarkedSuites in
/-- The class that inherits is found in the module, past the one that cannot be imported, and is no
    suite, though its base is one that was just asked for.  Nothing is written. -/
theorem ModuleTable.longest_part_decides_halfway :
    let base : Text.NonBlank := ⟨"p.S", by decide⟩
    let name : Text.NonBlank := ⟨"p.q.T", by decide⟩
    ((afterAsking halfway [.ofClass base] (∅, ∅)).2.classes.get? "p.q.T" = none ∧
      IsGreatest {k | 0 < k ∧ k < 3 ∧ ¬ halfway.Lacks (leading "p.q.T" k)} 1) ∧
    ((suitesFor halfway (.ofClass base)).on (∅, ∅)).1.toOption.map List.length = some 1 ∧
    ((suitesFor halfway (.ofClass name)).on (afterAsking halfway [.ofClass base] (∅, ∅))).1
      = .ok [] ∧
    ((suitesFor halfway (.ofClass name)).on (afterAsking halfway [.ofClass base] (∅, ∅))).2.1
      = (afterAsking halfway [.ofClass base] (∅, ∅)).1 ∧
    ((suitesFor halfway (.ofClass name)).on (afterAsking halfway [.ofClass base] (∅, ∅))).2.2.store
      = halfway.afterLoading ["p.q", "p"]
          (afterAsking halfway [.ofClass base] (∅, ∅)).2.store := by
  intro base name
  have hnew : (afterAsking halfway [.ofClass base] (∅, ∅)).2.classes.get? "p.q.T" = none := by
    decide +kernel
  obtain ⟨scope, hscope, hfollow⟩ : ∃ scope, halfway.outcome "p" = .ok scope ∧
      follow scope ["q", "T"] = some (.ofClass "p" "q.T" none []) := ⟨_, rfl, rfl⟩
  have hcomponents : Text.components name.text = ["p", "q", "T"] := by decide +kernel
  have hpart : leading name.text 1 = "p" := by decide +kernel
  have hgreatest : IsGreatest {k | 0 < k ∧ k < 3 ∧ ¬ halfway.Lacks (leading name.text k)} 1 := by
    constructor
    · refine ⟨by decide, by decide, ?_⟩
      rintro ⟨f, hf, -⟩
      rw [hpart, hscope] at hf
      cases hf
    · rintro k ⟨hk, hlt, hpresent⟩
      by_contra hle
      obtain rfl : k = 2 := by omega
      refine hpresent ⟨.raised .importing (some "no"), ?_, rfl⟩
      have hlonger : leading name.text 2 = "p.q" := by decide +kernel
      rw [hlonger]
      rfl
  obtain ⟨-, -, hdecides, -⟩ := longest_part_decides halfway name [.ofClass base] ∅ hnew
  obtain ⟨hstore, hreply⟩ := hdecides 1 (by rw [hcomponents]; exact hgreatest)
  have htried : leadingFrom name.text 1 = ["p.q", "p"] := by decide +kernel
  rw [htried] at hstore
  rw [hpart, hscope, hcomponents] at hreply
  dsimp only [List.drop] at hreply
  rw [hfollow] at hreply
  exact ⟨⟨hnew, hgreatest⟩, by decide +kernel, hreply.1, hreply.2, hstore⟩

end TestLauncher
