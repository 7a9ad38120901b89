import Mathlib.Data.Finset.Card
import TestLauncher.Proofs.Suite.Marks

/-! # What a module comes to

    What a module is built from may be loaded already or have to be built first, and a
    module that fails leaves behind the ones it asked for.  None of that shows in how a
    module ends: from every store that was filled by loading it comes to the same members,
    or to the same fault (`Sound.load_eq_outcome`).  Those it comes to are the ones it has
    when nothing is loaded (`fresh`, `Sound.on_load`).

    Both directions are one statement about two ways to load (`Leads`): where the first
    tells what it comes to, the second comes to that.  Building a module carries it from the
    modules it asks for to the module itself.  The one fault that tells nothing is that there
    was not depth enough.  That the depth allowed is enough is counted: as long as more depth
    lets more modules tell, there are at least as many modules as
    levels (`freshFrom_of_tells`). -/

namespace TestLauncher

/-! ## Two ways to load -/

section

variable {α β : Type} {tells : Fault → Bool} {I I' : ModuleStore → Prop} {P : α → Prop}
  {Q : β → Prop} {a a' : Steps ModuleStore α}

/-- Whether a result tells something: a value does, and of the faults those that count. -/
def Tells (tells : Fault → Bool) : Except Fault α → Bool
  | .ok _ => true
  | .error f => tells f

/-- Steps that keep a property of stores, and what they come to has a property; and where they end
    with something that tells, other steps end with it as well, which keep a property of their
    own. -/
def Leads (tells : Fault → Bool) (I I' : ModuleStore → Prop) (P : α → Prop)
    (a a' : Steps ModuleStore α) : Prop :=
  ∀ s, I s → I (a.on s).2 ∧ (∀ v, (a.on s).1 = .ok v → P v) ∧
    (Tells tells (a.on s).1 = true → ∀ t, I' t → ∃ t', a'.on t = ((a.on s).1, t') ∧ I' t')

/-- Ending with a value that is as it should be. -/
theorem Leads.pure {v : α} (hv : P v) : Leads tells I I' P (pure v) (pure v) := by
  intro s hs
  refine ⟨hs, fun w hw => ?_, fun _ t ht => ⟨t, rfl, ht⟩⟩
  cases hw
  exact hv

/-- Ending with a result that is there already. -/
theorem Leads.ofExcept {e : Except Fault α} (he : ∀ v, e = .ok v → P v) :
    Leads tells I I' P (Steps.ofExcept e) (Steps.ofExcept e) :=
  fun _ hs => ⟨hs, he, fun _ t ht => ⟨t, rfl, ht⟩⟩

/-- Ending with a fault. -/
theorem Leads.throw {f : Fault} : Leads tells I I' P (throw f) (throw f) :=
  fun _ hs => ⟨hs, nofun, fun _ t ht => ⟨t, rfl, ht⟩⟩

/-- Steps in a row. -/
theorem Leads.bind {k k' : α → Steps ModuleStore β} (h : Leads tells I I' P a a')
    (hk : ∀ v, P v → Leads tells I I' Q (k v) (k' v)) :
    Leads tells I I' Q (a >>= k) (a' >>= k') := by
  intro s hs
  obtain ⟨hs₁, hok, hfollow⟩ := h s hs
  rcases hon : a.on s with ⟨fault | v, s₁⟩
  · rw [hon] at hs₁ hfollow
    rw [Steps.on_bind_error hon]
    refine ⟨hs₁, nofun, fun htells t ht => ?_⟩
    obtain ⟨t₁, ht₁, hI₁⟩ := hfollow htells t ht
    exact ⟨t₁, Steps.on_bind_error ht₁ _, hI₁⟩
  · rw [hon] at hs₁ hok hfollow
    rw [Steps.on_bind_ok hon]
    obtain ⟨hs₂, hok', hfollow'⟩ := hk v (hok v rfl) s₁ hs₁
    refine ⟨hs₂, hok', fun htells t ht => ?_⟩
    obtain ⟨t₁, ht₁, hI₁⟩ := hfollow rfl t ht
    obtain ⟨t₂, ht₂, hI₂⟩ := hfollow' htells t₁ hI₁
    exact ⟨t₂, by rw [Steps.on_bind_ok ht₁, ht₂], hI₂⟩

/-- What steps end with, where it tells something, is known. -/
theorem Leads.to_ofExcept {e : Except Fault α} (he : ∀ v, e = .ok v → P v)
    (h : ∀ s, I s → I (a.on s).2 ∧ (Tells tells (a.on s).1 = true → e = (a.on s).1)) :
    Leads tells I (fun _ => True) P a (Steps.ofExcept e) := by
  intro s hs
  obtain ⟨hs', hknown⟩ := h s hs
  refine ⟨hs', fun v hv => he v ?_, fun htells t _ => ⟨t, ?_, True.intro⟩⟩
  · rw [← hv]
    exact hknown (by rw [hv]; rfl)
  · rw [Steps.on_ofExcept, hknown htells]

/-- Steps end with what is known, where it tells something. -/
theorem Leads.of_ofExcept {e : Except Fault α} (he : ∀ v, e = .ok v → P v)
    (h : Tells tells e = true → ∀ t, I' t → ∃ t', a'.on t = (e, t') ∧ I' t') :
    Leads tells (fun _ => True) I' P (Steps.ofExcept e) a' :=
  fun _ _ => ⟨True.intro, he, h⟩

end

/-! ## Building members -/

theorem markedScope_empty : MarkedScope ∅ := fun _ h => absurd h List.not_mem_nil

/-- The members of a module with marks are marked. -/
theorem MarkedScope.of_get? {scope : Namespace} {attr : String} {m : Member}
    (h : MarkedScope scope) (hm : scope.get? attr = some m) : m.Marked :=
  h (attr, m) ((OrderedMap.get?_eq_some_iff ..).mp hm)

/-- One more marked member. -/
theorem MarkedScope.insert {scope : Namespace} {attr : String} {m : Member}
    (h : MarkedScope scope) (hm : m.Marked) : MarkedScope (scope.insert attr m) := by
  intro e he
  have hget := (OrderedMap.get?_eq_some_iff ..).mpr he
  rw [OrderedMap.get?_insert] at hget
  split at hget
  · cases hget
    exact hm
  · exact h.of_get? hget

/-- A member taken from a module with marks is marked. -/
theorem MarkedScope.memberOf {scope : Namespace} {module attr : String} {m : Member}
    (h : MarkedScope scope) (hm : ModuleStore.memberOf module scope attr = .ok m) : m.Marked := by
  rw [ModuleStore.memberOf] at hm
  cases hget : scope.get? attr with
  | none =>
      rw [hget] at hm
      cases hm
  | some n =>
      rw [hget] at hm
      cases hm
      exact h.of_get? hget

/-- The attributes of a marked class are marked. -/
theorem Member.Marked.of_attribute {m : Member} (h : m.Marked) :
    ∀ e ∈ m.attributes, e.2.Marked := by
  cases h with
  | value v => exact fun _ h => absurd h List.not_mem_nil
  | ofClass _ hattributes => exact hattributes

namespace ModuleStore

/-- What a mark declares is what some suite mark says. -/
theorem exists_of_markContent {module : String} {scope : Namespace} {spec : MarkSpec}
    {c : SuiteMark.Content} (h : markContent module scope spec = .ok c) :
    ∃ m : SuiteMark, m.content = .ok c := by
  obtain ⟨classes, -, hcontent⟩ := bind_eq_ok h
  exact ⟨_, hcontent⟩

variable {tells : Fault → Bool} {I I' : ModuleStore → Prop}
  {load load' : String → Steps ModuleStore Namespace}

/-- A class with an accepted mark carries its declaration. -/
theorem leads_marked (module : String) {attributes : List (String × Member)}
    (hattributes : ∀ e ∈ attributes, e.2.Marked) {scope : Namespace} {owner outer name : String}
    {mark? : Option MarkSpec} :
    let steps : Steps ModuleStore Member := match mark? with
      | none => pure (.ofClass owner (outer ++ name) none attributes)
      | some mark => do
        let content ← Steps.ofExcept (markContent module scope mark)
        pure (.ofClass owner (outer ++ name)
          (some (content.declaration owner (outer ++ name) name)) attributes)
    Leads tells I I' Member.Marked steps steps := by
  cases mark? with
  | none => exact .pure (.ofClass (fun d hd => by cases hd) hattributes)
  | some mark =>
      refine Leads.bind (P := fun c => ∃ m : SuiteMark, m.content = .ok c)
        (.ofExcept fun c hc => exists_of_markContent hc) fun c hc => .pure (.ofClass ?_ hattributes)
      rintro d ⟨⟩
      obtain ⟨m, hm⟩ := hc
      exact ⟨m, c, outer, name, hm, rfl, rfl⟩

mutual

/-- A member is built alike from modules that load alike. -/
theorem leads_build (hload : ∀ name, Leads tells I I' MarkedScope (load name) (load' name))
    (module : String) {scope : Namespace} (hscope : MarkedScope scope) (outer : String) :
    ∀ spec : MemberSpec, Leads tells I I' Member.Marked (build load module scope outer spec)
      (build load' module scope outer spec)
  | .value v none => .pure (.value v)
  | .value v (some mark) => by
      rw [build, build]
      exact Leads.bind (P := fun _ => True) (.ofExcept fun _ _ => True.intro) fun _ _ => .throw
  | .ofClass name owner? base? members mark? => by
      rw [build, build]
      have hinner := leads_buildInner hload module hscope (outer ++ name ++ ".") members
        markedScope_empty
      refine hinner.bind fun own hown => ?_
      simp only [pure_bind]
      have hattributes : ∀ inherited : List (String × Member), (∀ e ∈ inherited, e.2.Marked) →
          ∀ e ∈ own.toList ++ inherited, e.2.Marked := fun inherited hinherited e he =>
        (List.mem_append.mp he).elim (hown e) (hinherited e)
      cases base? with
      | none => exact leads_marked module (hattributes [] (by simp))
      | some base =>
          exact Leads.bind (.ofExcept fun m hm => hscope.memberOf hm) fun m hm =>
            leads_marked module (hattributes m.attributes hm.of_attribute)
  | .sameAs attr => by
      rw [build, build]
      exact .ofExcept fun m hm => hscope.memberOf hm
  | .taken other attr => by
      rw [build, build]
      exact (hload other).bind fun scope' hscope' => .ofExcept fun m hm => hscope'.memberOf hm

/-- The members of a class are built alike when modules are loaded alike. -/
theorem leads_buildInner (hload : ∀ name, Leads tells I I' MarkedScope (load name) (load' name))
    (module : String) {scope : Namespace} (hscope : MarkedScope scope) (outer : String) :
    ∀ (members : List (String × MemberSpec)) {own : Namespace}, MarkedScope own →
      Leads tells I I' MarkedScope (buildInner load module scope outer members own)
        (buildInner load' module scope outer members own)
  | [], own, hown => .pure hown
  | (attr, spec) :: rest, own, hown => by
      rw [buildInner, buildInner]
      exact (leads_build hload module hscope outer spec).bind fun m hm =>
        leads_buildInner hload module hscope outer rest (hown.insert hm)

end

/-- A module is built alike from modules that load alike. -/
theorem leads_buildAll (hload : ∀ name, Leads tells I I' MarkedScope (load name) (load' name))
    (module : String) (members : List (String × MemberSpec)) :
    Leads tells I I' MarkedScope (buildAll load module members) (buildAll load' module members) := by
  have hfold : ∀ (members : List (String × MemberSpec)) {scope : Namespace}, MarkedScope scope →
      Leads tells I I' MarkedScope
        (members.foldlM (fun scope e => do
          return scope.insert e.1 (← build load module scope "" e.2)) scope)
        (members.foldlM (fun scope e => do
          return scope.insert e.1 (← build load' module scope "" e.2)) scope) := by
    intro members
    induction members with
    | nil => exact fun hscope => .pure hscope
    | cons e rest ih =>
        intro scope hscope
        rw [List.foldlM_cons, List.foldlM_cons]
        refine Leads.bind ?_ fun scope' hscope' => ih hscope'
        exact (leads_build hload module hscope "" e.2).bind fun m hm => .pure (hscope.insert hm)
  exact hfold members markedScope_empty

end ModuleStore

/-! ## Depth -/

namespace ModuleTable

variable {table : ModuleTable} {tells : Fault → Bool} {n k : Nat} {name : String}
  {scope scope' : Namespace}

/-- The members a module has when no module is loaded and modules ask for others no deeper than
    this. -/
def freshFrom (table : ModuleTable) : Nat → String → Except Fault Namespace
  | 0, _ => .error .endlessDescent
  | n + 1, name =>
    if name = "" then .error .emptyModuleName
    else if isRelative name then .error (.relativeModuleName name)
    else match table.get? name with
      | none => .error (.unknownModule name)
      | some (.error f) => .error f
      | some (.ok members) =>
        ((ModuleStore.buildAll (fun other => Steps.ofExcept (table.freshFrom n other)) name
          members).on {}).1

/-- The members a module has when no module is loaded. -/
def fresh (table : ModuleTable) (name : String) : Except Fault Namespace :=
  table.freshFrom table.size name

/-- A module is built afresh when its name is absolute and in the table and its members are
    built. -/
theorem freshFrom_succ_eq_ok : table.freshFrom (n + 1) name = .ok scope ↔
    name ≠ "" ∧ isRelative name = false ∧ ∃ members, table.get? name = some (.ok members) ∧
      ((ModuleStore.buildAll (fun other => Steps.ofExcept (table.freshFrom n other)) name
        members).on {}).1 = .ok scope := by
  rw [freshFrom]
  by_cases hne : name = ""
  · simp [hne]
  · cases hrel : isRelative name with
    | true => simp [hne]
    | false =>
        rcases hspec : table.get? name with _ | fault | members <;> simp [hne]

/-- A name that is not in the table asks for no module. -/
theorem freshFrom_of_not_mem (h : name ∉ table.keys) (n k : Nat) :
    table.freshFrom (n + 1) name = table.freshFrom (k + 1) name := by
  rw [freshFrom, freshFrom, (OrderedMap.get?_eq_none_iff ..).mpr h]

/-- A module that is not in the table is not built. -/
theorem freshFrom_ne_ok_of_not_mem (h : name ∉ table.keys) (n : Nat) :
    table.freshFrom n name ≠ .ok scope := by
  intro hok
  cases n with
  | zero => cases hok
  | succ n =>
      obtain ⟨-, -, members, hmembers, -⟩ := freshFrom_succ_eq_ok.mp hok
      rw [(OrderedMap.get?_eq_none_iff ..).mpr h] at hmembers
      cases hmembers

/-- A module that is built has marked members. -/
theorem marked_of_freshFrom (h : table.freshFrom n name = .ok scope) : MarkedScope scope := by
  induction n generalizing name scope with
  | zero => cases h
  | succ n ih =>
      obtain ⟨-, -, members, -, hbuilt⟩ := freshFrom_succ_eq_ok.mp h
      have hbuilds : Leads (fun _ => false) (fun _ => True) (fun _ => True) MarkedScope
          (ModuleStore.buildAll (fun other => Steps.ofExcept (table.freshFrom n other)) name
            members)
          (ModuleStore.buildAll (fun other => Steps.ofExcept (table.freshFrom n other)) name
            members) :=
        ModuleStore.leads_buildAll
          (fun other => .ofExcept fun scope hscope => @ih other scope hscope) name members
      obtain ⟨-, hmarked, -⟩ := hbuilds {} True.intro
      exact hmarked scope hbuilt

/-- What becomes of a module depends on what becomes of those it asks for. -/
theorem freshFrom_succ_of
    (h : ∀ name, Tells tells (table.freshFrom n name) = true →
      table.freshFrom k name = table.freshFrom n name)
    (htells : Tells tells (table.freshFrom (n + 1) name) = true) :
    table.freshFrom (k + 1) name = table.freshFrom (n + 1) name := by
  have hload : ∀ other, Leads tells (fun _ => True) (fun _ => True) MarkedScope
      (Steps.ofExcept (table.freshFrom n other)) (Steps.ofExcept (table.freshFrom k other)) :=
    fun other => .of_ofExcept (fun scope hscope => marked_of_freshFrom hscope) fun htells t _ =>
      ⟨t, by rw [Steps.on_ofExcept, h other htells], True.intro⟩
  rw [freshFrom] at htells ⊢
  rw [freshFrom]
  by_cases hne : name = ""
  · rw [if_pos hne, if_pos hne]
  rw [if_neg hne, if_neg hne] at *
  by_cases hrel : isRelative name = true
  · rw [if_pos hrel, if_pos hrel]
  rw [if_neg hrel, if_neg hrel] at *
  rcases hspec : table.get? name with _ | fault | members
  · rfl
  · rfl
  · rw [hspec] at htells
    obtain ⟨-, -, hfollow⟩ := ModuleStore.leads_buildAll hload name members {} True.intro
    obtain ⟨t, ht, -⟩ := hfollow htells {} True.intro
    dsimp only
    rw [ht]

section

variable (hdeep : tells .endlessDescent = false)

include hdeep

/-- A deeper look does not change what tells already. -/
theorem freshFrom_succ (h : Tells tells (table.freshFrom n name) = true) :
    table.freshFrom (n + 1) name = table.freshFrom n name := by
  induction n generalizing name with
  | zero =>
      have hno : Tells tells (table.freshFrom 0 name) = false := hdeep
      rw [h] at hno
      cases hno
  | succ n ih => exact freshFrom_succ_of (fun _ => ih) h

/-- Nor does a look that is deeper by any number of levels. -/
theorem freshFrom_mono (hle : n ≤ k) (h : Tells tells (table.freshFrom n name) = true) :
    table.freshFrom k name = table.freshFrom n name := by
  induction hle with
  | refl => rfl
  | step _ ih => rw [freshFrom_succ hdeep (by rw [ih]; exact h), ih]

/-- The modules that tell at a depth what becomes of them. -/
def telling (table : ModuleTable) (tells : Fault → Bool) (n : Nat) : Finset String :=
  table.keys.toFinset.filter fun name => Tells tells (table.freshFrom n name)

omit hdeep in
/-- The telling modules are those of the table whose outcome tells. -/
theorem mem_telling : name ∈ table.telling tells n ↔
    name ∈ table.keys ∧ Tells tells (table.freshFrom n name) = true := by
  rw [telling, Finset.mem_filter, List.mem_toFinset]

/-- A deeper look makes no module fall silent. -/
theorem telling_subset_succ (table : ModuleTable) (n : Nat) :
    table.telling tells n ⊆ table.telling tells (n + 1) := by
  intro name h
  obtain ⟨hkey, htells⟩ := mem_telling.mp h
  exact mem_telling.mpr ⟨hkey, by rw [freshFrom_succ hdeep htells, htells]⟩

/-- When one more level lets no more modules tell, no depth does. -/
theorem freshFrom_of_stable (hstable : table.telling tells (n + 1) ⊆ table.telling tells n)
    (houtside : ∀ name, name ∉ table.keys → Tells tells (table.freshFrom (n + 1) name) = true →
      table.freshFrom n name = table.freshFrom (n + 1) name)
    (h : Tells tells (table.freshFrom (n + k) name) = true) :
    table.freshFrom n name = table.freshFrom (n + k) name := by
  have hone : ∀ name, Tells tells (table.freshFrom (n + 1) name) = true →
      table.freshFrom n name = table.freshFrom (n + 1) name := by
    intro name htells
    by_cases hkey : name ∈ table.keys
    · have hearlier := mem_telling.mp (hstable (mem_telling.mpr ⟨hkey, htells⟩))
      exact (freshFrom_succ hdeep hearlier.2).symm
    · exact houtside name hkey htells
  induction k generalizing name with
  | zero => rfl
  | succ k ih =>
      have hsame : table.freshFrom (n + 1) name = table.freshFrom (n + k + 1) name :=
        freshFrom_succ_of (fun _ => ih) h
      rw [← Nat.add_assoc, ← hsame]
      exact hone name (by rw [hsame]; exact h)

/-- As long as every level lets more modules tell, there are at least as many as levels. -/
theorem le_card_telling {base : Nat}
    (h : ∀ k < n, ¬ table.telling tells (base + k + 1) ⊆ table.telling tells (base + k)) :
    n ≤ (table.telling tells (base + n)).card := by
  induction n with
  | zero => exact Nat.zero_le _
  | succ n ih =>
      have hlt : (table.telling tells (base + n)).card < (table.telling tells (base + n + 1)).card :=
        Finset.card_lt_card ⟨telling_subset_succ hdeep table _, h n (Nat.lt_succ_self n)⟩
      exact Nat.succ_le_of_lt (Nat.lt_of_le_of_lt (ih fun k hk => h k (by omega)) hlt)

/-- **As much depth as there are modules is enough**, above one at which the names that are not
    in the table tell what they ever will. -/
theorem freshFrom_of_tells {base : Nat}
    (houtside : ∀ n, base ≤ n → ∀ name, name ∉ table.keys →
      Tells tells (table.freshFrom (n + 1) name) = true →
      table.freshFrom n name = table.freshFrom (n + 1) name)
    (h : Tells tells (table.freshFrom n name) = true) :
    table.freshFrom (base + table.size) name = table.freshFrom n name := by
  obtain ⟨k, hk, hstable⟩ : ∃ k ≤ table.size,
      table.telling tells (base + k + 1) ⊆ table.telling tells (base + k) := by
    -- otherwise each of the levels adds a module, and there would be more than there are
    by_contra hnone
    have hcard : table.size + 1 ≤ (table.telling tells (base + (table.size + 1))).card :=
      le_card_telling hdeep fun k hk hsub => hnone ⟨k, by omega, hsub⟩
    have hle : (table.telling tells (base + (table.size + 1))).card ≤ table.size := by
      refine (Finset.card_filter_le ..).trans ((List.toFinset_card_le ..).trans ?_)
      rw [OrderedMap.keys, List.length_map]
      exact le_rfl
    omega
  have hlater : table.freshFrom (base + k + n) name = table.freshFrom n name :=
    freshFrom_mono hdeep (by omega) h
  have hthere : table.freshFrom (base + k) name = table.freshFrom n name := by
    rw [← hlater]
    exact freshFrom_of_stable hdeep hstable (houtside _ (Nat.le_add_right ..))
      (by rw [hlater]; exact h)
  rw [freshFrom_mono hdeep (Nat.add_le_add_left hk base) (by rw [hthere]; exact h), hthere]

end

/-- A module that loads at some depth loads at that of all modules. -/
theorem fresh_of_freshFrom (h : table.freshFrom n name = .ok scope) :
    table.fresh name = .ok scope := by
  have houtside : ∀ m, 0 ≤ m → ∀ other, other ∉ table.keys →
      Tells (fun _ => false) (table.freshFrom (m + 1) other) = true →
      table.freshFrom m other = table.freshFrom (m + 1) other := by
    intro m _ other hkey htells
    cases hok : table.freshFrom (m + 1) other with
    | ok scope => exact absurd hok (freshFrom_ne_ok_of_not_mem hkey _)
    | error f =>
        rw [hok] at htells
        cases htells
  have htells : Tells (fun _ => false) (table.freshFrom n name) = true := by
    rw [h]
    rfl
  rw [fresh, ← h, ← freshFrom_of_tells rfl houtside htells, Nat.zero_add]

/-- Whether a fault says more than that there was not depth enough. -/
def reachesEnd (f : Fault) : Bool := f ≠ .endlessDescent

/-- One level more, and it is known as well which fault a module ends with. -/
theorem freshFrom_of_reachesEnd (h : Tells reachesEnd (table.freshFrom n name) = true) :
    table.freshFrom (table.size + 1) name = table.freshFrom n name := by
  rw [Nat.add_comm]
  refine freshFrom_of_tells rfl ?_ h
  intro n hn name hkey _
  obtain ⟨n, rfl⟩ : ∃ m, n = m + 1 := ⟨n - 1, by omega⟩
  exact freshFrom_of_not_mem hkey _ _

/-- A module that can be built is built at every depth that reaches all modules. -/
theorem freshFrom_of_fresh (h : table.fresh name = .ok scope) (hle : table.size ≤ n) :
    table.freshFrom n name = .ok scope := by
  have htells : Tells reachesEnd (table.freshFrom table.size name) = true := by
    rw [← fresh, h]
    rfl
  rw [freshFrom_mono rfl hle htells, ← fresh, h]

/-! ## Loading -/

/-- What is loaded is what the modules come to when nothing is. -/
def Sound (table : ModuleTable) (s : ModuleStore) : Prop :=
  ∀ name scope, s.loaded.get? name = some scope → table.fresh name = .ok scope

variable {s : ModuleStore}

theorem sound_empty (table : ModuleTable) : table.Sound {} := fun _ _ h => by cases h

/-- A store stays sound with one more module that was built afresh. -/
theorem Sound.insert (h : table.Sound s) (hscope : table.fresh name = .ok scope) :
    table.Sound { s with loaded := s.loaded.insert name scope } := by
  intro other scope' hother
  rw [OrderedMap.get?_insert] at hother
  split at hother
  · rename_i heq
    cases hother
    exact heq ▸ hscope
  · exact h other scope' hother

/-- A module that is loaded is there, and any other is looked up in the table and built. -/
theorem on_loadFrom_succ (name : String) (s : ModuleStore) :
    (table.loadFrom (n + 1) name).on s =
      match s.loaded.get? name with
      | some scope => (.ok scope, { s with requests := s.requests ++ [name] })
      | none =>
        (if name = "" then throw .emptyModuleName
          else if isRelative name then throw (.relativeModuleName name)
          else match table.get? name with
            | none => throw (.unknownModule name)
            | some (.error f) => throw f
            | some (.ok members) => do
              let scope ← ModuleStore.buildAll (table.loadFrom n) name members
              modify fun s => { s with loaded := s.loaded.insert name scope }
              return scope : Steps ModuleStore Namespace).on
          { s with requests := s.requests ++ [name] } := by
  rw [loadFrom, Steps.on_bind_ok (Steps.on_modify ..), Steps.on_bind_ok (Steps.on_get _)]
  cases s.loaded.get? name with
  | some scope => rfl
  | none =>
      by_cases hne : name = ""
      · simp [hne]
      · by_cases hrel : isRelative name = true
        · simp [hne, hrel]
        · rcases table.get? name with _ | fault | members <;> simp [hne, hrel]

/-- What becomes of a module, when nothing is loaded, is what its members are built to. -/
def BuiltFrom (table : ModuleTable) (name : String) (members : List (String × MemberSpec)) : Prop :=
  ∀ n, table.freshFrom (n + 1) name
    = ((ModuleStore.buildAll (fun other => Steps.ofExcept (table.freshFrom n other)) name
        members).on {}).1

/-- How loading ends that may go further down: the module is loaded, or there is none to build, or
    it fails while it is built, or it is built and stays. -/
inductive LoadEnds (table : ModuleTable) (n : Nat) (name : String) (s : ModuleStore) :
    Except Fault Namespace → ModuleStore → Prop where
  | loaded {scope : Namespace} (h : s.loaded.get? name = some scope) :
      LoadEnds table n name s (.ok scope) { s with requests := s.requests ++ [name] }
  | refused {f : Fault} (h : ∀ k, table.freshFrom (k + 1) name = .error f) :
      LoadEnds table n name s (.error f) { s with requests := s.requests ++ [name] }
  | failed {members : List (String × MemberSpec)} {f : Fault} {t : ModuleStore}
      (hmembers : table.BuiltFrom name members)
      (hbuild : (ModuleStore.buildAll (table.loadFrom n) name members).on
        { s with requests := s.requests ++ [name] } = (.error f, t)) :
      LoadEnds table n name s (.error f) t
  | built {members : List (String × MemberSpec)} {scope : Namespace} {t : ModuleStore}
      (hmembers : table.BuiltFrom name members)
      (hbuild : (ModuleStore.buildAll (table.loadFrom n) name members).on
        { s with requests := s.requests ++ [name] } = (.ok scope, t)) :
      LoadEnds table n name s (.ok scope) { t with loaded := t.loaded.insert name scope }

/-- How asking for a module ends, case by case. -/
theorem loadFrom_ends (table : ModuleTable) (n : Nat) (name : String) (s : ModuleStore) :
    ∃ result t, (table.loadFrom (n + 1) name).on s = (result, t) ∧
      LoadEnds table n name s result t := by
  rw [on_loadFrom_succ]
  cases hloaded : s.loaded.get? name with
  | some scope => exact ⟨_, _, rfl, .loaded hloaded⟩
  | none =>
      dsimp only
      by_cases hne : name = ""
      · rw [if_pos hne]
        exact ⟨_, _, rfl, .refused fun k => by rw [freshFrom, if_pos hne]⟩
      rw [if_neg hne]
      by_cases hrel : isRelative name = true
      · rw [if_pos hrel]
        exact ⟨_, _, rfl, .refused fun k => by rw [freshFrom, if_neg hne, if_pos hrel]⟩
      rw [if_neg hrel]
      have hfresh : ∀ k, table.freshFrom (k + 1) name = match table.get? name with
          | none => .error (.unknownModule name)
          | some (.error f) => .error f
          | some (.ok members) =>
            ((ModuleStore.buildAll (fun other => Steps.ofExcept (table.freshFrom k other)) name
              members).on {}).1 := fun k => by rw [freshFrom, if_neg hne, if_neg hrel]
      rcases hspec : table.get? name with _ | fault | members
      · exact ⟨_, _, rfl, .refused fun k => by rw [hfresh, hspec]⟩
      · exact ⟨_, _, rfl, .refused fun k => by rw [hfresh, hspec]⟩
      · have hmembers : table.BuiltFrom name members := fun k => by rw [hfresh, hspec]
        dsimp only
        rcases hbuild : (ModuleStore.buildAll (table.loadFrom n) name members).on
          { s with requests := s.requests ++ [name] } with ⟨fault | scope, t⟩
        · rw [Steps.on_bind_error hbuild]
          exact ⟨_, _, rfl, .failed hmembers hbuild⟩
        · rw [Steps.on_bind_ok hbuild]
          exact ⟨_, _, rfl, .built hmembers hbuild⟩

/-- A module that can be built has marked members. -/
theorem marked_of_fresh (h : table.fresh name = .ok scope) : MarkedScope scope :=
  marked_of_freshFrom h

/-- Loading keeps the store sound, and what it tells is what there is when nothing is loaded. -/
theorem Sound.loadFrom (hs : table.Sound s) :
    table.Sound ((table.loadFrom n name).on s).2 ∧
      (Tells reachesEnd ((table.loadFrom n name).on s).1 = true →
        table.freshFrom (table.size + 1) name = ((table.loadFrom n name).on s).1) := by
  induction n generalizing name s with
  | zero => exact ⟨hs, fun h => absurd h (Bool.eq_false_iff.mp rfl)⟩
  | succ n ih =>
      have hs₁ : table.Sound { s with requests := s.requests ++ [name] } := hs
      have hbuilds := ModuleStore.leads_buildAll (fun other => Leads.to_ofExcept
        (fun _ => marked_of_freshFrom) fun s hs => @ih other s hs) name
      -- built in this store, the module is what it is when nothing is loaded
      have hsame : ∀ {members result t}, table.BuiltFrom name members →
          (ModuleStore.buildAll (table.loadFrom n) name members).on
            { s with requests := s.requests ++ [name] } = (result, t) →
          table.Sound t ∧ (Tells reachesEnd result = true →
            table.freshFrom (table.size + 1) name = result) := by
        intro members result t hmembers hbuild
        obtain ⟨hs₂, -, hfollow⟩ := hbuilds members _ hs₁
        rw [hbuild] at hs₂ hfollow
        refine ⟨hs₂, fun htells => ?_⟩
        obtain ⟨u, hu, -⟩ := hfollow htells {} True.intro
        have hdeeper : table.freshFrom (table.size + 1 + 1) name = result := by
          rw [hmembers, hu]
        rw [← hdeeper]
        exact freshFrom_of_reachesEnd (by rw [hdeeper]; exact htells)
      obtain ⟨result, t, hon, hends⟩ := table.loadFrom_ends n name s
      rw [hon]
      cases hends with
      | loaded hloaded =>
          exact ⟨hs₁, fun _ => freshFrom_of_fresh (hs name _ hloaded) (Nat.le_succ _)⟩
      | refused h => exact ⟨hs₁, fun _ => h _⟩
      | failed hmembers hbuild => exact hsame hmembers hbuild
      | built hmembers hbuild =>
          obtain ⟨hs₂, hfresh⟩ := hsame hmembers hbuild
          exact ⟨hs₂.insert (fresh_of_freshFrom (hfresh rfl)), hfresh⟩

/-- A module that tells, when nothing is loaded, what becomes of it ends that way from every sound
    store. -/
theorem Sound.loadFrom_of_tells (hs : table.Sound s)
    (h : Tells reachesEnd (table.freshFrom n name) = true) :
    ∃ t, (table.loadFrom n name).on s = (table.freshFrom n name, t) ∧ table.Sound t := by
  induction n generalizing name s with
  | zero => exact absurd h (Bool.eq_false_iff.mp rfl)
  | succ n ih =>
      have hs₁ : table.Sound { s with requests := s.requests ++ [name] } := hs
      have hload : ∀ other, Leads reachesEnd (fun _ => True) table.Sound MarkedScope
          (Steps.ofExcept (table.freshFrom n other)) (table.loadFrom n other) := fun other =>
        .of_ofExcept (fun scope hscope => marked_of_freshFrom hscope) fun htells t ht =>
          ih ht htells
      have hsame : ∀ {members result t}, table.BuiltFrom name members →
          (ModuleStore.buildAll (table.loadFrom n) name members).on
            { s with requests := s.requests ++ [name] } = (result, t) →
          table.freshFrom (n + 1) name = result := by
        intro members result t hmembers hbuild
        obtain ⟨-, -, hfollow⟩ := ModuleStore.leads_buildAll hload name members {} True.intro
        obtain ⟨u, hu, -⟩ := hfollow (by rw [← hmembers]; exact h) _ hs₁
        rw [hbuild] at hu
        rw [hmembers]
        exact (congrArg Prod.fst hu).symm
      have hsound : table.Sound ((table.loadFrom (n + 1) name).on s).2 := hs.loadFrom.1
      obtain ⟨result, t, hon, hends⟩ := table.loadFrom_ends n name s
      rw [hon] at hsound ⊢
      refine ⟨t, ?_, hsound⟩
      cases hends with
      | loaded hloaded =>
          rw [← freshFrom_of_reachesEnd h, freshFrom_of_fresh (hs name _ hloaded) (Nat.le_succ _)]
      | refused h' => rw [h']
      | failed hmembers hbuild => rw [hsame hmembers hbuild]
      | built hmembers hbuild => rw [hsame hmembers hbuild]

/-- From a sound store a module is what it is afresh. -/
theorem Sound.load_eq_freshFrom (hs : table.Sound s) (name : String) :
    ((table.load name).on s).1 = table.freshFrom (table.size + 1) name := by
  cases htells : Tells reachesEnd (table.freshFrom (table.size + 1) name) with
  | true =>
      obtain ⟨t, ht, -⟩ := hs.loadFrom_of_tells htells
      rw [load, ht]
  | false =>
      -- what tells nothing is the one fault, on both sides
      have hnothing : ∀ {result : Except Fault Namespace}, Tells reachesEnd result = false →
          result = .error .endlessDescent := by
        intro result h
        cases result with
        | ok scope => cases h
        | error f => exact congrArg Except.error (not_not.mp (of_decide_eq_false h))
      have hknown : Tells reachesEnd ((table.loadFrom (table.size + 1) name).on s).1 = true → _ :=
        hs.loadFrom.2
      have hload : Tells reachesEnd ((table.load name).on s).1 = false := by
        refine Bool.eq_false_iff.mpr fun h => ?_
        rw [hknown h, ← load, h] at htells
        cases htells
      rw [hnothing htells, hnothing hload]

/-- Whoever asks for a module is written down, before those it asks for in its turn. -/
theorem requests_loadFrom_succ (hs : table.Sound s)
    (h : ∀ {name s}, table.Sound s →
      s.requests <+: ((table.loadFrom n name).on s).2.requests) :
    s.requests ++ [name] <+: ((table.loadFrom (n + 1) name).on s).2.requests := by
  have hload : ∀ other, Leads (fun _ => false)
      (fun t => s.requests ++ [name] <+: t.requests ∧ table.Sound t) (fun _ => False) MarkedScope
      (table.loadFrom n other) (table.loadFrom n other) := by
    rintro other t ⟨hbefore, ht⟩
    refine ⟨⟨hbefore.trans (h ht), ht.loadFrom.1⟩, fun scope hscope => ?_,
      fun _ _ hfalse => hfalse.elim⟩
    exact marked_of_freshFrom ((ht.loadFrom.2 (by rw [hscope]; rfl)).trans hscope)
  have hbuilds := fun members => ModuleStore.leads_buildAll hload name members
    { s with requests := s.requests ++ [name] } ⟨List.prefix_rfl, hs⟩
  obtain ⟨result, t, hon, hends⟩ := table.loadFrom_ends n name s
  rw [hon]
  cases hends with
  | loaded _ => exact List.prefix_rfl
  | refused _ => exact List.prefix_rfl
  | @failed members f t _ hbuild =>
      have hrequests := (hbuilds members).1.1
      rw [hbuild] at hrequests
      exact hrequests
  | @built members scope t _ hbuild =>
      have hrequests := (hbuilds members).1.1
      rw [hbuild] at hrequests
      exact hrequests

/-- Asking for modules only adds to what has been asked for. -/
theorem requests_loadFrom (hs : table.Sound s) :
    s.requests <+: ((table.loadFrom n name).on s).2.requests := by
  induction n generalizing name s with
  | zero => exact List.prefix_rfl
  | succ n ih => exact (List.prefix_append ..).trans (requests_loadFrom_succ hs @ih)

/-- How the import of a module ends when nothing is loaded. -/
def outcome (table : ModuleTable) (name : String) : Except Fault Namespace :=
  ((table.load name).on {}).1

/-- **Loading does not depend on what is loaded.**  From a store that was filled by loading, a
    module ends as it does when nothing is loaded: with the same members, or with the same
    fault. -/
theorem Sound.load_eq_outcome (hs : table.Sound s) (name : String) :
    ((table.load name).on s).1 = table.outcome name := by
  rw [outcome, hs.load_eq_freshFrom, table.sound_empty.load_eq_freshFrom]

/-- Importing a module succeeds when it can be built. -/
theorem outcome_eq_ok : table.outcome name = .ok scope ↔ table.fresh name = .ok scope := by
  rw [outcome, table.sound_empty.load_eq_freshFrom]
  exact ⟨fresh_of_freshFrom, fun h => freshFrom_of_fresh h (Nat.le_succ _)⟩

/-- So it loads exactly if it does when nothing is loaded. -/
theorem Sound.on_load (hs : table.Sound s) (name : String) :
    table.Sound ((table.load name).on s).2 ∧
      ∀ scope, ((table.load name).on s).1 = .ok scope ↔ table.fresh name = .ok scope := by
  refine ⟨hs.loadFrom.1, fun scope => ?_⟩
  rw [hs.load_eq_outcome, outcome_eq_ok]

end ModuleTable

end TestLauncher
