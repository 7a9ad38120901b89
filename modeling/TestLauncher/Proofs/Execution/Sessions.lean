import TestLauncher.Proofs.Engine.Catalogue
import TestLauncher.Proofs.Execution.Overhearing

/-! # Sessions of a launcher

    A launcher in use shares one registry of listeners with what executes its plans: the
    registry is written to by whoever registers listeners, and an execution with listeners
    of its own works with a child, which starts as a copy.  Nothing else is said here about
    registries than that they are kept by reference, so a child could well be mistaken for
    the one it was made from.

    It is not: whatever calls are made and however they end, the shared registry holds what
    it held and then the listeners of the registrations that did not fail, in order
    (`listeners_performAll`), and each execution is that of a launcher with just these
    listeners (`on_executeShared`), so its events go round them and then those of the call
    (`listeners_never_leak`). -/

namespace TestLauncher

/-! ## Registries -/

/-- A reference to a registry. -/
structure RegistryRef where
  index : Nat
deriving DecidableEq

/-- The registries there are, with the listeners of each. -/
structure Registries (ω : Type) where
  lists : Array (List (Listener ω)) := #[]

namespace Registries

variable {ω : Type}

/-- The listeners of a registry, in order. -/
def listeners (rs : Registries ω) (r : RegistryRef) : List (Listener ω) :=
  (rs.lists[r.index]?).getD []

/-- Whether there is a registry. -/
def Has (rs : Registries ω) (r : RegistryRef) : Prop := r.index < rs.lists.size

instance (rs : Registries ω) (r : RegistryRef) : Decidable (rs.Has r) :=
  inferInstanceAs (Decidable (r.index < rs.lists.size))

/-- What a registry starts with: a copy of what its parent has, if it has a parent and that has
    anything. -/
def inherited (rs : Registries ω) : Option RegistryRef → List (Listener ω)
  | none => []
  | some parent => if (rs.listeners parent).isEmpty then [] else rs.listeners parent

/-- A new registry. -/
def create (parent? : Option RegistryRef) : Steps (Registries ω) RegistryRef :=
  modifyGet fun rs => (⟨rs.lists.size⟩, ⟨rs.lists.push (rs.inherited parent?)⟩)

/-- The registries with more listeners in one of them. -/
def extend (rs : Registries ω) (r : RegistryRef) (more : List (Listener ω)) : Registries ω :=
  ⟨rs.lists.modify r.index (· ++ more)⟩

/-- Adds listeners to a registry, unless one of them is absent. -/
def register (r : RegistryRef) (more : List (Option (Listener ω))) : Steps (Registries ω) Unit := do
  let more ← Steps.ofExcept (Require.allPresent more "individual listeners must not be None")
  modify fun rs => rs.extend r more

/-- The registry for one execution: the shared one, or a child if there are more listeners. -/
def forCall (shared : RegistryRef) (more : List (Option (Listener ω))) :
    Steps (Registries ω) RegistryRef := do
  if more.isEmpty then return shared
  else
    let child ← create (some shared)
    register child more
    return child

section

variable {rs : Registries ω} {r r' : RegistryRef} {more : List (Listener ω)}

@[simp] theorem inherited_some (rs : Registries ω) (parent : RegistryRef) :
    rs.inherited (some parent) = rs.listeners parent := by
  rw [inherited]
  split
  · exact (List.isEmpty_iff.mp (by assumption)).symm
  · rfl

theorem has_push (h : rs.Has r) (list : List (Listener ω)) : Has ⟨rs.lists.push list⟩ r := by
  rw [Has, Array.size_push]
  exact Nat.lt_succ_of_lt h

theorem listeners_push (h : rs.Has r) (list : List (Listener ω)) :
    listeners ⟨rs.lists.push list⟩ r = rs.listeners r := by
  rw [listeners, listeners, Array.getElem?_push_lt h, Array.getElem?_eq_getElem h]

/-- The registry that was created last. -/
theorem listeners_push_last (rs : Registries ω) (list : List (Listener ω)) :
    listeners ⟨rs.lists.push list⟩ ⟨rs.lists.size⟩ = list := by
  rw [listeners, Array.getElem?_push_size]
  rfl

@[simp] theorem has_extend : (rs.extend r' more).Has r ↔ rs.Has r := by
  rw [Has, Has, extend, Array.size_modify]

theorem listeners_extend (h : rs.Has r) (more : List (Listener ω)) :
    (rs.extend r more).listeners r = rs.listeners r ++ more := by
  rw [listeners, listeners, extend, Array.getElem?_modify, if_pos rfl, Array.getElem?_eq_getElem h]
  rfl

theorem listeners_extend_other (h : r' ≠ r) (more : List (Listener ω)) :
    (rs.extend r' more).listeners r = rs.listeners r := by
  have hindex : r'.index ≠ r.index := fun he => h (by cases r; cases r'; cases he; rfl)
  rw [listeners, listeners, extend, Array.getElem?_modify, if_neg hindex]

end

/-- **A child is a copy.**  The registry for an execution has the listeners of the shared one and
    then those of the execution, and the shared one stays as it is. -/
theorem on_forCall {rs : Registries ω} {shared : RegistryRef} (h : rs.Has shared)
    (more : List (Listener ω)) :
    ∃ r rs', (forCall shared (more.map some)).on rs = (.ok r, rs') ∧
      rs'.listeners r = rs.listeners shared ++ more ∧
      rs'.Has shared ∧ rs'.listeners shared = rs.listeners shared := by
  rw [forCall]
  cases more with
  | nil => exact ⟨shared, rs, rfl, (List.append_nil _).symm, h, rfl⟩
  | cons l more =>
      have hchild : (⟨rs.lists.size⟩ : RegistryRef) ≠ shared := by
        rintro rfl
        exact Nat.lt_irrefl _ h
      have hlast : Has ⟨rs.lists.push (rs.listeners shared)⟩ (⟨rs.lists.size⟩ : RegistryRef) := by
        rw [Has, Array.size_push]
        exact Nat.lt_succ_self _
      refine ⟨⟨rs.lists.size⟩,
        extend ⟨rs.lists.push (rs.listeners shared)⟩ ⟨rs.lists.size⟩ (l :: more), ?_, ?_, ?_, ?_⟩
      · rw [List.map_cons, List.isEmpty_cons, if_neg Bool.false_ne_true, create,
          Steps.on_bind_ok (Steps.on_modifyGet ..), inherited_some, register,
          ← List.map_cons, Require.allPresent_map_some]
        rfl
      · rw [listeners_extend hlast, listeners_push_last]
      · exact has_extend.mpr (has_push h _)
      · rw [listeners_extend_other hchild, listeners_push h]

end Registries

/-! ## Calls -/

/-- What a launcher in use acts on. -/
structure Session (κ ω ρ : Type) where
  world : World κ ω ρ
  registries : Registries ω := {}

/-- A call of a launcher in use. -/
inductive Call (ω : Type) where
  | register (more : List (Option (Listener ω)))
  | discover (request : Option DiscoveryRequest)
  | execute (request : Option DiscoveryRequest) (more : List (Option (Listener ω)))

namespace Session

variable {κ ω ρ α : Type}

/-- Steps on the world. -/
def onWorld (steps : Run κ ω ρ α) : Steps (Session κ ω ρ) α :=
  steps.within Session.world fun w s => { s with world := w }

/-- Steps on the registries. -/
def onRegistries (steps : Steps (Registries ω) α) : Steps (Session κ ω ρ) α :=
  steps.within Session.registries fun rs s => { s with registries := rs }

end Session

namespace Launcher

variable {κ ω ρ : Type}

/-- The launcher with other listeners. -/
def withListeners (l : Launcher κ ω ρ) (listeners : List (Listener ω)) : Launcher κ ω ρ :=
  { l with listeners }

/-- Registers listeners with the shared registry. -/
def registerShared (shared : RegistryRef) (more : List (Option (Listener ω))) :
    Steps (Session κ ω ρ) Unit := do
  let more ← Steps.ofExcept (Require.notEmpty (some more) "listeners must not be empty")
  Session.onRegistries (Registries.register shared more)

/-- Discovers and executes what a request is about; those who listen are looked up in the registry
    for the call once everything is discovered. -/
def executeShared (l : Launcher κ ω ρ) (shared : RegistryRef) (request : Option DiscoveryRequest)
    (more : List (Option (Listener ω))) : Steps (Session κ ω ρ) Unit := do
  let request ← Steps.ofExcept (required request)
  let _ ← Steps.ofExcept (Require.allPresent more "individual listeners must not be None")
  let rs ← Session.onWorld (l.resolve .execution request)
  let registry ← Session.onRegistries (Registries.forCall shared more)
  let listeners := (← get).registries.listeners registry
  Session.onWorld (dispatch listeners request.parameters rs)

/-- A call of a launcher that shares a registry: the plan it returns, if it returns one. -/
def perform (l : Launcher κ ω ρ) (shared : RegistryRef) :
    Call ω → Steps (Session κ ω ρ) (Option TestPlan)
  | .register more => (fun _ => none) <$> registerShared shared more
  | .discover request => some <$> Session.onWorld (l.discover request)
  | .execute request more => (fun _ => none) <$> l.executeShared shared request more

/-- Calls one after the other, whatever becomes of each: how they end, and what they leave. -/
def performAll (l : Launcher κ ω ρ) (shared : RegistryRef) :
    List (Call ω) → Session κ ω ρ →
      List (Call ω × Except Fault (Option TestPlan)) × Session κ ω ρ
  | [], s => ([], s)
  | c :: cs, s =>
    let (reply, t) := (l.perform shared c).on s
    let (done, u) := l.performAll shared cs t
    ((c, reply) :: done, u)

end Launcher

/-- The listeners that a call registers when it ends in some way. -/
def Call.registered {ω α : Type} : Call ω × Except Fault α → List (Listener ω)
  | (.register more, .ok _) => more.filterMap id
  | _ => []

namespace Launcher

variable {κ ω ρ : Type} {l : Launcher κ ω ρ} {shared : RegistryRef} {s : Session κ ω ρ}

theorem on_registerShared {more : List (Listener ω)} (h : more ≠ []) (shared : RegistryRef)
    (s : Session κ ω ρ) :
    (registerShared shared (more.map some)).on s
      = (.ok (), { s with registries := s.registries.extend shared more }) := by
  cases more with
  | nil => exact absurd rfl h
  | cons m more =>
      show (Session.onRegistries (Registries.register shared ((m :: more).map some))).on s = _
      rw [Session.onRegistries, Steps.on_within, Registries.register,
        Require.allPresent_map_some]
      rfl

/-- A registration fails and leaves no trace, or there are listeners and none of them is absent. -/
theorem registerShared_refused_or (more : List (Option (Listener ω))) (shared : RegistryRef)
    (s : Session κ ω ρ) :
    (∃ f, (registerShared shared more).on s = (.error f, s)) ∨
      ∃ ls, ls ≠ [] ∧ more = ls.map some := by
  cases more with
  | nil => exact Or.inl ⟨_, rfl⟩
  | cons m more =>
      cases hp : Require.allPresent (m :: more) "individual listeners must not be None" with
      | ok ls =>
          have hls := Require.allPresent_eq_ok_iff.mp hp
          refine Or.inr ⟨ls, ?_, hls⟩
          rintro rfl
          cases hls
      | error f =>
          refine Or.inl ⟨f, ?_⟩
          show (Session.onRegistries (Registries.register shared (m :: more))).on s = _
          rw [Session.onRegistries, Steps.on_within, Registries.register, hp]
          rfl

/-- Registering nothing fails, and so does registering a listener that is absent. -/
theorem on_registerShared_refused {more : List (Option (Listener ω))}
    (h : more = [] ∨ none ∈ more) (shared : RegistryRef) (s : Session κ ω ρ) :
    ∃ f, (registerShared shared more).on s = (.error f, s) := by
  refine (registerShared_refused_or more shared s).resolve_right ?_
  rintro ⟨ls, hls, rfl⟩
  rcases h with h | h
  · exact hls (List.map_eq_nil_iff.mp h)
  · obtain ⟨v, -, hv⟩ := List.mem_map.mp h
    cases hv

/-- **An execution is that of a launcher with the shared listeners**, whichever registry it works
    with, and leaves the shared one as it is. -/
theorem on_executeShared (h : s.registries.Has shared) (request : Option DiscoveryRequest)
    (more : List (Option (Listener ω))) :
    ∃ rs, (l.executeShared shared request more).on s
        = ((((l.withListeners (s.registries.listeners shared)).execute request more).on s.world).1,
            ⟨(((l.withListeners (s.registries.listeners shared)).execute request more).on
              s.world).2, rs⟩) ∧
      rs.Has shared ∧ rs.listeners shared = s.registries.listeners shared := by
  cases request with
  | none => exact ⟨s.registries, rfl, h, rfl⟩
  | some request =>
      rw [executeShared, execute, required, Require.present, Steps.ofExcept_ok_bind,
        Steps.ofExcept_ok_bind, Listener.register]
      cases hp : Require.allPresent more "individual listeners must not be None" with
      | error f => exact ⟨s.registries, rfl, h, rfl⟩
      | ok ls =>
          cases Require.allPresent_eq_ok_iff.mp hp
          show ∃ rs, (Session.onWorld (l.resolve .execution request) >>= _).on s
            = (((l.resolve .execution request >>= _).on s.world).1,
                ⟨((l.resolve .execution request >>= _).on s.world).2, rs⟩) ∧ _
          rcases hresolve : (l.resolve .execution request).on s.world with ⟨result, w⟩
          have hon : (Session.onWorld (l.resolve .execution request)).on s
              = (result, { s with world := w }) := by
            rw [Session.onWorld, Steps.on_within, hresolve]
          cases result with
          | error f =>
              rw [Steps.on_bind_error hon, Steps.on_bind_error hresolve]
              exact ⟨s.registries, rfl, h, rfl⟩
          | ok resolutions =>
              rw [Steps.on_bind_ok hon, Steps.on_bind_ok hresolve]
              obtain ⟨r, rs, hcall, hlisteners, hhas, hshared⟩ := Registries.on_forCall h ls
              have hregistry : (Session.onRegistries (Registries.forCall shared (ls.map some))).on
                  { s with world := w } = (.ok r, ⟨w, rs⟩) := by
                rw [Session.onRegistries, Steps.on_within, hcall]
              rw [Steps.on_bind_ok hregistry, Steps.on_bind_ok (Steps.on_get _)]
              refine ⟨rs, ?_, hhas, hshared⟩
              rw [Session.onWorld, Steps.on_within, hlisteners]
              rfl

/-- **One call** adds what it registers to the shared registry, and nothing else. -/
theorem on_perform (h : s.registries.Has shared) (c : Call ω)
    {reply : Except Fault (Option TestPlan)} {t : Session κ ω ρ}
    (hon : (l.perform shared c).on s = (reply, t)) :
    t.registries.Has shared ∧
      t.registries.listeners shared
        = s.registries.listeners shared ++ Call.registered (c, reply) := by
  cases c with
  | register more =>
      rcases registerShared_refused_or more shared s with ⟨f, hf⟩ | ⟨ls, hls, rfl⟩
      · rw [perform, Steps.on_map, hf] at hon
        cases hon
        exact ⟨h, (List.append_nil _).symm⟩
      · rw [perform, Steps.on_map, on_registerShared hls shared s] at hon
        cases hon
        refine ⟨Registries.has_extend.mpr h, ?_⟩
        rw [Except.map, Call.registered, List.filterMap_map, Function.id_comp,
          List.filterMap_some]
        exact Registries.listeners_extend h ls
  | discover request =>
      rw [perform, Steps.on_map] at hon
      cases hon
      exact ⟨h, (List.append_nil _).symm⟩
  | execute request more =>
      obtain ⟨rs, hexecute, hhas, hlisteners⟩ := on_executeShared (l := l) h request more
      rw [perform, Steps.on_map, hexecute] at hon
      cases hon
      exact ⟨hhas, hlisteners.trans (List.append_nil _).symm⟩

/-- **Any number of calls** add what those register that do not fail, in order. -/
theorem listeners_performAll (h : s.registries.Has shared) {calls : List (Call ω)}
    {done : List (Call ω × Except Fault (Option TestPlan))} {t : Session κ ω ρ}
    (hon : l.performAll shared calls s = (done, t)) :
    t.registries.Has shared ∧
      t.registries.listeners shared
        = s.registries.listeners shared ++ done.flatMap Call.registered := by
  induction calls generalizing s done with
  | nil =>
      cases hon
      exact ⟨h, (List.append_nil _).symm⟩
  | cons c calls ih =>
      rcases hc : (l.perform shared c).on s with ⟨reply, u⟩
      rcases hcs : l.performAll shared calls u with ⟨rest, v⟩
      rw [performAll, hc] at hon
      simp only [hcs] at hon
      cases hon
      obtain ⟨hhas, hu⟩ := on_perform h c hc
      obtain ⟨hhas', ht⟩ := ih hhas hcs
      exact ⟨hhas', by rw [ht, hu, List.flatMap_cons, List.append_assoc]⟩

/-- **Listeners of a call never leak.**  After any calls, however each of them ended, the shared
    registry holds what it held and then the listeners of the registrations that did not fail, in
    order.  Of whatever call comes next, a registration of nothing or of an absent listener fails
    and leaves no trace, every other succeeds; and an execution is that of a launcher with just
    these listeners, so that its events go round them and then those of the call.  These rounds
    are what the execution itself tells them when they are watched. -/
theorem listeners_never_leak (l : Launcher κ ω ρ) (shared : RegistryRef) (s t : Session κ ω ρ)
    (calls : List (Call ω)) (done : List (Call ω × Except Fault (Option TestPlan)))
    (h : s.registries.Has shared) (hon : l.performAll shared calls s = (done, t)) :
    let registered := s.registries.listeners shared ++ done.flatMap Call.registered
    t.registries.listeners shared = registered ∧
    (∀ more, more = [] ∨ none ∈ more →
      ∃ f, (l.perform shared (.register more)).on t = (.error f, t)) ∧
    (∀ more : List (Listener ω), more ≠ [] →
      ((l.perform shared (.register (more.map some))).on t).1 = .ok none) ∧
    ∀ request more,
      let alone := l.withListeners registered
      ((l.perform shared (.execute request more)).on t).1
        = ((alone.execute request more).on t.world).1.map (fun _ => none) ∧
      ((l.perform shared (.execute request more)).on t).2.world
        = ((alone.execute request more).on t.world).2 ∧
      alone.Witnessed request more t.world (alone.chronicle request more t.world) ∧
      Rounds (registered ++ more.filterMap id).length (alone.chronicle request more t.world) := by
  intro registered
  obtain ⟨hhas, hlisteners⟩ := listeners_performAll h hon
  refine ⟨hlisteners, ?_, ?_, ?_⟩
  · intro more hmore
    obtain ⟨f, hf⟩ := on_registerShared_refused hmore shared t
    exact ⟨f, by rw [perform, Steps.on_map, hf]; rfl⟩
  · intro more hmore
    rw [perform, Steps.on_map, on_registerShared hmore shared t]
    rfl
  · intro request more alone
    obtain ⟨rs, hexecute, -, -⟩ := on_executeShared (l := l) hhas request more
    rw [hlisteners] at hexecute
    rw [perform, Steps.on_map, hexecute]
    exact ⟨rfl, rfl, alone.witnessed_chronicle request more t.world,
      rounds_chronicle alone request more t.world⟩

/-- A session with one registry, that of a new launcher. -/
def opened : Session Diaries Unit Unit where
  world := World.sample
  registries := ((Registries.create none).on {}).2

/-- A listener that fails. -/
def grumpy : Listener Unit := ⟨"grumpy", fun _ => throw (.raised .runtime none)⟩

/-- Registrations and executions, of which one execution is ended by its listener. -/
def busyDay : List (Call Unit) :=
  [.register [some (.silent "a")], .execute (some .sample) [some (.silent "b")],
    .register [some (.silent "c"), none], .register [], .discover (some .sample),
    .execute (some .sample) [some grumpy], .execute none [some (.silent "b")],
    .register [some (.silent "d"), some (.silent "a")]]

/-- Of four registrations two are kept; the listeners of the calls are gone, and the next execution
    is told to the three that are registered and its own. -/
theorem listeners_never_leak_busyDay :
    ∃ done t, sample.performAll ⟨0⟩ busyDay opened = (done, t) ∧
      (done.map fun r => (Except.fault? r.2).isSome)
        = [false, false, true, true, false, true, true, false] ∧
      (t.registries.listeners ⟨0⟩).map Listener.name = ["a", "d", "a"] ∧
      t.registries.listeners ⟨0⟩ = done.flatMap Call.registered ∧
      let alone := sample.withListeners (t.registries.listeners ⟨0⟩)
      let tr := alone.chronicle (some .sample) [some (.silent "b")] t.world
      alone.Witnessed (some .sample) [some (.silent "b")] t.world tr ∧ Rounds 4 tr := by
  have hhas : opened.registries.Has ⟨0⟩ := by decide
  have hdone : ((sample.performAll ⟨0⟩ busyDay opened).1.map fun r => (Except.fault? r.2).isSome)
      = [false, false, true, true, false, true, true, false] := by decide +kernel
  have hnames : ((sample.performAll ⟨0⟩ busyDay opened).2.registries.listeners ⟨0⟩).map
      Listener.name = ["a", "d", "a"] := by decide +kernel
  rcases hon : sample.performAll ⟨0⟩ busyDay opened with ⟨done, t⟩
  rw [hon] at hdone hnames
  obtain ⟨hlisteners, -, -, hexecute⟩ :=
    listeners_never_leak sample ⟨0⟩ opened t busyDay done hhas hon
  have hthree : (t.registries.listeners ⟨0⟩).length = 3 := by
    rw [← List.length_map (f := Listener.name), hnames]
    rfl
  obtain ⟨-, -, hwitnessed, hrounds⟩ := hexecute (some .sample) [some (.silent "b")]
  rw [← hlisteners] at hwitnessed
  rw [← hlisteners, List.length_append, hthree] at hrounds
  exact ⟨done, t, rfl, hdone, hnames, hlisteners, hwitnessed, hrounds⟩

end Launcher

end TestLauncher
