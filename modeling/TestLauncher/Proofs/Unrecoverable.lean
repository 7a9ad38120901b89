import TestLauncher.Assembly
import TestLauncher.Proofs.Calls.Watched
import TestLauncher.Proofs.Discovery.Account
import TestLauncher.Proofs.Execution.Brackets
import TestLauncher.Proofs.Suite.Importing

/-! # Faults that must not be contained

    A fault that says that memory has run out is to pass every failure boundary as it is.
    There are three.  Engines run behind the first and modules are imported behind the
    second, and both let it pass, wherever in the list of engines, of selectors or of
    leading parts of a class name it comes up.  The third is around entry points, and does
    not: whatever exception one of them raises is told as the entry point's own fault
    (`Fault.unrecoverable_outcomes`). -/

namespace TestLauncher

theorem Fault.escapes_of_isUnrecoverable {f : Fault} (h : f.isUnrecoverable = true) :
    f.escapes = true := by
  rw [escapes, h, Bool.or_true]

theorem Fault.isException_of_isUnrecoverable {f : Fault} (h : f.isUnrecoverable = true) :
    f.isException = true :=
  FaultKind.isException_of_isUnrecoverable h

theorem Fault.not_isImport {f : Fault} (h : f.isUnrecoverable = true) :
    f.kind.isImport = false := by
  rw [isUnrecoverable] at h
  cases hk : f.kind <;> simp_all [FaultKind.isUnrecoverable, FaultKind.isImport]

theorem Except.eq_error_of_fault? {α : Type} {result : Except Fault α} {f : Fault}
    (h : fault? result = some f) : result = .error f := by
  cases result with
  | ok a => cases h
  | error g =>
      cases h
      rfl

/-! ## Selectors -/

section

variable {κ ω ρ : Type} {l : Launcher κ ω ρ} {resolver : SuiteResolver ρ}
  {request : DiscoveryRequest} {w : World κ ω ρ} {f : Fault}

/-- A launcher does not resolve a request that is not expanded. -/
theorem Launcher.resolve_error (hl : l.resolver? = some resolver)
    (h : ((Expansion.ofRequest (some resolver) request).on w).1 = .error f) (phase : Phase) :
    ((l.resolve phase request).on w).1 = .error f := by
  rw [resolve, hl]
  exact Steps.on_bind_fails h _

/-- So it does not discover for it. -/
theorem Launcher.discover_error (hl : l.resolver? = some resolver)
    (h : ((Expansion.ofRequest (some resolver) request).on w).1 = .error f) :
    ((l.discover (some request)).on w).1 = .error f := by
  have hrequired : (Steps.ofExcept (required (some request)) : Run κ ω ρ _).on w
      = (.ok request, w) := rfl
  rw [discover, Steps.on_bind_ok hrequired]
  exact Steps.on_bind_fails (resolve_error hl h .discovery) _

/-- Nor does it execute it. -/
theorem Launcher.execute_error (hl : l.resolver? = some resolver)
    (h : ((Expansion.ofRequest (some resolver) request).on w).1 = .error f)
    (more : List (Listener ω)) :
    ((l.execute (some request) (more.map some)).on w).1 = .error f := by
  have hrequired : (Steps.ofExcept (required (some request)) : Run κ ω ρ _).on w
      = (.ok request, w) := rfl
  have hregister : (Steps.ofExcept (Listener.register l.listeners (more.map some))
      : Run κ ω ρ _).on w = (.ok (l.listeners ++ more), w) := by
    rw [Listener.register_some]
    rfl
  rw [execute, Steps.on_bind_ok hrequired, Steps.on_bind_ok hregister]
  exact Steps.on_bind_fails (resolve_error hl h .execution) _

end

/-- A resolver that answers about the first selectors of a request and fails on the next. -/
def SuiteResolver.FailsFor {ρ : Type} (resolver : SuiteResolver ρ) (request : DiscoveryRequest)
    {κ ω : Type} (w : World κ ω ρ) (f : Fault) : Prop :=
  ∃ before s after done w₁, request.selectors = before ++ s :: after ∧
    (before.foldlM (Expansion.addReached resolver request) {}).on w = (.ok done, w₁) ∧
    ((resolver.suitesFor s).on (w₁.journal, w₁.resolver)).1 = .error f

section

variable {κ ω ρ : Type} {resolver : SuiteResolver ρ} {request : DiscoveryRequest}
  {w : World κ ω ρ} {f : Fault}

/-- Nothing stands between a resolver that fails and the expansion of the request. -/
theorem SuiteResolver.FailsFor.ofRequest (h : resolver.FailsFor request w f) :
    ((Expansion.ofRequest (some resolver) request).on w).1 = .error f := by
  obtain ⟨before, s, after, done, w₁, hselectors, hbefore, hs⟩ := h
  have hasked : ((Run.byResolver (resolver.suitesFor s)).on w₁).1 = .error f := hs
  have hreached : ((Expansion.addReached resolver request done s).on w₁).1 = .error f :=
    Steps.on_bind_fails hasked _
  refine Steps.on_bind_fails ?_ _
  rw [hselectors, List.foldlM_append, Steps.on_bind_ok hbefore, List.foldlM_cons]
  exact Steps.on_bind_fails hreached _

theorem SuiteResolver.FailsFor.discover {l : Launcher κ ω ρ} (hl : l.resolver? = some resolver)
    (h : resolver.FailsFor request w f) : ((l.discover (some request)).on w).1 = .error f :=
  Launcher.discover_error hl h.ofRequest

theorem SuiteResolver.FailsFor.execute {l : Launcher κ ω ρ} (hl : l.resolver? = some resolver)
    (h : resolver.FailsFor request w f) (more : List (Listener ω)) :
    ((l.execute (some request) (more.map some)).on w).1 = .error f :=
  Launcher.execute_error hl h.ofRequest more

end

/-! ## Imports -/

namespace MarkedSuites

/-- None of some modules is there when they are looked in one after the other. -/
inductive AllMissing (table : ModuleTable) :
    Journal × MarkedSuites → List (String × List String) → Journal × MarkedSuites → Prop where
  | nil {s : Journal × MarkedSuites} : AllMissing table s [] s
  | cons {s t u : Journal × MarkedSuites} {module : String} {attributes : List String}
      {rest : List (String × List String)}
      (h : (importModule table module).on s = (.ok .missing, t))
      (hrest : AllMissing table t rest u) : AllMissing table s ((module, attributes) :: rest) u

section

variable {table : ModuleTable} {name module : String} {s t : Journal × MarkedSuites} {f : Fault}

/-- The import of a module runs out of memory. -/
def ImportFails (table : ModuleTable) (module : String) (s : Journal × MarkedSuites) (f : Fault) :
    Prop := ((table.load module).on s.2.store).1 = .error f

/-- An import that runs out of memory is noted as broken, and that does not contain the fault. -/
theorem ImportFails.bind {α : Type} (h : ImportFails table module s f)
    (hf : f.isUnrecoverable = true) {k : Imported → Looking α} {v : α}
    (hbroken : ∀ f, k (.broken f) = noteBroken module f >>= fun _ => pure v) :
    ((importModule table module >>= k).on s).1 = .error f := by
  rw [ImportFails] at h
  rw [on_importModule_bind hbroken, h]
  dsimp only
  rw [if_neg (by rw [Fault.not_isImport hf]; exact Bool.false_ne_true),
    if_pos (Fault.escapes_of_isUnrecoverable hf)]

theorem ImportFails.lookInModule (h : ImportFails table name s f) (hf : f.isUnrecoverable = true) :
    ((lookInModule table name).on s).1 = .error f := by
  rw [MarkedSuites.lookInModule]
  exact h.bind hf fun _ => rfl

/-- The modules before it are passed over, and those after it are not tried. -/
theorem ImportFails.lookInFirst {before after : List (String × List String)}
    {attributes : List String} (hbefore : AllMissing table s before t)
    (h : ImportFails table module t f) (hf : f.isUnrecoverable = true) :
    ((lookInFirst table name (before ++ (module, attributes) :: after)).on s).1 = .error f := by
  induction hbefore with
  | nil =>
      rw [List.nil_append, MarkedSuites.lookInFirst]
      exact h.bind hf fun _ => rfl
  | cons hmissing _ ih =>
      rw [List.cons_append, MarkedSuites.lookInFirst, Steps.on_bind_ok hmissing]
      exact ih h

/-- A class that was not looked up before. -/
theorem ImportFails.suiteOfClass {before after : List (String × List String)}
    {attributes : List String} (hnew : s.2.classes.get? name = none)
    (hname : partings name = before ++ (module, attributes) :: after)
    (hbefore : AllMissing table s before t) (h : ImportFails table module t f)
    (hf : f.isUnrecoverable = true) : ((suiteOfClass table name).on s).1 = .error f := by
  rw [MarkedSuites.suiteOfClass, Steps.on_bind_ok (Steps.on_get s), hnew]
  refine Steps.on_bind_fails ?_ _
  rw [lookForClass, hname]
  exact h.lookInFirst hbefore hf

/-- A module that was not looked up before. -/
theorem ImportFails.suitesOfModule (hnew : s.2.modules.get? name = none)
    (h : ImportFails table name s f) (hf : f.isUnrecoverable = true) :
    ((suitesOfModule table name).on s).1 = .error f := by
  rw [MarkedSuites.suitesOfModule, Steps.on_bind_ok (Steps.on_get s), hnew]
  exact Steps.on_bind_fails (h.lookInModule hf) _

end

end MarkedSuites

/-! ## Entry points -/

namespace Installation

variable {κ ω ρ : Type} {i : Installation κ ω} {p : EntryPoint} {f : Fault}

/-- An exception an entry point raises is told as the entry point's own fault. -/
theorem load_of_isException (h : i.find p = .error f) (hf : f.isException = true) :
    i.load p = .error (.unloadable p.name p.value f.message) := by
  rw [load, h]
  dsimp only
  rw [if_pos hf]

/-- The first of some entry points that does not load. -/
theorem mapM_eq_error {α : Type} {load : EntryPoint → Except Fault α}
    {before after : List EntryPoint} (hbefore : ∀ q ∈ before, ∃ a, load q = .ok a)
    (hp : load p = .error f) : (before ++ p :: after).mapM load = .error f := by
  induction before with
  | nil => rw [List.nil_append, List.mapM_cons, hp]; rfl
  | cons q before ih =>
      obtain ⟨a, ha⟩ := hbefore q (by simp)
      rw [List.cons_append, List.mapM_cons, ha, ih fun q' hq' => hbefore q' (by simp [hq'])]
      rfl

/-- The first entry point of a group that does not load raises a fault. -/
def FailsAt {α : Type} (i : Installation κ ω) (load : EntryPoint → Except Fault α)
    (groupName : String) (p : EntryPoint) (f : Fault) : Prop :=
  ∃ before after, i.group groupName = before ++ p :: after ∧
    (∀ q ∈ before, ∃ a, load q = .ok a) ∧ i.find p = .error f

section

variable {s : Settings} {listeners : List (Option (Listener ω))} {resolver : SuiteResolver ρ}
  {j : Journal}

theorem FailsAt.loadEngines {groupName : String} (h : i.FailsAt i.loadEngine groupName p f)
    (hf : f.isException = true) (j : Journal) :
    ((i.loadEngines groupName).on j).1 = .error (.unloadable p.name p.value f.message) := by
  obtain ⟨before, after, hgroup, hbefore, hp⟩ := h
  have hload : i.loadEngine p = .error (.unloadable p.name p.value f.message) := by
    rw [loadEngine, load_of_isException hp hf]
    rfl
  rw [Installation.loadEngines, hgroup, mapM_eq_error hbefore hload]
  rfl

theorem FailsAt.loadListeners {groupName : String} (h : i.FailsAt i.loadListener groupName p f)
    (hf : f.isException = true) (j : Journal) :
    ((i.loadListeners groupName).on j).1 = .error (.unloadable p.name p.value f.message) := by
  obtain ⟨before, after, hgroup, hbefore, hp⟩ := h
  have hload : i.loadListener p = .error (.unloadable p.name p.value f.message) := by
    rw [loadListener, load_of_isException hp hf]
    rfl
  rw [Installation.loadListeners, hgroup, mapM_eq_error hbefore hload]
  rfl

/-- Assembling ends where an engine does not load. -/
theorem FailsAt.assemble_engines (h : i.FailsAt i.loadEngine s.engineGroup p f)
    (hf : f.isException = true) :
    ((i.assemble s none listeners resolver).on j).1
      = .error (.unloadable p.name p.value f.message) := by
  refine Steps.on_bind_fails ?_ _
  exact Steps.on_bind_fails (h.loadEngines hf j) _

/-- With a launcher that could be created, it ends where a listener does not load. -/
theorem FailsAt.assemble_listeners {engines? : Option (List (Option (Engine κ)))}
    {engines : List (Option (Engine κ))} {launcher : Launcher κ ω ρ} {j₁ j₂ : Journal}
    (hengines : (i.enginesOr s.engineGroup engines?).on j = (.ok engines, j₁))
    (hcreate : (Launcher.create (some engines) (some resolver) s.strict).on j₁
      = (.ok launcher, j₂))
    (hauto : s.autoRegister = true) (h : i.FailsAt i.loadListener s.listenerGroup p f)
    (hf : f.isException = true) :
    ((i.assemble s engines? listeners resolver).on j).1
      = .error (.unloadable p.name p.value f.message) := by
  have hnote : ∀ message j, (note message).on j
      = (.ok (), j.write (LogLevel.info.record logger message)) := fun _ _ => rfl
  rw [assemble, Steps.on_bind_ok hengines, Steps.on_bind_ok hcreate,
    Steps.on_bind_ok (hnote _ _), hauto, if_pos rfl]
  exact Steps.on_bind_fails (h.loadListeners hf _) _

end

end Installation

/-! ## All boundaries -/

/-- **What becomes of a fault that must not be contained.**  Raised by an engine that is called to
    discover or to execute, by the import of a module in which a class or suites are looked for,
    or by the resolver about one of the selectors, it is the fault that comes out.  Raised by an
    entry point it does not come out: the fault of the entry point does, which only quotes its
    message. -/
theorem Fault.unrecoverable_outcomes {κ ω ρ : Type} (l : Launcher κ ω ρ) (table : ModuleTable)
    (i : Installation κ ω) (f : Fault) (hf : f.isUnrecoverable = true) :
    (∀ request w, ∀ c ∈ l.discoverCalls (some request) w, c.fault? = some f →
      ((l.discover (some request)).on w).1 = .error f) ∧
    (∀ request more w, ∀ c ∈ l.executeCalls (some request) more w, c.fault? = some f →
      ((l.execute (some request) more).on w).1 = .error f) ∧
    (∀ (name : Text.NonBlank) before module attributes after s t,
      s.2.classes.get? name.text = none →
      MarkedSuites.partings name.text = before ++ (module, attributes) :: after →
      MarkedSuites.AllMissing table s before t → MarkedSuites.ImportFails table module t f →
      ((MarkedSuites.suitesFor table (.ofClass name)).on s).1 = .error f) ∧
    (∀ (name : Text.NonBlank) s, s.2.modules.get? name.text = none →
      MarkedSuites.ImportFails table name.text s f →
      ((MarkedSuites.suitesFor table (.ofModule name)).on s).1 = .error f) ∧
    (∀ resolver request w, l.resolver? = some resolver →
      resolver.FailsFor request (w : World κ ω ρ) f →
      ((l.discover (some request)).on w).1 = .error f ∧
        ∀ more, ((l.execute (some request) (List.map some more)).on w).1 = .error f) ∧
    (∀ (s : Settings) listeners (resolver : SuiteResolver ρ) j p,
      i.FailsAt i.loadEngine s.engineGroup p f →
      ((i.assemble s none listeners resolver).on j).1
        = .error (.unloadable p.name p.value f.message)) ∧
    (∀ (s : Settings) engines? engines listeners (resolver : SuiteResolver ρ)
      (launcher : Launcher κ ω ρ) j j₁ j₂ p,
      (i.enginesOr s.engineGroup engines?).on j = (.ok engines, j₁) →
      (Launcher.create (some engines) (some resolver) s.strict).on j₁ = (.ok launcher, j₂) →
      s.autoRegister = true → i.FailsAt i.loadListener s.listenerGroup p f →
      ((i.assemble s engines? listeners resolver).on j).1
        = .error (.unloadable p.name p.value f.message)) := by
  have hescapes := escapes_of_isUnrecoverable hf
  have hexception := isException_of_isUnrecoverable hf
  refine ⟨?_, ?_, ?_, ?_, ?_, ?_, ?_⟩
  · intro request w c hc hfault
    exact Except.eq_error_of_fault?
      ((l.on_watched_discover request w).2.comesOut c hc f hfault hescapes)
  · intro request more w c hc hfault
    exact Except.eq_error_of_fault?
      ((l.on_watched_execute request more w).2.comesOut c hc f hfault hescapes)
  · intro name before module attributes after s t hnew hname hbefore hfails
    exact Steps.on_bind_fails (hfails.suiteOfClass hnew hname hbefore hf) _
  · intro name s hnew hfails
    exact hfails.suitesOfModule hnew hf
  · intro resolver request w hl hfails
    exact ⟨hfails.discover hl, fun more => hfails.execute hl more⟩
  · intro s listeners resolver j p hfails
    exact hfails.assemble_engines hexception
  · intro s engines? engines listeners resolver launcher j j₁ j₂ p hengines hcreate hauto hfails
    exact hfails.assemble_listeners hengines hcreate hauto hexception

/-! ## Running out of memory -/

/-- Memory has run out. -/
def Fault.outOfMemory : Fault := .raised .subMemory (some "no")

/-- An engine that runs out of memory as it discovers, behind one that finds a root. -/
def Launcher.forgetting : Launcher Unit Unit MarkedSuites where
  engines := [Resolution.lone "A", Resolution.barren "B" (.error .outOfMemory)]

/-- An engine that runs out of memory as it executes. -/
def Launcher.overworked : Launcher Unit Unit MarkedSuites where
  engines := [{ Resolution.lone "A" with execute := fun _ _ => .fail .outOfMemory }]

/-- Whether there is no such module. -/
def MarkedSuites.Imported.isMissing : Imported → Bool
  | .missing => true
  | _ => false

/-- A module that cannot be imported for want of memory. -/
def ModuleTable.exhausted : ModuleTable := OrderedMap.ofList [("p.m", .error .outOfMemory)]

/-- A plug-in that cannot be instantiated for want of memory, behind one that can. -/
def Installation.exhausted : Installation Unit Unit where
  groups := OrderedMap.ofList
    [("quiver.engines", [⟨"a", "plugins:A"⟩, ⟨"b", "plugins:B"⟩])]
  modules := OrderedMap.ofList [("plugins", OrderedMap.ofList
    [("A", .engine (Resolution.lone "A")), ("B", .faulty .outOfMemory)])]

/-- Behind every boundary that is tried, memory runs out; that comes out as it is, but for the entry
    point. -/
theorem Fault.unrecoverable_outcomes_exhausted :
    (Launcher.forgetting.discoverCalls (some {}) ⟨∅, ∅, (), (), ∅⟩
        = [⟨"A", .discover, none⟩, ⟨"B", .discover, some outOfMemory⟩] ∧
      ((Launcher.forgetting.discover (some {})).on ⟨∅, ∅, (), (), ∅⟩).1 = .error outOfMemory) ∧
    (Launcher.overworked.executeCalls (some {}) [] ⟨∅, ∅, (), (), ∅⟩
        = [⟨"A", .discover, none⟩, ⟨"A", .execute, some outOfMemory⟩] ∧
      ((Launcher.overworked.execute (some {}) []).on ⟨∅, ∅, (), (), ∅⟩).1 = .error outOfMemory) ∧
    ((MarkedSuites.suitesFor ModuleTable.exhausted (.ofClass ⟨"p.m.K.I", by decide⟩)).on
      (∅, ∅)).1 = .error outOfMemory ∧
    ((Installation.exhausted.assemble {} none [] ModuleTable.exhausted.resolver).on ∅).1
      = .error (.unloadable "b" "plugins:B" "no") := by
  have hf : outOfMemory.isUnrecoverable = true := rfl
  have hdiscover : Launcher.forgetting.discoverCalls (some {}) ⟨∅, ∅, (), (), ∅⟩
      = [⟨"A", .discover, none⟩, ⟨"B", .discover, some outOfMemory⟩] := by decide +kernel
  have hexecute : Launcher.overworked.executeCalls (some {}) [] ⟨∅, ∅, (), (), ∅⟩
      = [⟨"A", .discover, none⟩, ⟨"A", .execute, some outOfMemory⟩] := by decide +kernel
  obtain ⟨hd, -, hclass, -, -, hengine, -⟩ := unrecoverable_outcomes Launcher.forgetting
    ModuleTable.exhausted Installation.exhausted outOfMemory hf
  obtain ⟨-, he, -⟩ := unrecoverable_outcomes Launcher.overworked
    ModuleTable.exhausted Installation.exhausted outOfMemory hf
  refine ⟨⟨hdiscover, ?_⟩, ⟨hexecute, ?_⟩, ?_, ?_⟩
  · refine hd {} ⟨∅, ∅, (), (), ∅⟩ ⟨"B", .discover, some outOfMemory⟩ ?_ rfl
    rw [hdiscover]
    simp
  · refine he {} [] ⟨∅, ∅, (), (), ∅⟩ ⟨"A", .execute, some outOfMemory⟩ ?_ rfl
    rw [hexecute]
    simp
  · -- there is no module for the longest part, and memory runs out with the next
    have hname : MarkedSuites.partings "p.m.K.I"
        = [("p.m.K", ["I"])] ++ ("p.m", ["K", "I"]) :: [("p", ["m", "K", "I"])] := by
      decide +kernel
    let run := (MarkedSuites.importModule ModuleTable.exhausted "p.m.K").on (∅, ∅)
    have hmissing : run.1.toOption.any MarkedSuites.Imported.isMissing = true := by decide +kernel
    have hfault : Except.fault? ((ModuleTable.exhausted.load "p.m").on run.2.2.store).1
        = some outOfMemory := by decide +kernel
    rcases himport : run with ⟨result, t⟩
    rw [himport] at hmissing hfault
    rcases result with f | scope | _ | f
    · cases hmissing
    · cases hmissing
    · exact hclass _ _ _ _ _ _ t rfl hname (.cons himport .nil) (Except.eq_error_of_fault? hfault)
    · cases hmissing
  · refine hengine {} [] _ ∅ ⟨"b", "plugins:B"⟩ ?_
    refine ⟨[⟨"a", "plugins:A"⟩], [], rfl, ?_, ?_⟩
    · intro q hq
      rw [List.mem_singleton.mp hq]
      exact ⟨Resolution.lone "A", rfl⟩
    · rfl

end TestLauncher
