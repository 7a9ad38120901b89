import TestLauncher.Proofs.Boundary
import TestLauncher.Suite.Marked

/-! # Steps of the resolver

    What each step of the resolver does to what it knows, written out: an import changes
    nothing but what is loaded; a module that is broken is noted or its fault passes, and
    that is the same for every step that goes on from an import (`on_importModule_bind`);
    and what is looked up is kept unless it was known or a fault passes. -/

namespace TestLauncher

/-- The store after modules were asked for one after the other, whatever came of it. -/
def ModuleTable.afterLoading (table : ModuleTable) (names : List String) (s : ModuleStore) :
    ModuleStore :=
  names.foldl (fun s name => ((table.load name).on s).2) s

theorem ModuleTable.afterLoading_append {table : ModuleTable} (names more : List String)
    (s : ModuleStore) : table.afterLoading (names ++ more) s
      = table.afterLoading more (table.afterLoading names s) :=
  List.foldl_append ..

namespace MarkedSuites

variable {table : ModuleTable} {name module : String} {s : Journal × MarkedSuites}

/-! ## Imports -/

/-- What an import makes of how the loading of a module ends. -/
def imported : Except Fault Namespace → Except Fault Imported
  | .ok scope => .ok (.found scope)
  | .error f =>
    if f.kind.isImport then .ok .missing else if f.isException then .ok (.broken f) else .error f

/-- The state after modules were asked for: all that changed is what is loaded. -/
def afterImporting (table : ModuleTable) (names : List String) (s : Journal × MarkedSuites) :
    Journal × MarkedSuites :=
  (s.1, { s.2 with store := table.afterLoading names s.2.store })

theorem afterImporting_append (names more : List String) (s : Journal × MarkedSuites) :
    afterImporting table (names ++ more) s
      = afterImporting table more (afterImporting table names s) := by
  rw [afterImporting, ModuleTable.afterLoading_append]
  rfl

theorem on_importModule (module : String) (s : Journal × MarkedSuites) :
    (importModule table module).on s
      = (imported ((table.load module).on s.2.store).1, afterImporting table [module] s) := by
  rw [importModule, Steps.on_bind_ok (Steps.on_outcome ..), Steps.on_within, afterImporting,
    ModuleTable.afterLoading, List.foldl_cons, List.foldl_nil]
  dsimp only
  rcases (table.load module).on s.2.store with ⟨f | scope, store⟩
  · dsimp only [imported]
    split
    · rfl
    · split <;> rfl
  · rfl

/-- The line about a module that failed. -/
def brokenLine (module : String) (f : Fault) : LogRecord :=
  LogLevel.warning.record logger
    ("Module '" ++ module ++ "' failed to import (" ++ f.kind.name ++ ": " ++ f.message ++
      "); not looking for suites in it.") (some f)

theorem on_noteBroken (module : String) (f : Fault) (hf : f.isException = true)
    (s : Journal × MarkedSuites) :
    (noteBroken module f).on s = if f.escapes then (.error f, s)
      else (.ok (), s.1.write (brokenLine module f), s.2) := by
  rw [noteBroken, rethrowUnrecoverable, Fault.escapes, hf, Bool.not_true, Bool.false_or]
  cases f.isUnrecoverable <;> rfl

/-- What is done after an import, when of a module that is broken no more is made than a note: that
    goes for all modules that cannot be imported for another reason than that they are absent. -/
theorem on_importModule_bind {α : Type} {k : Imported → Looking α} {v : α}
    (hbroken : ∀ f, k (.broken f) = noteBroken module f >>= fun _ => pure v) :
    (importModule table module >>= k).on s = match ((table.load module).on s.2.store).1 with
      | .ok scope => (k (.found scope)).on (afterImporting table [module] s)
      | .error f =>
        if f.kind.isImport then (k .missing).on (afterImporting table [module] s)
        else if f.escapes then (.error f, afterImporting table [module] s)
        else (.ok v, s.1.write (brokenLine module f), (afterImporting table [module] s).2) := by
  have hon : (importModule table module).on s = _ := on_importModule module s
  cases hout : ((table.load module).on s.2.store).1 with
  | ok scope =>
      rw [hout, imported] at hon
      rw [Steps.on_bind_ok hon]
  | error f =>
      rw [hout, imported] at hon
      dsimp only
      by_cases himport : f.kind.isImport = true
      · rw [if_pos himport] at hon ⊢
        rw [Steps.on_bind_ok hon]
      rw [if_neg himport] at hon ⊢
      by_cases hexception : f.isException = true
      · rw [if_pos hexception] at hon
        have hnote := on_noteBroken module f hexception (afterImporting table [module] s)
        rw [Steps.on_bind_ok hon, hbroken]
        by_cases hescapes : f.escapes = true
        · rw [if_pos hescapes] at hnote ⊢
          rw [Steps.on_bind_error hnote]
        · rw [if_neg hescapes] at hnote ⊢
          rw [Steps.on_bind_ok hnote]
          rfl
      · rw [if_neg hexception] at hon
        have hescapes : f.escapes = true := by
          rw [Fault.escapes, eq_false_of_ne_true hexception, Bool.not_false, Bool.true_or]
        rw [Steps.on_bind_error hon, if_pos hescapes]

/-! ## Memory -/

theorem on_suiteOfClass (name : String) (s : Journal × MarkedSuites) :
    (suiteOfClass table name).on s = match s.2.classes.get? name with
      | some known => (.ok known, s)
      | none => match (lookForClass table name).on s with
        | (.ok found, t) => (.ok found, t.1, { t.2 with classes := t.2.classes.insert name found })
        | (.error f, t) => (.error f, t) := by
  rw [suiteOfClass, Steps.on_bind_ok (Steps.on_get s)]
  cases s.2.classes.get? name with
  | some known => rfl
  | none =>
      dsimp only
      rw [Steps.on_bind]
      rcases (lookForClass table name).on s with ⟨f | found, t⟩ <;> rfl

theorem on_suitesOfModule (name : String) (s : Journal × MarkedSuites) :
    (suitesOfModule table name).on s = match s.2.modules.get? name with
      | some known => (.ok known, s)
      | none => match (lookInModule table name).on s with
        | (.ok found, t) => (.ok found, t.1, { t.2 with modules := t.2.modules.insert name found })
        | (.error f, t) => (.error f, t) := by
  rw [suitesOfModule, Steps.on_bind_ok (Steps.on_get s)]
  cases s.2.modules.get? name with
  | some known => rfl
  | none =>
      dsimp only
      rw [Steps.on_bind]
      rcases (lookInModule table name).on s with ⟨f | found, t⟩ <;> rfl

theorem on_suitesFor_ofClass (name : Text.NonBlank) (s : Journal × MarkedSuites) :
    (suitesFor table (.ofClass name)).on s
      = (((suiteOfClass table name.text).on s).1.map Option.toList,
          ((suiteOfClass table name.text).on s).2) := by
  rw [suitesFor, Steps.on_bind]
  rcases (suiteOfClass table name.text).on s with ⟨f | found, t⟩ <;> rfl

end MarkedSuites

end TestLauncher
