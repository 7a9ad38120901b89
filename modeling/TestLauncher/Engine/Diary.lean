import TestLauncher.Engine.Basic

/-! # Diaries of engines

    The engines of this library that stand in for real ones are numbered, and keep a
    diary each: the calls they got, and the root they made last. -/

namespace TestLauncher

/-- What one engine remembers. -/
structure Diary where
  /-- The ids it was asked to discover under. -/
  discoveries : List UniqueId := []
  /-- How often it was asked to execute. -/
  executions : Nat := 0
  /-- The root it made last. -/
  root? : Option NodeRef := none

instance : EmptyCollection Diary where
  emptyCollection := {}

/-- The diaries under the numbers of their engines. -/
abbrev Diaries := OrderedMap Nat Diary

namespace Diaries

/-- The diary of an engine. -/
def of (diaries : Diaries) (engine : Nat) : Diary := diaries.getD engine ∅

/-- The diaries after one of them changed. -/
def enter (diaries : Diaries) (engine : Nat) (change : Diary → Diary) : Diaries :=
  diaries.insert engine (change (diaries.of engine))

/-- Enters a call to discover. -/
def enterDiscovery (engine : Nat) (id : UniqueId) : Steps (Forest × Diaries) Unit :=
  modify fun (f, ds) =>
    (f, enter ds engine fun d => { d with discoveries := d.discoveries ++ [id] })

/-- Enters a root. -/
def enterRoot (engine : Nat) (root : NodeRef) : Steps (Forest × Diaries) Unit :=
  modify fun (f, ds) => (f, enter ds engine fun d => { d with root? := some root })

/-- Enters a call to execute. -/
def enterExecution (engine : Nat) : Steps (Forest × Diaries) Unit :=
  modify fun (f, ds) => (f, enter ds engine fun d => { d with executions := d.executions + 1 })

end Diaries

end TestLauncher
