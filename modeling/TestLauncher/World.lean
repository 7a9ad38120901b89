import TestLauncher.Engine.Basic
import TestLauncher.Listener.Basic
import TestLauncher.Suite.Declaration

/-! # The world of a launcher

    A run of the launcher acts on the forest, on the journal, and on what the engines, the
    listeners and the suite resolver know.  Each of the three sees its own state and no
    other: engines the forest, listeners and the resolver the journal. -/

namespace TestLauncher

/-- All a run acts on. -/
structure World (κ ω ρ : Type) where
  forest : Forest := ∅
  journal : Journal := ∅
  /-- What the engines know. -/
  engines : κ
  /-- What the listeners know. -/
  listeners : ω
  /-- What the suite resolver knows. -/
  resolver : ρ

/-- Steps on the world. -/
abbrev Run (κ ω ρ : Type) := Steps (World κ ω ρ)

namespace Run

variable {κ ω ρ α : Type}

/-- What an engine sees. -/
def engineView (w : World κ ω ρ) : Forest × κ := (w.forest, w.engines)

/-- The world after an engine acted. -/
def afterEngine (s : Forest × κ) (w : World κ ω ρ) : World κ ω ρ :=
  { w with forest := s.1, engines := s.2 }

/-- Steps taken by an engine. -/
def byEngine (steps : Steps (Forest × κ) α) : Run κ ω ρ α := steps.within engineView afterEngine

/-- Steps taken by listeners. -/
def byListeners (steps : Steps (Journal × ω) α) : Run κ ω ρ α :=
  steps.within (fun w => (w.journal, w.listeners))
    fun s w => { w with journal := s.1, listeners := s.2 }

/-- Steps taken by the suite resolver. -/
def byResolver (steps : Steps (Journal × ρ) α) : Run κ ω ρ α :=
  steps.within (fun w => (w.journal, w.resolver))
    fun s w => { w with journal := s.1, resolver := s.2 }

/-- Steps on the forest and the journal. -/
def onForest (steps : Steps (Forest × Journal) α) : Run κ ω ρ α :=
  steps.within (fun w => (w.forest, w.journal)) fun s w => { w with forest := s.1, journal := s.2 }

/-- Writes to the journal. -/
def log (r : LogRecord) : Run κ ω ρ Unit := modify fun w => { w with journal := w.journal.write r }

/-- What an engine does, with its events delivered as given. -/
def perform (deliver : NodeEvent NodeRef → Run κ ω ρ Unit) (activity : Activity κ α) :
    Run κ ω ρ α :=
  activity.perform engineView afterEngine deliver

end Run

end TestLauncher
