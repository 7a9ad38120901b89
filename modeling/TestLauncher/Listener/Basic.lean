import TestLauncher.Event
import TestLauncher.Journal
import TestLauncher.Steps

/-! # Listeners

    A listener receives events.  What all listeners know is one state `ω`, on which each
    of them acts, and every listener may write to the journal.  An event goes through a
    list of listeners in order; one that fails ends its way. -/

namespace TestLauncher

/-- Something that receives events. -/
structure Listener (ω : Type) where
  name : String
  receive : Event → Steps (Journal × ω) Unit

namespace Listener

variable {ω : Type}

/-- A listener that takes no notice. -/
def silent (name : String) : Listener ω := ⟨name, fun _ => pure ()⟩

/-- Hands an event to listeners, one after the other. -/
def fanOut (listeners : List (Listener ω)) (e : Event) : Steps (Journal × ω) Unit :=
  listeners.forM fun l => l.receive e

/-- The listeners with some more behind them, unless one of those is absent. -/
def register (listeners : List (Listener ω)) (more : List (Option (Listener ω))) :
    Except Fault (List (Listener ω)) := do
  return listeners ++ (← Require.allPresent more "individual listeners must not be None")

/-- Hands what an engine tells to listeners, with the identifiers of a plan. -/
def relay (listeners : List (Listener ω)) (plan : TestPlan) (f : Forest)
    (e : NodeEvent NodeRef) : Steps (Journal × ω) Unit :=
  match plan.identify? f e with
  | none => pure ()
  | some e => fanOut listeners (.about e)

@[simp] theorem fanOut_nil (e : Event) : fanOut ([] : List (Listener ω)) e = pure () := rfl

@[simp] theorem fanOut_cons (l : Listener ω) (ls : List (Listener ω)) (e : Event) :
    fanOut (l :: ls) e = l.receive e >>= fun _ => fanOut ls e := rfl

end Listener

end TestLauncher
