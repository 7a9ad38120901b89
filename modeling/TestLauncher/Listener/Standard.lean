import TestLauncher.Listener.Account
import TestLauncher.Listener.Basic
import TestLauncher.Listener.Summary

/-! # The standard listeners

    Listeners that record events, sum them up, or log them.  What they know is kept
    together: one log of events, the summaries under the names of their listeners, and
    the time. -/

namespace TestLauncher

/-- What the standard listeners know. -/
structure Observations where
  /-- Every recorded event with the name of the listener that recorded it. -/
  log : List (String × Event) := []
  summaries : OrderedMap String Summary := ∅
  clock : Float := 0

namespace Observations

instance : EmptyCollection Observations where
  emptyCollection := {}

/-- What is known after a listener recorded an event. -/
def note (o : Observations) (name : String) (e : Event) : Observations :=
  { o with log := o.log ++ [(name, e)] }

/-- The summary of a listener. -/
def summary (o : Observations) (name : String) : Summary := o.summaries.getD name ∅

end Observations

namespace Listener

/-- A listener that records every event, and fails on those of one word after recording them. -/
def recording (name : String) (failing : Option (String × Fault)) : Listener Observations where
  name := name
  receive e := do
    modify fun (j, o) => (j, o.note name e)
    match failing with
    | none => pure ()
    | some (word, f) => if e.word = word then throw f else pure ()

/-- A listener that keeps a summary. -/
def summing (name : String) : Listener Observations where
  name := name
  receive e := do
    let (j, o) ← get
    let s := o.summary name
    set (j, { o with summaries := o.summaries.insert name (s.heard o.clock e) })
    Steps.ofExcept ((s.after o.clock e).map fun _ => ())

/-- The logger that logging listeners write to when none is given. -/
def usualLogger : String := "quiver.adapters.listeners.log"

/-- A listener that writes every event to the journal at one level. -/
def logging {ω : Type} (name logger : String) (level : Int) : Listener ω where
  name := name
  receive e := modify fun (j, o) => (j.write (e.record logger level), o)

end Listener

end TestLauncher
