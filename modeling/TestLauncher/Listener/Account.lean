import TestLauncher.Event
import TestLauncher.Journal

/-! # Accounts of events

    What the logging listener writes about an event: one line each, with the fault
    attached when a node did not finish as it should. -/

namespace TestLauncher

/-- The line about something that happened to a node. -/
def NodeEvent.account : NodeEvent Identifier → String
  | registered i => "Dynamic test registered: " ++ i.id
  | skipped i reason => "Execution skipped: " ++ i.name ++ " - " ++ reason
  | started i => "Execution started: " ++ i.name
  | finished i result =>
    "Execution finished: " ++ i.name ++ " - " ++ result.status.word.map Char.toUpper
  | published i entry =>
    "Reporting entry published for " ++ i.name ++ ": " ++
      String.intercalate ", " (entry.values.toList.map fun e => e.1 ++ "=" ++ e.2)

/-- The fault worth attaching to the line about an event. -/
def NodeEvent.attachment : NodeEvent Identifier → Option Fault
  | finished _ result =>
    match result.status with
    | .successful => none
    | _ => result.fault?
  | _ => none

/-- The line about an event. -/
def Event.account : Event → String
  | planStarted plan =>
    "Test plan execution started with " ++ toString plan.roots.length ++ " root(s) and " ++
      toString plan.size ++ " node(s)"
  | planFinished plan => "Test plan execution finished: " ++ plan.shown
  | about e => e.account

/-- The record a listener that logs at a level makes of an event. -/
def Event.record (e : Event) (logger : String) (level : Int) : LogRecord where
  level := level
  logger := logger
  message := e.account
  fault? :=
    match e with
    | about e => e.attachment
    | _ => none

end TestLauncher
