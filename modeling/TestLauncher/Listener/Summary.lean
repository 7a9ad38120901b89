import TestLauncher.Event
import TestLauncher.Numeric.Notation

/-! # Summaries

    A summary tells how the latest execution of a plan went: for containers and for tests
    it counts how many were found, started and skipped and how their execution ended, and
    it lists the failures.  A node that is both counts twice.  When a node of the plan is
    skipped, so is everything below it.  The start of an execution begins a new summary. -/

namespace TestLauncher

/-- How often each thing happened to nodes of one sort. -/
structure Tally where
  found : Nat := 0
  started : Nat := 0
  skipped : Nat := 0
  aborted : Nat := 0
  succeeded : Nat := 0
  failed : Nat := 0
deriving DecidableEq, Repr

/-- What can be counted of a node. -/
inductive Happening where
  | found
  | started
  | skipped
  | aborted
  | succeeded
  | failed
deriving DecidableEq, Repr

/-- The tally after one more happening. -/
def Tally.count (t : Tally) : Happening → Tally
  | .found => { t with found := t.found + 1 }
  | .started => { t with started := t.started + 1 }
  | .skipped => { t with skipped := t.skipped + 1 }
  | .aborted => { t with aborted := t.aborted + 1 }
  | .succeeded => { t with succeeded := t.succeeded + 1 }
  | .failed => { t with failed := t.failed + 1 }

/-- The numbers of a tally in the order in which they are listed. -/
def Tally.toList (t : Tally) : List Nat :=
  [t.found, t.started, t.skipped, t.aborted, t.succeeded, t.failed]

/-- A node that failed. -/
structure Failure where
  identifier : Identifier
  fault? : Option Fault
deriving DecidableEq

/-- What is known of the latest execution of a plan. -/
structure Summary where
  /-- The plan, once an execution has started. -/
  plan? : Option TestPlan := none
  containers : Tally := {}
  tests : Tally := {}
  failures : List Failure := []
  startedAt : Float := 0
  /-- When the execution finished. -/
  finishedAt? : Option Float := none

namespace Summary

instance : EmptyCollection Summary where
  emptyCollection := {}

/-- The summary after something happened to a node. -/
def count (s : Summary) (h : Happening) (i : Identifier) : Summary :=
  { s with
    containers := if i.isContainer then s.containers.count h else s.containers
    tests := if i.isTest then s.tests.count h else s.tests }

/-- The happening that an end of execution is. -/
def happeningOf : ExecutionStatus → Happening
  | .successful => .succeeded
  | .aborted => .aborted
  | .failed => .failed

/-- The nodes a skipped node takes with it. -/
def skippedWith (s : Summary) (i : Identifier) : Except Fault (List Identifier) :=
  match s.plan? with
  | none => .ok []
  | some plan => if plan.contains i.id then plan.descendantsOf i else .ok []

/-- The summary after something was told of a node. -/
def afterNode (s : Summary) : NodeEvent Identifier → Except Fault Summary
  | .registered i => .ok (s.count .found i)
  | .started i => .ok (s.count .started i)
  | .skipped i _ => do
    return (← s.skippedWith i).foldl (fun s i => s.count .skipped i) (s.count .skipped i)
  | .finished i result =>
    let s := s.count (happeningOf result.status) i
    .ok <| match result.status with
      | .failed => { s with failures := s.failures ++ [⟨i, result.fault?⟩] }
      | _ => s
  | .published _ _ => .ok s

/-- The summary after an event at some time. -/
def after (s : Summary) (clock : Float) : Event → Except Fault Summary
  | .planStarted plan => .ok {
      plan? := some plan
      containers := { found := plan.count Identifier.isContainer }
      tests := { found := plan.count Identifier.isTest }
      startedAt := clock }
  | .planFinished _ => .ok { s with finishedAt? := some clock }
  | .about e => s.afterNode e

/-- What an event leaves when it fails: when the nodes below a skipped one cannot be listed, that
one has been counted. -/
def leftBy (s : Summary) : Event → Summary
  | .about (.skipped i _) => s.count .skipped i
  | _ => s

/-- The summary after an event at some time, however that ends. -/
def heard (s : Summary) (clock : Float) (e : Event) : Summary :=
  match s.after clock e with
  | .ok s' => s'
  | .error _ => s.leftBy e

/-- The summary itself, once an execution has started. -/
def current (s : Summary) : Except Fault Summary :=
  match s.plan? with
  | none => .error .neverStarted
  | some _ => .ok s

/-- How many failures were counted, a node that is both a container and a test twice. -/
def totalFailures (s : Summary) : Nat := s.containers.failed + s.tests.failed

/-- How long the execution took; while it runs, how long it has run. -/
def duration (s : Summary) (clock : Float) : Float := s.finishedAt?.getD clock - s.startedAt

/-! ## The summary as a text -/

/-- A line of one character. -/
def ruler (c : Char) : String := String.ofList (List.replicate 80 c)

/-- A count, right-aligned, before what was counted. -/
def countLine (n : Nat) (what : String) : String :=
  let digits := (toString n).toList
  String.ofList (List.replicate (6 - digits.length) ' ' ++ digits) ++ " " ++ what

/-- The lines for the nodes of one sort. -/
def tallyLines (sort : String) (t : Tally) : List String :=
  [countLine t.found (sort ++ " found"), countLine t.skipped (sort ++ " skipped"),
    countLine t.started (sort ++ " started"), countLine t.aborted (sort ++ " aborted"),
    countLine t.succeeded (sort ++ " successful"), countLine t.failed (sort ++ " failed")]

/-- The line for a failure. -/
def failureLine (f : Failure) : String :=
  match f.fault? with
  | none => "  " ++ f.identifier.name
  | some fault => "  " ++ f.identifier.name ++ " => " ++ fault.shown

/-- The lines for the failures, if there are any. -/
def failureLines (failures : List Failure) : List String :=
  if failures.isEmpty then []
  else ["", ruler '-', "FAILURES", ruler '-'] ++ failures.map failureLine

/-- The summary as a text for people. -/
def format (s : Summary) (clock : Float) : String :=
  String.intercalate "\n" <|
    [ruler '=', "TEST EXECUTION SUMMARY", ruler '=',
      "Duration: " ++ Numeric.showFixed 3 (s.duration clock) ++ "s", ""]
    ++ tallyLines "containers" s.containers ++ tallyLines "tests" s.tests
    ++ failureLines s.failures ++ [ruler '=']

end Summary

end TestLauncher
