import TestLauncher.Proofs.Listener.Tallies

/-! # Summaries of the latest run

    A listener that keeps a summary may live through many executions, and be told of
    anything: of nodes no plan has, of an end without a start, of a skip that fails while the
    nodes below are looked up.  Its summary is about the latest execution alone, and it is
    the one that a listener has which never heard of an earlier one
    (`Listener.summing_latest`).  From the start of the execution on, each event adds to the
    failures the one that it reports, if any, and to the counts of failed nodes the same one
    (`Summary.Reports`).  So the failures can be read off the events, and the counts off the
    failures. -/

namespace TestLauncher

/-- The failure that an event reports, if it does. -/
def NodeEvent.failure? : NodeEvent Identifier → Option Failure
  | finished i result =>
    match result.status with
    | .failed => some ⟨i, result.fault?⟩
    | _ => none
  | _ => none

/-- The failure that an event reports, if it does. -/
def Event.failure? : Event → Option Failure
  | about e => e.failure?
  | _ => none

namespace Summary

variable {s s' s'' : Summary} {fs fs' : List Failure}

/-! ## What events report -/

/-- Failures were reported: they are listed behind those there were, and each sort of nodes has as
    many failures more as there are nodes of that sort among them.  The plan is the same. -/
structure Reports (s s' : Summary) (fs : List Failure) : Prop where
  plan? : s'.plan? = s.plan?
  failures : s'.failures = s.failures ++ fs
  failed : ∀ c : Column, (s'.column c).number .failed
    = (s.column c).number .failed + fs.countP fun f => c.has f.identifier

theorem Reports.refl (s : Summary) : Reports s s [] :=
  ⟨rfl, (List.append_nil _).symm, fun _ => rfl⟩

theorem Reports.trans (h : Reports s s' fs) (h' : Reports s' s'' fs') :
    Reports s s'' (fs ++ fs') where
  plan? := h'.plan?.trans h.plan?
  failures := by rw [h'.failures, h.failures, List.append_assoc]
  failed := fun c => by rw [h'.failed, h.failed, List.countP_append, Nat.add_assoc]

/-- What is counted as anything but failed reports no failure. -/
theorem reports_count {k : Happening} (hk : k ≠ .failed) (s : Summary) (i : Identifier) :
    Reports s (s.count k i) [] where
  plan? := rfl
  failures := (List.append_nil _).symm
  failed := fun c => by rw [number_count, counted, if_neg hk, List.countP_nil, List.countP_nil]

theorem reports_foldl {k : Happening} (hk : k ≠ .failed) (s : Summary) (is : List Identifier) :
    Reports s (is.foldl (fun s i => s.count k i) s) [] := by
  induction is generalizing s with
  | nil => exact .refl s
  | cons i is ih => exact (reports_count hk s i).trans (ih (s.count k i))

/-- The end of a node reports a failure exactly if it failed. -/
theorem reports_finished (s : Summary) (clock : Float) (i : Identifier) (result : ExecutionResult) :
    Reports s (s.heard clock (.about (.finished i result)))
      (NodeEvent.finished i result).failure?.toList := by
  obtain ⟨status, fault?⟩ := result
  cases status with
  | successful =>
      have hk : Happening.succeeded ≠ .failed := by decide
      exact reports_count hk s i
  | aborted =>
      have hk : Happening.aborted ≠ .failed := by decide
      exact reports_count hk s i
  | failed =>
      refine ⟨rfl, rfl, fun c => ?_⟩
      have hnumber := number_count s .failed .failed i c
      rw [counted, if_pos rfl] at hnumber
      cases c <;> exact hnumber

/-- Whatever an event is about, unless it is the start of an execution, it reports what can be read
    off it. -/
theorem reports_heard (s : Summary) (clock : Float) {e : Event}
    (he : ∀ plan, e ≠ .planStarted plan) :
    Reports s (s.heard clock e) e.failure?.toList := by
  cases e with
  | planStarted plan => exact absurd rfl (he plan)
  | planFinished plan => exact ⟨rfl, (List.append_nil _).symm, fun c => by cases c <;> rfl⟩
  | about e =>
      cases e with
      | registered i => exact reports_count (by decide) s i
      | started i => exact reports_count (by decide) s i
      | published i entry => exact .refl s
      | finished i result => exact reports_finished s clock i result
      | skipped i reason =>
          -- the node is counted even if those below it cannot be listed
          have hself : Reports s (s.count .skipped i) [] := reports_count (by decide) s i
          rw [heard, after, afterNode]
          cases s.skippedWith i with
          | error f => exact hself
          | ok is => exact hself.trans (reports_foldl (by decide) _ is)

/-- The summary after events, each at its time, however each of them ends. -/
def hearing (s : Summary) (events : List (Float × Event)) : Summary :=
  events.foldl (fun s e => s.heard e.1 e.2) s

theorem reports_hearing {events : List (Float × Event)}
    (h : ∀ e ∈ events, ∀ plan, e.2 ≠ .planStarted plan) (s : Summary) :
    Reports s (s.hearing events) (events.filterMap fun e => e.2.failure?) := by
  induction events generalizing s with
  | nil => exact .refl s
  | cons e events ih =>
      obtain ⟨he, hevents⟩ := List.forall_mem_cons.mp h
      have hboth := (reports_heard s e.1 he).trans (ih hevents (s.heard e.1 e.2))
      rw [List.filterMap_cons]
      cases hfailure : e.2.failure? with
      | none =>
          rw [hfailure] at hboth
          exact hboth
      | some f =>
          rw [hfailure] at hboth
          exact hboth

/-! ## Counting failures -/

/-- A node counts as a container, as a test, or as both. -/
theorem countP_kinds (fs : List Failure) :
    (fs.countP fun f => f.identifier.isContainer) + (fs.countP fun f => f.identifier.isTest)
      = fs.length + fs.countP fun f => decide (f.identifier.kind = .containerAndTest) := by
  induction fs with
  | nil => rfl
  | cons f fs ih =>
      rw [List.countP_cons, List.countP_cons, List.countP_cons, List.length_cons,
        Identifier.isContainer, Identifier.isTest]
      cases f.identifier.kind <;> simp [NodeKind.isContainer, NodeKind.isTest] <;> omega

theorem Reports.totalFailures {plan : TestPlan} {clock : Float}
    (h : Reports (opened plan clock) s fs) :
    s.failures = fs ∧ s.totalFailures
      = fs.length + fs.countP fun f => decide (f.identifier.kind = .containerAndTest) := by
  refine ⟨h.failures, ?_⟩
  have hcontainers : s.containers.failed = _ := h.failed .containers
  have htests : s.tests.failed = _ := h.failed .tests
  rw [number_opened, if_neg (by decide), Nat.zero_add] at hcontainers htests
  rw [Summary.totalFailures, hcontainers, htests]
  exact countP_kinds fs

end Summary

/-! ## The listener -/

namespace Listener

/-- The state after a listener was told of events, each at its time, whatever came of it. -/
def afterHearing (l : Listener Observations) (events : List (Float × Event))
    (s : Journal × Observations) : Journal × Observations :=
  events.foldl (fun s e => ((l.receive e.2).on (s.1, { s.2 with clock := e.1 })).2) s

/-- A listener that keeps a summary keeps what was heard, however each event ended. -/
theorem summary_afterHearing (name : String) (events : List (Float × Event))
    (s : Journal × Observations) :
    ((summing name).afterHearing events s).2.summary name
      = (s.2.summary name).hearing events := by
  induction events generalizing s with
  | nil => rfl
  | cons e events ih =>
      have hfirst : Observations.summary
          (((summing name).receive e.2).on (s.1, { s.2 with clock := e.1 })).2.2 name
            = (s.2.summary name).heard e.1 e.2 := by
        rw [summing, Steps.on_bind_ok (Steps.on_get _)]
        dsimp only
        rw [Steps.on_bind_ok (Steps.on_set ..), Steps.on_ofExcept, Observations.summary,
          OrderedMap.getD, OrderedMap.get?_insert, if_pos rfl]
        rfl
      rw [afterHearing, List.foldl_cons, ← afterHearing, ih, hfirst]
      rfl

/-- **A summary is about the latest execution.**  Whatever a listener was told before, whether or
    not it failed on some of it, after the start of an execution and events that start no other its
    summary is that of a listener which was told of nothing else.  It lists the nodes that failed in
    the order in which they ended, each with the fault it ended with, and counts one failure for
    each of them, and one more for each that is a container as well as a test. -/
theorem summing_latest (name : String) (before run : List (Float × Event)) (start : Float)
    (plan : TestPlan) (j j' : Journal) (o : Observations)
    (hrun : ∀ e ∈ run, ∀ plan, e.2 ≠ .planStarted plan) :
    ∃ s : Summary,
      (((summing name).afterHearing (before ++ (start, .planStarted plan) :: run) (j, o)).2.summary
        name).current = .ok s ∧
      (((summing name).afterHearing ((start, .planStarted plan) :: run) (j', ∅)).2.summary
        name).current = .ok s ∧
      s.failures = run.filterMap (fun e => e.2.failure?) ∧
      s.totalFailures = s.failures.length
        + s.failures.countP fun f => decide (f.identifier.kind = .containerAndTest) := by
  have hreports := Summary.reports_hearing hrun (Summary.opened plan start)
  obtain ⟨hfailures, htotal⟩ := hreports.totalFailures
  have hcurrent : ((Summary.opened plan start).hearing run).current
      = .ok ((Summary.opened plan start).hearing run) := by
    rw [Summary.current, hreports.plan?]
    rfl
  refine ⟨(Summary.opened plan start).hearing run, ?_, ?_, hfailures, ?_⟩
  · rw [summary_afterHearing, Summary.hearing, List.foldl_append, List.foldl_cons]
    exact hcurrent
  · rw [summary_afterHearing, Summary.hearing, List.foldl_cons]
    exact hcurrent
  · rw [hfailures]
    exact htotal

/-- An execution in which a test failed, and another in which a node fails that is registered
    meanwhile and is both, and then the test again, without having been started.  The root is
    skipped.  The second execution has two failures, which count as three. -/
theorem summing_latest_mixed :
    let e : Identifier := ⟨"[engine:e]", none, "first", .container, ∅, none⟩
    let t : Identifier := ⟨"[engine:e]/[test:t]", some "[engine:e]", "t", .test, ∅, none⟩
    let m : Identifier :=
      ⟨"[engine:e]/[node:m]", some "[engine:e]", "m", .containerAndTest, ∅, none⟩
    let f : Fault := .raised .runtime (some "no")
    let before : List (Float × Event) :=
      [(1, .planStarted {}), (2, .about (.finished t ⟨.failed, f⟩))]
    ∃ plan, TestPlan.ofRoots TestPlan.twins [⟨0⟩] = .ok plan ∧
    let run : List (Float × Event) := [(4, .about (.registered m)), (5, .about (.started m)),
      (6, .about (.finished m ⟨.failed, f⟩)), (7, .about (.skipped e "no")),
      (8, .about (.finished t ⟨.failed, none⟩)), (9, .planFinished plan)]
    (∀ e ∈ run, ∀ plan, e.2 ≠ .planStarted plan) ∧
    ∃ s : Summary,
      (((summing "S").afterHearing (before ++ (3, .planStarted plan) :: run) (∅, ∅)).2.summary
        "S").current = .ok s ∧
      s.failures = [⟨m, f⟩, ⟨t, none⟩] ∧ s.totalFailures = 3 := by
  intro e t m f before
  obtain ⟨plan, hplan⟩ : ∃ plan, TestPlan.ofRoots TestPlan.twins [⟨0⟩] = .ok plan := by
    have hok : (TestPlan.ofRoots TestPlan.twins [⟨0⟩]).toOption.isSome = true := by decide +kernel
    cases hmade : TestPlan.ofRoots TestPlan.twins [⟨0⟩] with
    | ok plan => exact ⟨plan, rfl⟩
    | error f =>
        rw [hmade] at hok
        cases hok
  refine ⟨plan, hplan, ?_⟩
  intro run
  have hrun : ∀ e ∈ run, ∀ plan, e.2 ≠ .planStarted plan := by simp [run]
  obtain ⟨s, hs, -, hfailures, htotal⟩ := summing_latest "S" before run 3 plan ∅ ∅ ∅ hrun
  have hlisted : s.failures = [⟨m, f⟩, ⟨t, none⟩] := hfailures
  refine ⟨hrun, s, hs, hlisted, ?_⟩
  rw [htotal, hlisted]
  rfl

end Listener

end TestLauncher
