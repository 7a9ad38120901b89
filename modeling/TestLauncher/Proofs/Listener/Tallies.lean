import Mathlib.Algebra.BigOperators.Group.List.Basic
import Mathlib.Algebra.GroupWithZero.Nat
import TestLauncher.Listener.Standard
import TestLauncher.Proofs.Plan.Ancestors

/-! # What summaries count

    A summary tells how often things happened and not to which nodes.  Yet each event about
    a plan counts certain identifiers of the plan, none twice (`Summary.hits`).  So what a
    run adds to a number is, identifier by identifier, how many of its events count that
    identifier (`Summary.number_hear`).

    When each node was either started or skipped, every identifier is counted once, whatever
    the order of the events and whichever subtrees were skipped
    (`Listener.summing_conserves`). -/

namespace TestLauncher

/-- The number a tally has for a happening. -/
def Tally.number (t : Tally) : Happening → Nat
  | .found => t.found
  | .started => t.started
  | .skipped => t.skipped
  | .aborted => t.aborted
  | .succeeded => t.succeeded
  | .failed => t.failed

theorem Tally.number_count (t : Tally) (h k : Happening) :
    (t.count k).number h = t.number h + if k = h then 1 else 0 := by
  cases h <;> cases k <;> rfl

namespace NodeEvent

/-- Whether an event says that a node was started. -/
def startsNode (i : Identifier) : NodeEvent Identifier → Bool
  | started a => a = i
  | _ => false

/-- Whether an event says that a node was skipped. -/
def skipsNode (i : Identifier) : NodeEvent Identifier → Bool
  | skipped a _ => a = i
  | _ => false

/-- Whether an event says that a node was finished. -/
def finishesNode (i : Identifier) : NodeEvent Identifier → Bool
  | finished a _ => a = i
  | _ => false

end NodeEvent

namespace Summary

variable {s s' : Summary} {plan : TestPlan} {e : NodeEvent Identifier}

/-- The sorts of nodes that are counted apart. -/
inductive Column where
  | containers
  | tests

/-- Whether a node is of a sort. -/
def Column.has : Column → Identifier → Bool
  | containers => Identifier.isContainer
  | tests => Identifier.isTest

/-- The tally of a sort. -/
def column (s : Summary) : Column → Tally
  | .containers => s.containers
  | .tests => s.tests

theorem column_count (s : Summary) (h : Happening) (i : Identifier) (c : Column) :
    (s.count h i).column c = if c.has i then (s.column c).count h else s.column c := by
  cases c <;> rfl

/-- The identifiers, if they are counted for the happening in question. -/
def counted (k h : Happening) (is : List Identifier) : List Identifier :=
  if k = h then is else []

theorem number_count (s : Summary) (k h : Happening) (i : Identifier) (c : Column) :
    ((s.count k i).column c).number h
      = (s.column c).number h + (counted k h [i]).countP c.has := by
  rw [column_count, counted]
  cases hc : c.has i with
  | true =>
      rw [if_pos rfl, Tally.number_count]
      split <;> simp [hc]
  | false =>
      rw [if_neg Bool.false_ne_true]
      split <;> simp [hc]

theorem number_foldl (s : Summary) (k h : Happening) (is : List Identifier) (c : Column) :
    ((is.foldl (fun s i => s.count k i) s).column c).number h
      = (s.column c).number h + (counted k h is).countP c.has := by
  induction is generalizing s with
  | nil =>
      rw [counted, ite_self]
      rfl
  | cons i is ih =>
      rw [List.foldl_cons, ih, number_count, Nat.add_assoc, ← List.countP_append, counted, counted,
        counted]
      split <;> rfl

theorem plan?_foldl (s : Summary) (k : Happening) (is : List Identifier) :
    (is.foldl (fun s i => s.count k i) s).plan? = s.plan? := by
  induction is generalizing s with
  | nil => rfl
  | cons i is ih => exact ih (s.count k i)

/-! ## One event -/

/-- The identifiers that an event about a plan counts for a happening. -/
def hits (plan : TestPlan) (h : Happening) : NodeEvent Identifier → List Identifier
  | .registered i => counted .found h [i]
  | .started i => counted .started h [i]
  | .skipped i _ => counted .skipped h (i :: ((plan.descendantsOf i).toOption.getD []))
  | .finished i result => counted (happeningOf result.status) h [i]
  | .published _ _ => []

/-- An event of an execution of a plan: the start, the skip or the end of a node of the plan, or
    data that is published. -/
def Regular (plan : TestPlan) : NodeEvent Identifier → Prop
  | .registered _ => False
  | .started i => i ∈ plan.identifiers.values
  | .skipped i _ => i ∈ plan.identifiers.values
  | .finished i _ => i ∈ plan.identifiers.values
  | .published _ _ => True

theorem afterNode_regular (hplan : plan.Layered) (hs : s.plan? = some plan)
    (he : Regular plan e) : ∃ s', s.afterNode e = .ok s' ∧ s'.plan? = some plan ∧
      ∀ c h, (s'.column c).number h = (s.column c).number h + (hits plan h e).countP c.has := by
  cases e with
  | registered i => exact absurd he id
  | published i entry => exact ⟨s, rfl, hs, fun _ _ => rfl⟩
  | started i => exact ⟨_, rfl, hs, fun c h => number_count s .started h i c⟩
  | skipped i reason =>
      obtain ⟨ds, hds, -⟩ := hplan.descendants i he
      have hwith : s.skippedWith i = .ok ds := by
        rw [skippedWith, hs]
        exact (if_pos (hplan.contains i he)).trans hds
      refine ⟨ds.foldl (fun s i => s.count .skipped i) (s.count .skipped i),
        by rw [afterNode, hwith]; rfl, (plan?_foldl _ _ _).trans hs, fun c h => ?_⟩
      rw [number_foldl, number_count, hits, hds, Nat.add_assoc, ← List.countP_append, counted,
        counted, counted]
      split <;> rfl
  | finished i result =>
      -- a failure is listed as well, which no tally shows
      have hnumber := number_count s (happeningOf result.status)
      rw [afterNode]
      cases hstatus : result.status with
      | failed =>
          rw [hstatus] at hnumber
          refine ⟨_, rfl, hs, fun c h => ?_⟩
          rw [hits, hstatus, ← hnumber]
          cases c <;> rfl
      | _ =>
          rw [hstatus] at hnumber
          refine ⟨_, rfl, hs, fun c h => ?_⟩
          rw [hits, hstatus, ← hnumber]

/-- An event counts identifiers of the plan only, and none twice. -/
theorem hits_subset (hplan : plan.Layered) (he : Regular plan e) (h : Happening) :
    (hits plan h e).Nodup ∧ ∀ i ∈ hits plan h e, i ∈ plan.identifiers.values := by
  have hcounted : ∀ (k : Happening) is, is.Nodup → (∀ i ∈ is, i ∈ plan.identifiers.values) →
      (counted k h is).Nodup ∧ ∀ i ∈ counted k h is, i ∈ plan.identifiers.values := by
    intro k is hn his
    rw [counted]
    split
    · exact ⟨hn, his⟩
    · exact ⟨List.nodup_nil, List.forall_mem_nil _⟩
  cases e with
  | registered i => exact absurd he id
  | published i entry => exact ⟨List.nodup_nil, List.forall_mem_nil _⟩
  | started i => exact hcounted _ _ (List.nodup_singleton i) (List.forall_mem_singleton.mpr he)
  | finished i result =>
      exact hcounted _ _ (List.nodup_singleton i) (List.forall_mem_singleton.mpr he)
  | skipped i reason =>
      obtain ⟨ds, hds, hn, hmem⟩ := hplan.descendants i he
      rw [hits, hds]
      exact hcounted _ _ hn fun j hj => ((hmem j).mp hj).1

/-! ## A run -/

/-- The summary after events, each at its time. -/
def hear (s : Summary) (events : List (Float × Event)) : Except Fault Summary :=
  events.foldlM (fun s e => s.after e.1 e.2) s

theorem number_hear (hplan : plan.Layered) (events : List (Float × NodeEvent Identifier))
    (hs : s.plan? = some plan) (hevents : ∀ e ∈ events, Regular plan e.2) :
    ∃ s', s.hear (events.map fun e => (e.1, .about e.2)) = .ok s' ∧ s'.plan? = some plan ∧
      ∀ c h, (s'.column c).number h = (s.column c).number h
        + ((events.map Prod.snd).map fun e => (hits plan h e).countP c.has).sum := by
  induction events generalizing s with
  | nil => exact ⟨s, rfl, hs, fun _ _ => rfl⟩
  | cons e events ih =>
      obtain ⟨s₁, hstep, hs₁, hnumber⟩ := afterNode_regular hplan hs (hevents e (by simp))
      obtain ⟨s₂, hrest, hs₂, hnumbers⟩ := ih hs₁ fun x hx => hevents x (by simp [hx])
      refine ⟨s₂, ?_, hs₂, fun c h => ?_⟩
      · show (s.afterNode e.2 >>= fun s => s.hear _) = _
        rw [hstep]
        exact hrest
      · rw [hnumbers, hnumber, List.map_cons, List.map_cons, List.sum_cons, Nat.add_assoc]

/-- Counting pairs from either side. -/
theorem sum_countP_comm {α β : Type} (q : α → β → Bool) (as : List α) (bs : List β) :
    (as.map fun a => bs.countP (q a)).sum = (bs.map fun b => as.countP (q · b)).sum := by
  induction bs with
  | nil => simp
  | cons b bs ih =>
      have hhead : (as.map fun a => if q a b then 1 else 0).sum = as.countP (q · b) := by
        clear ih
        induction as with
        | nil => rfl
        | cons a as iha =>
            rw [List.map_cons, List.sum_cons, List.countP_cons, iha, Nat.add_comm]
      rw [List.map_cons, List.sum_cons, ← ih, ← hhead, ← List.sum_map_add]
      refine congrArg List.sum (List.map_congr_left fun a _ => ?_)
      rw [List.countP_cons, Nat.add_comm]

/-- What a run adds to a number, identifier by identifier. -/
theorem sum_hits (hplan : plan.Layered) {es : List (NodeEvent Identifier)}
    (hes : ∀ e ∈ es, Regular plan e) (c : Column) (h : Happening) :
    (es.map fun e => (hits plan h e).countP c.has).sum
      = ((plan.identifiers.values.filter c.has).map fun i =>
          es.countP fun e => decide (i ∈ hits plan h e)).sum := by
  rw [sum_countP_comm]
  refine congrArg List.sum (List.map_congr_left fun e he => ?_)
  obtain ⟨hn, hsub⟩ := hits_subset hplan (hes e he) h
  have hperm : (plan.identifiers.values.filter fun i => decide (i ∈ hits plan h e)).Perm
      (hits plan h e) := by
    refine (List.perm_ext_iff_of_nodup (hplan.distinct.filter _) hn).mpr fun i => ?_
    rw [List.mem_filter, decide_eq_true_iff]
    exact and_iff_right_of_imp (hsub i)
  rw [← hperm.countP_eq, List.countP_filter, List.countP_filter]
  exact List.countP_congr fun i _ => by rw [Bool.and_comm]

/-! ## One identifier -/

theorem mem_hits_started (e : NodeEvent Identifier) (i : Identifier) :
    decide (i ∈ hits plan .started e) = e.startsNode i := by
  cases e with
  | started a =>
      rw [hits, counted, if_pos rfl, NodeEvent.startsNode]
      simp [eq_comm]
  | finished a result =>
      rw [hits]
      cases result.status <;> rfl
  | _ => rfl

theorem mem_hits_skipped (hplan : plan.Layered) (he : Regular plan e) {i : Identifier}
    (hi : i ∈ plan.identifiers.values) :
    i ∈ hits plan .skipped e ↔ ∃ a, plan.AtOrAbove i a ∧ e.skipsNode a = true := by
  cases e with
  | skipped a reason =>
      obtain ⟨ds, hds, -, hmem⟩ := hplan.descendants a he
      rw [hits, hds, counted, if_pos rfl]
      constructor
      · exact fun h => ⟨a, ((hmem i).mp h).2, decide_eq_true rfl⟩
      · rintro ⟨b, hb, hab⟩
        obtain rfl := of_decide_eq_true hab
        exact (hmem i).mpr ⟨hi, hb⟩
  | finished a result =>
      rw [hits]
      cases result.status <;> simp [counted, happeningOf, NodeEvent.skipsNode]
  | _ => simp [hits, counted, NodeEvent.skipsNode]

theorem countP_hits_ended (es : List (NodeEvent Identifier)) (i : Identifier) :
    es.countP (fun e => decide (i ∈ hits plan .succeeded e))
        + es.countP (fun e => decide (i ∈ hits plan .aborted e))
        + es.countP (fun e => decide (i ∈ hits plan .failed e))
      = es.countP (NodeEvent.finishesNode i) := by
  induction es with
  | nil => rfl
  | cons e es ih =>
      have hone : ((if decide (i ∈ hits plan .succeeded e) = true then 1 else 0)
          + (if decide (i ∈ hits plan .aborted e) = true then 1 else 0)
          + (if decide (i ∈ hits plan .failed e) = true then 1 else 0) : Nat)
          = if e.finishesNode i = true then 1 else 0 := by
        cases e with
        | finished a result =>
            obtain ⟨status, fault?⟩ := result
            cases status <;> simp [hits, counted, happeningOf, NodeEvent.finishesNode, eq_comm]
        | _ => simp [hits, counted, NodeEvent.finishesNode]
      simp only [List.countP_cons]
      omega

end Summary

/-- Each identifier of a plan was started once, or it was skipped once, alone or with one that is
    above it. -/
def TestPlan.SettledBy (plan : TestPlan) (es : List (NodeEvent Identifier)) : Prop :=
  ∀ i ∈ plan.identifiers.values,
    (es.countP (NodeEvent.startsNode i) = 1 ∧
      ∀ a, plan.AtOrAbove i a → es.countP (NodeEvent.skipsNode a) = 0) ∨
    (es.countP (NodeEvent.startsNode i) = 0 ∧
      ∃ a, plan.AtOrAbove i a ∧ es.countP (NodeEvent.skipsNode a) = 1 ∧
        ∀ b, plan.AtOrAbove i b → b ≠ a → es.countP (NodeEvent.skipsNode b) = 0)

namespace Summary

variable {plan : TestPlan} {es : List (NodeEvent Identifier)}

theorem counted_once (hplan : plan.Layered) (hes : ∀ e ∈ es, Regular plan e)
    (hsettled : plan.SettledBy es) {i : Identifier} (hi : i ∈ plan.identifiers.values) :
    es.countP (fun e => decide (i ∈ hits plan .started e))
      + es.countP (fun e => decide (i ∈ hits plan .skipped e)) = 1 := by
  have hstarts : es.countP (fun e => decide (i ∈ hits plan .started e))
      = es.countP (NodeEvent.startsNode i) :=
    congrArg es.countP (funext fun e => mem_hits_started e i)
  rw [hstarts]
  rcases hsettled i hi with ⟨honce, hnone⟩ | ⟨hnever, a, ha, honce, hothers⟩
  · have hskips : es.countP (fun e => decide (i ∈ hits plan .skipped e)) = 0 := by
      refine List.countP_eq_zero.mpr fun e he hmem => ?_
      obtain ⟨a, ha, hskip⟩ :=
        (mem_hits_skipped hplan (hes e he) hi).mp (of_decide_eq_true hmem)
      exact List.countP_eq_zero.mp (hnone a ha) e he hskip
    rw [honce, hskips]
  · have hskips : es.countP (fun e => decide (i ∈ hits plan .skipped e))
        = es.countP (NodeEvent.skipsNode a) := by
      refine List.countP_congr fun e he => ?_
      rw [decide_eq_true_iff, mem_hits_skipped hplan (hes e he) hi]
      constructor
      · rintro ⟨b, hb, hskip⟩
        by_cases hba : b = a
        · rwa [← hba]
        · exact absurd hskip (List.countP_eq_zero.mp (hothers b hb hba) e he)
      · exact fun hskip => ⟨a, ha, hskip⟩
    rw [hnever, hskips, honce]

/-- The summary when the execution of a plan starts. -/
def opened (plan : TestPlan) (clock : Float) : Summary where
  plan? := some plan
  containers := { found := plan.count Identifier.isContainer }
  tests := { found := plan.count Identifier.isTest }
  startedAt := clock

theorem number_opened (plan : TestPlan) (clock : Float) (c : Column) (h : Happening) :
    ((opened plan clock).column c).number h
      = if h = .found then (plan.identifiers.values.filter c.has).length else 0 := by
  rw [← List.countP_eq_length_filter]
  cases c <;> cases h <;> rfl

/-- Nothing is found any more once a plan is executed. -/
theorem hits_found {e : NodeEvent Identifier} (he : Regular plan e) :
    hits plan .found e = [] := by
  cases e with
  | registered i => exact absurd he id
  | finished i result =>
      obtain ⟨status, fault?⟩ := result
      cases status <;> rfl
  | _ => rfl

/-- The numbers after the execution of a plan, identifier by identifier. -/
theorem number_run (hplan : plan.Layered) (s : Summary) (clock : Float)
    (events : List (Float × NodeEvent Identifier)) (hevents : ∀ e ∈ events, Regular plan e.2) :
    ∃ s', s.hear ((clock, .planStarted plan) :: events.map fun e => (e.1, .about e.2)) = .ok s' ∧
      s'.plan? = some plan ∧
      ∀ c, (s'.column c).found = (plan.identifiers.values.filter c.has).length ∧
        ∀ h, h ≠ .found → (s'.column c).number h
          = ((plan.identifiers.values.filter c.has).map fun i =>
              (events.map Prod.snd).countP fun e => decide (i ∈ hits plan h e)).sum := by
  have hregular : ∀ e ∈ events.map Prod.snd, Regular plan e := by
    intro e he
    obtain ⟨x, hx, rfl⟩ := List.mem_map.mp he
    exact hevents x hx
  obtain ⟨s', hhear, hs', hnumber⟩ :=
    number_hear (s := opened plan clock) hplan events rfl hevents
  refine ⟨s', hhear, hs', fun c => ⟨?_, fun h hh => ?_⟩⟩
  · have hnone : ((events.map Prod.snd).map fun e => (hits plan .found e).countP c.has).sum
        = 0 := by
      refine List.sum_eq_zero fun n hn => ?_
      obtain ⟨e, he, rfl⟩ := List.mem_map.mp hn
      rw [hits_found (hregular e he), List.countP_nil]
    show (s'.column c).number .found = _
    rw [hnumber, hnone, number_opened, if_pos rfl, Nat.add_zero]
  · rw [hnumber, number_opened, if_neg hh, Nat.zero_add, sum_hits hplan hregular]

/-- What was found was either started or skipped, and when each node that was started was also
    finished, the ends add up to the starts. -/
theorem conserved (hplan : plan.Layered) (s : Summary) (clock : Float)
    (events : List (Float × NodeEvent Identifier)) (hevents : ∀ e ∈ events, Regular plan e.2)
    (hsettled : plan.SettledBy (events.map Prod.snd)) :
    ∃ s', s.hear ((clock, .planStarted plan) :: events.map fun e => (e.1, .about e.2)) = .ok s' ∧
      s'.plan? = some plan ∧
      ∀ c, (s'.column c).found = (s'.column c).started + (s'.column c).skipped ∧
        ((∀ i ∈ plan.identifiers.values,
            (events.map Prod.snd).countP (NodeEvent.finishesNode i)
              = (events.map Prod.snd).countP (NodeEvent.startsNode i)) →
          (s'.column c).started
            = (s'.column c).succeeded + (s'.column c).aborted + (s'.column c).failed) := by
  obtain ⟨s', hhear, hs', hnumber⟩ := number_run hplan s clock events hevents
  refine ⟨s', hhear, hs', fun c => ?_⟩
  obtain ⟨hfound, hrest⟩ := hnumber c
  have hregular : ∀ e ∈ events.map Prod.snd, Regular plan e := by
    intro e he
    obtain ⟨x, hx, rfl⟩ := List.mem_map.mp he
    exact hevents x hx
  generalize events.map Prod.snd = es at hsettled hrest hregular ⊢
  constructor
  · show _ = (s'.column c).number .started + (s'.column c).number .skipped
    rw [hfound, hrest .started (by decide), hrest .skipped (by decide), ← List.sum_map_add,
      List.map_congr_left fun i hi =>
        counted_once hplan hregular hsettled (List.mem_filter.mp hi).1]
    simp
  · intro hfinished
    show (s'.column c).number .started = (s'.column c).number .succeeded
      + (s'.column c).number .aborted + (s'.column c).number .failed
    rw [hrest .started (by decide), hrest .succeeded (by decide), hrest .aborted (by decide),
      hrest .failed (by decide), ← List.sum_map_add, ← List.sum_map_add]
    refine congrArg List.sum (List.map_congr_left fun i hi => ?_)
    rw [countP_hits_ended, hfinished i (List.mem_filter.mp hi).1]
    exact congrArg es.countP (funext fun e => mem_hits_started e i)

/-- What is known of an execution that has started is the summary itself. -/
theorem eq_of_current {s s' : Summary} (h : s.current = .ok s') : s' = s := by
  rw [current] at h
  cases hplan : s.plan? with
  | none =>
      rw [hplan] at h
      cases h
  | some plan =>
      rw [hplan] at h
      cases h
      rfl

end Summary

/-! ## The listener -/

namespace Listener

/-- A listener receives events, each at its time. -/
def hear (l : Listener Observations) (events : List (Float × Event)) :
    Steps (Journal × Observations) Unit :=
  events.forM fun e => do
    modify fun (j, o) => (j, { o with clock := e.1 })
    l.receive e.2

/-- A listener that keeps a summary has the summary of what it heard. -/
theorem summing_hear {name : String} {events : List (Float × Event)} {j : Journal}
    {o : Observations} {s : Summary} (h : (o.summary name).hear events = .ok s) :
    ∃ o', ((summing name).hear events).on (j, o) = (.ok (), j, o') ∧ o'.summary name = s := by
  induction events generalizing o with
  | nil =>
      cases h
      exact ⟨o, rfl, rfl⟩
  | cons e events ih =>
      obtain ⟨s₁, hfirst, hrest⟩ := bind_eq_ok h
      have hreceive : ((summing name).receive e.2).on (j, { o with clock := e.1 })
          = (.ok (), j, { o with clock := e.1, summaries := o.summaries.insert name s₁ }) := by
        have hafter : (Observations.summary { o with clock := e.1 } name).after e.1 e.2
            = .ok s₁ := hfirst
        rw [summing, Steps.on_bind_ok (Steps.on_get _)]
        dsimp only
        rw [Steps.on_bind_ok (Steps.on_set ..), Summary.heard, hafter]
        rfl
      have hkept : (Observations.summary
          { o with clock := e.1, summaries := o.summaries.insert name s₁ } name) = s₁ := by
        rw [Observations.summary, OrderedMap.getD, OrderedMap.get?_insert, if_pos rfl]
        rfl
      rw [← hkept] at hrest
      obtain ⟨o', hheard, hs⟩ := ih hrest
      refine ⟨o', ?_, hs⟩
      show ((modify _ >>= fun _ => (summing name).receive e.2) >>= fun _ =>
        (summing name).hear events).on (j, o) = _
      rw [Steps.on_bind, Steps.on_bind_ok (Steps.on_modify _ _), hreceive]
      exact hheard

/-- **A summary loses no node.**  Let a listener be told that the execution of a plan starts, and
    then of nodes of the plan, so that each is started once, or is skipped once, alone or with
    one above it.  Then as many nodes were found as were started or skipped, among tests and
    among containers; and as many were started as succeeded, were aborted or failed, if each was
    finished as often as it was started. -/
theorem summing_conserves {f : Forest} {rs : List NodeRef} {plan : TestPlan} (h : f.Rooted rs)
    (hplan : TestPlan.ofRoots f rs = .ok plan) (name : String) (clock : Float)
    (events : List (Float × NodeEvent Identifier)) (j : Journal) (o : Observations)
    (hevents : ∀ e ∈ events, Summary.Regular plan e.2)
    (hsettled : plan.SettledBy (events.map Prod.snd)) :
    ∃ o' s, ((summing name).hear ((clock, .planStarted plan) ::
          events.map fun e => (e.1, .about e.2))).on (j, o) = (.ok (), j, o') ∧
      (o'.summary name).current = .ok s ∧
      s.tests.found = s.tests.started + s.tests.skipped ∧
      s.containers.found = s.containers.started + s.containers.skipped ∧
      ((∀ i ∈ plan.identifiers.values,
          (events.map Prod.snd).countP (NodeEvent.finishesNode i)
            = (events.map Prod.snd).countP (NodeEvent.startsNode i)) →
        s.tests.started = s.tests.succeeded + s.tests.aborted + s.tests.failed ∧
        s.containers.started
          = s.containers.succeeded + s.containers.aborted + s.containers.failed) := by
  obtain ⟨s, hhear, hs, hcolumns⟩ := Summary.conserved (TestPlan.layered_of_ofRoots h hplan)
    (o.summary name) clock events hevents hsettled
  obtain ⟨o', hheard, rfl⟩ := summing_hear (j := j) hhear
  obtain ⟨htests, htestsEnd⟩ := hcolumns .tests
  obtain ⟨hcontainers, hcontainersEnd⟩ := hcolumns .containers
  refine ⟨o', o'.summary name, hheard, ?_, htests, hcontainers,
    fun hfinished => ⟨htestsEnd hfinished, hcontainersEnd hfinished⟩⟩
  rw [Summary.current, hs]

/-- An engine with a class of two tests, and a test that stands alone. -/
def annex : Forest :=
  let root := UniqueId.forEngine "e"
  let group := root.bind fun id => id.append "class" "K"
  Forest.Edit.outcome [
    .build root.toOption "e" .container ∅ none,
    .build group.toOption "K" .container ∅ none,
    .build (group.bind fun id => id.append "test" "t").toOption "t" .test ∅ none,
    .build (group.bind fun id => id.append "test" "u").toOption "u" .test ∅ none,
    .build (root.bind fun id => id.append "test" "v").toOption "v" .test ∅ none,
    .addChild ⟨0⟩ (some ⟨1⟩), .addChild ⟨1⟩ (some ⟨2⟩), .addChild ⟨1⟩ (some ⟨3⟩),
    .addChild ⟨0⟩ (some ⟨4⟩)]

/-- A class that is skipped takes its two tests with it, while the test that stands alone is
    started and finished. -/
theorem summing_conserves_annex :
    let e : Identifier := ⟨"[engine:e]", none, "e", .container, ∅, none⟩
    let k : Identifier := ⟨"[engine:e]/[class:K]", some e.id, "K", .container, ∅, none⟩
    let t : Identifier := ⟨"[engine:e]/[class:K]/[test:t]", some k.id, "t", .test, ∅, none⟩
    let u : Identifier := ⟨"[engine:e]/[class:K]/[test:u]", some k.id, "u", .test, ∅, none⟩
    let v : Identifier := ⟨"[engine:e]/[test:v]", some e.id, "v", .test, ∅, none⟩
    let es : List (NodeEvent Identifier) :=
      [.started e, .skipped k "not today", .started v, .finished v .successful,
        .finished e .successful]
    ∃ plan, (annex.Rooted [⟨0⟩] ∧ TestPlan.ofRoots annex [⟨0⟩] = .ok plan ∧
      plan.identifiers.values = [e, k, t, u, v] ∧
      (∀ x ∈ es, Summary.Regular plan x) ∧ plan.SettledBy es) ∧
    ∃ o' s, ((summing "S").hear ((0, .planStarted plan) ::
          es.map fun x => (0, .about x))).on (∅, ∅) = (.ok (), ∅, o') ∧
      (o'.summary "S").current = .ok s ∧
      s.tests.found = s.tests.started + s.tests.skipped ∧
      s.containers.found = s.containers.started + s.containers.skipped ∧
      s.tests.started = s.tests.succeeded + s.tests.aborted + s.tests.failed ∧
      s.containers.started
        = s.containers.succeeded + s.containers.aborted + s.containers.failed ∧
      s.tests.toList = [3, 1, 2, 0, 1, 0] ∧ s.containers.toList = [2, 1, 1, 0, 1, 0] := by
  intro e k t u v es
  have hrooted : annex.Rooted [⟨0⟩] :=
    Forest.Linked.rooted_of_all (f := annex) (Forest.linked_outcome _) (by decide +kernel)
  generalize hplan : (TestPlan.ofRoots annex [⟨0⟩]).toOption.getD {} = plan
  have hmade : TestPlan.ofRoots annex [⟨0⟩] = .ok plan := by
    rw [← hplan]
    decide +kernel
  have hvalues : plan.identifiers.values = [e, k, t, u, v] := by
    rw [← hplan]
    decide +kernel
  have hup : plan.parentOf e = none ∧ plan.parentOf k = some e ∧ plan.parentOf t = some k ∧
      plan.parentOf u = some k ∧ plan.parentOf v = some e := by
    rw [← hplan]
    decide +kernel
  obtain ⟨hue, huk, hut, huu, huv⟩ := hup
  have he := fun a (ha : plan.AtOrAbove e a) => ha.mem_singleton hue
  have hk := fun a (ha : plan.AtOrAbove k a) => ha.mem_cons huk he
  have ht := fun a (ha : plan.AtOrAbove t a) => ha.mem_cons hut hk
  have hu := fun a (ha : plan.AtOrAbove u a) => ha.mem_cons huu hk
  have hv := fun a (ha : plan.AtOrAbove v a) => ha.mem_cons huv he
  have hregular : ∀ x ∈ es, Summary.Regular plan x := by
    simp [es, Summary.Regular, hvalues]
  have hsettled : plan.SettledBy es := by
    intro i hi
    rw [hvalues] at hi
    simp only [List.mem_cons, List.not_mem_nil, or_false] at hi
    rcases hi with rfl | rfl | rfl | rfl | rfl
    · have hnone : ∀ a ∈ [e], es.countP (NodeEvent.skipsNode a) = 0 := by decide
      exact Or.inl ⟨by decide, fun a ha => hnone a (he a ha)⟩
    · have honly : ∀ a ∈ [k, e], a ≠ k → es.countP (NodeEvent.skipsNode a) = 0 := by decide
      exact Or.inr ⟨by decide, k, .refl, by decide, fun a ha => honly a (hk a ha)⟩
    · have honly : ∀ a ∈ [t, k, e], a ≠ k → es.countP (NodeEvent.skipsNode a) = 0 := by decide
      exact Or.inr ⟨by decide, k, .single hut, by decide, fun a ha => honly a (ht a ha)⟩
    · have honly : ∀ a ∈ [u, k, e], a ≠ k → es.countP (NodeEvent.skipsNode a) = 0 := by decide
      exact Or.inr ⟨by decide, k, .single huu, by decide, fun a ha => honly a (hu a ha)⟩
    · have hnone : ∀ a ∈ [v, e], es.countP (NodeEvent.skipsNode a) = 0 := by decide
      exact Or.inl ⟨by decide, fun a ha => hnone a (hv a ha)⟩
  have hfinished : ∀ i ∈ plan.identifiers.values, es.countP (NodeEvent.finishesNode i)
      = es.countP (NodeEvent.startsNode i) := by
    rw [hvalues]
    decide
  have hnumbers : let o' := (((summing "S").hear ((0, .planStarted plan) ::
        es.map fun x => (0, .about x))).on (∅, ∅)).2.2
      (o'.summary "S").tests.toList = [3, 1, 2, 0, 1, 0] ∧
        (o'.summary "S").containers.toList = [2, 1, 1, 0, 1, 0] := by
    rw [← hplan]
    decide +kernel
  obtain ⟨o', s, hheard, hs, htests, hcontainers, hends⟩ := summing_conserves hrooted hmade "S" 0
    (es.map fun x => (0, x)) ∅ ∅ (by simpa using hregular) (by simpa [es] using hsettled)
  obtain ⟨htestsEnd, hcontainersEnd⟩ := hends (by simpa [es] using hfinished)
  have hheard : ((summing "S").hear ((0, .planStarted plan) ::
      es.map fun x => (0, .about x))).on (∅, ∅) = (.ok (), ∅, o') := hheard
  rw [hheard] at hnumbers
  obtain rfl := Summary.eq_of_current hs
  exact ⟨plan, ⟨hrooted, hmade, hvalues, hregular, hsettled⟩, o', _, hheard, hs, htests,
    hcontainers, htestsEnd, hcontainersEnd, hnumbers⟩

end Listener

end TestLauncher
