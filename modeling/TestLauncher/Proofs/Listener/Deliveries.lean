import TestLauncher.Proofs.Execution.Brackets

/-! # Who has received what

    Events are sent to a list of listeners, directly or by an engine through a plan, and
    whoever sends them may go on after a fault or not (`Sender`).  Each event goes from the
    first listener up to the one that fails on it (`Passage`), and what comes back is the
    fault of that one.  So the histories of the listeners are nested: at every moment the
    later one in the list has received a part of what the earlier one has, in the same order
    (`Sender.histories_nested`).

    What they receive is what is written down when they are watched, which does not change
    what they do. -/

namespace TestLauncher

variable {ω : Type}

/-! ## Sending -/

/-- Something that is sent to listeners: an event, or what an engine tells of a node, which
    listeners know by the identifiers of a plan. -/
inductive Message where
  | event (e : Event)
  | engine (plan : TestPlan) (f : Forest) (e : NodeEvent NodeRef)

/-- The event that listeners are told of; there is none about a node that does not exist. -/
def Message.event? : Message → Option Event
  | event e => some e
  | engine plan f e => (plan.identify? f e).map .about

/-- What an engine tells of a node that exists is told to listeners as the same sort of event. -/
theorem Message.exists_event (plan : TestPlan) {f : Forest} {e : NodeEvent NodeRef}
    (h : (f.node? e.node).isSome = true) :
    ∃ i, (engine plan f e).event? = some (.about (e.map fun _ => i)) := by
  obtain ⟨n, hn⟩ := Option.isSome_iff_exists.mp h
  obtain ⟨i, hi, -⟩ := Forest.identifier?_of_node? hn
  rw [event?, TestPlan.identify?, TestPlan.identifierOf?, hn, Option.bind_some, hi]
  cases plan.identifiers.get? n.id.render with
  | some known => exact ⟨known, rfl⟩
  | none => exact ⟨i, rfl⟩

/-- Sends a message to listeners. -/
def Listener.send (ls : List (Listener ω)) : Message → Steps (Journal × ω) Unit
  | .event e => fanOut ls e
  | .engine plan f e => relay ls plan f e

/-- Somebody who sends messages.  What comes back of one decides what is sent next, if anything:
    after a fault a sender may go on or not. -/
inductive Sender where
  | stop
  | send (m : Message) (next : Except Fault Unit → Sender)

/-- What a sender sends to listeners and what comes back of it, and the state that is left. -/
def Sender.run (ls : List (Listener ω)) :
    Sender → Journal × ω → List (Message × Except Fault Unit) × (Journal × ω)
  | stop, s => ([], s)
  | send m next, s =>
    let (result, t) := (Listener.send ls m).on s
    let (sent, u) := (next result).run ls t
    ((m, result) :: sent, u)

/-! ## Passages -/

/-- How a message goes through so many listeners: all of them are told of the event, or those up to
    the first that fails, and that fault comes back. -/
inductive Passage (n : Nat) : Option Event → Except Fault Unit → List Moment → Prop where
  | nothing : Passage n none (.ok ()) []
  | all {e : Event} :
      Passage n (some e) (.ok ()) ((List.range n).map fun i => .told i e none)
  | refused {e : Event} {k : Nat} {f : Fault} (h : k < n) :
      Passage n (some e) (.error f)
        ((List.range k).map (fun i => .told i e none) ++ [.told k e (some f)])

variable {n : Nat} {e : Event} {e? : Option Event} {result : Except Fault Unit}
  {told past : List Moment}

theorem Goes.passage (h : Goes e 0 n result told) :
    Passage n (some e) result told := by
  rcases h.shape with ⟨rfl, rfl⟩ | ⟨k, f, hk, rfl, rfl⟩
  · rw [← List.range_eq_range']
    exact .all
  · rw [← List.range_eq_range', Nat.zero_add]
    exact .refused hk

/-- One message. -/
theorem Listener.on_send_watchedFrom {ls : List (Listener ω)} {m : Message} {s t : Journal × ω}
    (h : (send ls m).on s = (result, t)) (log : List Moment) :
    ∃ told, (send (watchedFrom 0 ls) m).on (s.1, s.2, log) = (result, t.1, t.2, log ++ told) ∧
      Passage ls.length m.event? result told := by
  cases m with
  | event e =>
      obtain ⟨told, hon, hgoes⟩ := on_fanOut_watchedFrom h 0 log
      exact ⟨told, hon, hgoes.passage⟩
  | engine plan f e =>
      rw [send, relay] at h ⊢
      rw [Message.event?]
      cases hid : plan.identify? f e with
      | none =>
          rw [hid] at h
          cases h
          exact ⟨[], by rw [List.append_nil]; rfl, .nothing⟩
      | some e =>
          rw [hid] at h
          obtain ⟨told, hon, hgoes⟩ := on_fanOut_watchedFrom h 0 log
          exact ⟨told, hon, hgoes.passage⟩

/-! ## Histories -/

/-- Listeners are told of an event in turn, from the first on. -/
inductive InTurn : Option Event → List Moment → Prop where
  | nil {e? : Option Event} : InTurn e? []
  | next {e : Event} {told : List Moment} (fault? : Option Fault) (h : InTurn (some e) told) :
      InTurn (some e) (told ++ [.told told.length e fault?])

theorem inTurn_range (e : Event) (k : Nat) :
    InTurn (some e) ((List.range k).map fun i => .told i e none) := by
  induction k with
  | zero => exact .nil
  | succ k ih =>
      have hnext := ih.next none
      rw [List.length_map, List.length_range] at hnext
      rw [List.range_succ, List.map_append]
      exact hnext

theorem Passage.inTurn (h : Passage n e? result told) : InTurn e? told := by
  cases h with
  | nothing => exact .nil
  | all => exact inTurn_range _ n
  | @refused e k f _ =>
      have hnext := (inTurn_range e k).next (some f)
      rw [List.length_map, List.length_range] at hnext
      exact hnext

theorem InTurn.of_prefix (h : InTurn e? told) (hpast : past <+: told) : InTurn e? past := by
  induction h with
  | nil =>
      rw [List.prefix_nil.mp hpast]
      exact .nil
  | next _ h ih =>
      rcases List.prefix_concat_iff.mp hpast with rfl | hpast
      · exact h.next _
      · exact ih hpast

/-- As many listeners have received the event as were told of anything. -/
theorem InTurn.received (h : InTurn e? told) (i : Nat) :
    received i told = if i < told.length then e?.toList else [] := by
  induction h with
  | nil => rfl
  | @next e told _ h ih =>
      rw [received_append, ih, received_told, List.length_append, List.length_singleton]
      rcases Nat.lt_trichotomy i told.length with hlt | rfl | hgt
      · rw [if_pos hlt, if_neg (Nat.ne_of_gt hlt), if_pos (Nat.lt_succ_of_lt hlt)]
        rfl
      · rw [if_neg (Nat.lt_irrefl _), if_pos rfl, if_pos (Nat.lt_succ_self _)]
        rfl
      · rw [if_neg (Nat.not_lt_of_gt hgt), if_neg (Nat.ne_of_lt hgt), if_neg (by omega)]
        rfl

theorem InTurn.nested (h : InTurn e? told) {i i' : Nat} (hle : i ≤ i') :
    (TestLauncher.received i' told).Sublist (TestLauncher.received i told) := by
  rw [h.received, h.received]
  by_cases hlt : i' < told.length
  · rw [if_pos hlt, if_pos (Nat.lt_of_le_of_lt hle hlt)]
  · rw [if_neg hlt]
    exact List.nil_sublist _

/-- Of messages that went one after the other: what a later listener has received an earlier one
    has received as well, also while a message is still on its way. -/
theorem nested_of_prefix {α : Type} {event? : α → Option Event} {sent : List α}
    {rounds : List (List Moment)}
    (h : List.Forall₂ (fun a told => InTurn (event? a) told) sent rounds)
    (hpast : past <+: rounds.flatten) {i i' : Nat} (hle : i ≤ i') :
    (received i' past).Sublist (received i past) := by
  induction h generalizing past with
  | nil =>
      rw [List.prefix_nil.mp hpast]
      exact List.Sublist.refl _
  | cons hturn _ ih =>
      obtain ⟨rest, hrest⟩ := hpast
      rw [List.flatten_cons] at hrest
      rcases List.append_eq_append_iff.mp hrest with ⟨later, htold, -⟩ | ⟨later, rfl, hlater⟩
      · exact (hturn.of_prefix ⟨later, htold.symm⟩).nested hle
      · rw [received_append, received_append]
        exact (hturn.nested hle).append (ih ⟨rest, hlater.symm⟩)

/-- Whoever is not told of an event stands behind one who failed on it. -/
theorem Passage.exists_refused (h : Passage n (some e) result told) {i : Nat} (hi : i < n)
    (hmissing : ∀ fault?, .told i e fault? ∉ told) :
    ∃ k f, k < i ∧ .told k e (some f) ∈ told := by
  cases h with
  | all => exact absurd (List.mem_map_of_mem (List.mem_range.mpr hi)) (hmissing none)
  | @refused _ k f hk =>
      refine ⟨k, f, ?_, List.mem_append_right _ (List.mem_singleton_self _)⟩
      rcases Nat.lt_trichotomy i k with hlt | rfl | hgt
      · exact absurd (List.mem_append_left _ (List.mem_map_of_mem (List.mem_range.mpr hlt)))
          (hmissing none)
      · exact absurd (List.mem_append_right _ (List.mem_singleton_self _)) (hmissing (some f))
      · exact hgt

/-! ## Senders -/

namespace Sender

variable {ls : List (Listener ω)}

/-- Message by message: the listeners do what they do when nobody watches, and each message makes
    its passage. -/
theorem run_watchedFrom (sender : Sender) (ls : List (Listener ω)) (s : Journal × ω)
    (log : List Moment) :
    ∃ rounds : List (List Moment), sender.run (Listener.watchedFrom 0 ls) (s.1, s.2, log)
        = ((sender.run ls s).1, (sender.run ls s).2.1, (sender.run ls s).2.2,
            log ++ rounds.flatten) ∧
      List.Forall₂ (fun sent told => Passage ls.length sent.1.event? sent.2 told)
        (sender.run ls s).1 rounds := by
  induction sender generalizing s log with
  | stop => exact ⟨[], by rw [List.flatten_nil, List.append_nil]; rfl, .nil⟩
  | send m next ih =>
      rcases hsend : (Listener.send ls m).on s with ⟨result, t⟩
      obtain ⟨told, hwatched, hpassage⟩ := Listener.on_send_watchedFrom hsend log
      obtain ⟨rounds, hrest, hpassages⟩ := ih result t (log ++ told)
      have hrun : (send m next).run ls s
          = ((m, result) :: ((next result).run ls t).1, ((next result).run ls t).2) := by
        rw [run, hsend]
      refine ⟨told :: rounds, ?_, ?_⟩
      · rw [run, hwatched]
        dsimp only
        rw [hrest, hrun, List.flatten_cons, List.append_assoc]
      · rw [hrun]
        exact .cons hpassage hpassages

/-- **Histories are nested.**  What an engine tells of a node that exists becomes an event.
    Listeners that are watched do the same as when they are not.  Each event goes from the first of
    them up to the one that fails on it, which is told of it as well, and what comes back is the
    fault of that one; when none fails, all are told and nothing comes back.  Whoever was not told
    stands behind one that failed.  At every moment, also while an event is on its way, what a later
    listener has received an earlier one has received as well, in the same order. -/
theorem histories_nested (sender : Sender) (ls : List (Listener ω)) (j : Journal) (x : ω) :
    let plain := sender.run ls (j, x)
    let seen := sender.run (Listener.watchedFrom 0 ls) (j, x, [])
    (∀ plan f e, (f.node? e.node).isSome = true →
      ∃ i, (Message.engine plan f e).event? = some (.about (e.map fun _ => i))) ∧
    (seen.1 = plain.1 ∧ seen.2.1 = plain.2.1 ∧ seen.2.2.1 = plain.2.2) ∧
    (∃ rounds : List (List Moment), seen.2.2.2 = rounds.flatten ∧
      List.Forall₂ (fun sent told => Passage ls.length sent.1.event? sent.2 told ∧
        ∀ e, sent.1.event? = some e → ∀ i, i < ls.length → (∀ fault?, .told i e fault? ∉ told) →
          ∃ k f, k < i ∧ .told k e (some f) ∈ told) plain.1 rounds) ∧
    ∀ past, past <+: seen.2.2.2 → ∀ i i', i ≤ i' →
      (received i' past).Sublist (received i past) := by
  obtain ⟨rounds, hseen, hpassages⟩ := run_watchedFrom sender ls (j, x) []
  dsimp only at hseen ⊢
  rw [hseen]
  refine ⟨fun plan f e h => Message.exists_event plan h, ⟨rfl, rfl, rfl⟩, ⟨rounds, rfl, ?_⟩,
    fun past hpast i i' hle => ?_⟩
  · refine hpassages.imp fun sent told hpassage => ⟨hpassage, fun e he i hi hmissing => ?_⟩
    rw [he] at hpassage
    exact hpassage.exists_refused hi hmissing
  · exact nested_of_prefix (hpassages.imp fun _ _ hpassage => hpassage.inTurn) hpast hle

end Sender

end TestLauncher
