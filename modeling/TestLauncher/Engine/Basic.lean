import TestLauncher.DiscoveryRequest
import TestLauncher.Event
import TestLauncher.Forest.Growth

/-! # Engines

    An engine discovers a tree of nodes for a request, and executes one.  All engines of
    a launcher share the forest and one state `κ`, on which they act as they like.  What
    an engine does when it executes is an `Activity`: it looks at that state and changes
    it, reports events, learns whether the listeners took them, and may stop with a fault
    anywhere. -/

namespace TestLauncher

/-- What an engine does while it executes. -/
inductive Activity (κ α : Type) where
  | done (a : α)
  | fail (f : Fault)
  /-- Reports an event and goes on with what came of it: the fault of a listener, or none. -/
  | report (e : NodeEvent NodeRef) (next : Option Fault → Activity κ α)
  /-- Reads the forest and the state. -/
  | look (next : Forest × κ → Activity κ α)
  /-- Replaces the forest and the state. -/
  | keep (s : Forest × κ) (next : Activity κ α)

namespace Activity

variable {κ α β γ : Type}

/-- One activity after the other. -/
def andThen : Activity κ α → (α → Activity κ β) → Activity κ β
  | done a, k => k a
  | fail f, _ => fail f
  | report e next, k => report e fun answer => (next answer).andThen k
  | look next, k => look fun s => (next s).andThen k
  | keep s next, k => keep s (next.andThen k)

instance : Monad (Activity κ) where
  pure := done
  bind := andThen

/-- Reports an event, and fails as a listener does. -/
def tell (e : NodeEvent NodeRef) : Activity κ Unit :=
  report e fun
    | none => done ()
    | some f => fail f

/-- The value, or the fault. -/
def ofExcept : Except Fault α → Activity κ α
  | .ok a => done a
  | .error f => fail f

/-- Steps on the forest and the state. -/
def ofSteps (steps : Steps (Forest × κ) α) : Activity κ α :=
  look fun s =>
    let (result, s) := steps.on s
    keep s (ofExcept result)

/-- What an activity comes to when events are delivered as given and its state is a part of a
larger one. -/
def perform {σ : Type} (part : σ → Forest × κ) (update : Forest × κ → σ → σ)
    (deliver : NodeEvent NodeRef → Steps σ Unit) : Activity κ α → Steps σ α
  | done a => pure a
  | fail f => throw f
  | report e next => do
    match ← (deliver e).outcome with
    | .ok () => (next none).perform part update deliver
    | .error f => (next (some f)).perform part update deliver
  | look next => do (next (part (← get))).perform part update deliver
  | keep s next => do
    modify (update s)
    next.perform part update deliver

@[simp] theorem andThen_done (a : Activity κ α) : a.andThen done = a := by
  induction a with
  | done => rfl
  | fail => rfl
  | report e next ih => exact congrArg (report e) (funext ih)
  | look next ih => exact congrArg look (funext ih)
  | keep s next ih => exact congrArg (keep s) ih

theorem andThen_assoc (a : Activity κ α) (k : α → Activity κ β) (l : β → Activity κ γ) :
    (a.andThen k).andThen l = a.andThen fun x => (k x).andThen l := by
  induction a with
  | done => rfl
  | fail => rfl
  | report e next ih => exact congrArg (report e) (funext ih)
  | look next ih => exact congrArg look (funext ih)
  | keep s next ih => exact congrArg (keep s) ih

instance : LawfulMonad (Activity κ) :=
  LawfulMonad.mk' (Activity κ) andThen_done (fun _ _ => rfl) andThen_assoc

section

variable {σ : Type} (part : σ → Forest × κ) (update : Forest × κ → σ → σ)
  (deliver : NodeEvent NodeRef → Steps σ Unit)

@[simp] theorem perform_done (a : α) :
    (done a : Activity κ α).perform part update deliver = pure a := rfl

@[simp] theorem perform_fail (f : Fault) :
    (fail f : Activity κ α).perform part update deliver = throw f := rfl

theorem perform_andThen (a : Activity κ α) (k : α → Activity κ β) :
    (a.andThen k).perform part update deliver =
      a.perform part update deliver >>= fun x => (k x).perform part update deliver := by
  induction a with
  | done => rfl
  | fail => rfl
  | report e next ih =>
    simp only [andThen, perform, bind_assoc]
    refine bind_congr fun answer => ?_
    cases answer <;> exact ih _
  | look next ih =>
    simp only [andThen, perform, bind_assoc]
    exact bind_congr fun s => ih _
  | keep s next ih =>
    simp only [andThen, perform, bind_assoc]
    exact bind_congr fun _ => ih

end

end Activity

/-- Something that discovers and executes trees of nodes. -/
structure Engine (κ : Type) where
  id : String
  /-- Discovers a tree for a request; its root is to have the given id. -/
  discover : DiscoveryRequest → UniqueId → Steps (Forest × κ) (Option NodeRef)
  /-- Executes the tree below a root with some parameters. -/
  execute : NodeRef → Parameters → Activity κ Unit

end TestLauncher
