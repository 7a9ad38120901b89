import TestLauncher.Event
import TestLauncher.Proofs.Plan.Index

/-! # Tours of a plan

    A tour goes through the nodes of a plan as an execution does: a node starts, the
    children that the plan keeps under its id are toured in order, and it finishes with a
    result (`Tour`).  When the plan indexes trees that stand in a forest, reporting the
    start and the end of every node of some of them in the order of the trees makes a tour
    (`Indexes.tour`): the plan and the trees agree about what the children are, and listeners
    are told of the identifiers that the plan holds. -/

namespace TestLauncher

namespace TestPlan

/-- The events of nodes one after the other: each starts, its children are toured, and it finishes
    with a result it may have. -/
inductive Tour (plan : TestPlan) (may : Identifier → ExecutionResult → Prop) :
    List Identifier → List (NodeEvent Identifier) → Prop where
  | nil : Tour plan may [] []
  | cons {i : Identifier} {beside : List Identifier} {result : ExecutionResult}
      {es es' : List (NodeEvent Identifier)} (hresult : may i result)
      (hbelow : Tour plan may (plan.childrenOf i.id) es) (hbeside : Tour plan may beside es') :
      Tour plan may (i :: beside) (.started i :: (es ++ .finished i result :: es'))

variable {plan : TestPlan} {may : Identifier → ExecutionResult → Prop} {f : Forest}
  {G : Grove NodeRef}

theorem Tour.append {is js : List Identifier} {es es' : List (NodeEvent Identifier)}
    (h : plan.Tour may is es) (h' : plan.Tour may js es') :
    plan.Tour may (is ++ js) (es ++ es') := by
  induction h with
  | nil => exact h'
  | cons hresult hbelow _ _ ih =>
      have hcons := Tour.cons hresult hbelow ih
      rw [List.cons_append, List.cons_append, List.append_assoc, List.cons_append]
      exact hcons

/-- What listeners are told when the nodes of trees start and finish in the order of the trees. -/
def told (plan : TestPlan) (f : Forest) (result : NodeRef → ExecutionResult) :
    Grove NodeRef → List (NodeEvent Identifier)
  | .nil => []
  | .cons r below beside =>
    (plan.identify? f (.started r)).toList ++ (told plan f result below ++
      ((plan.identify? f (.finished r (result r))).toList ++ told plan f result beside))

/-- Listeners know the nodes of a plan's trees as they stand. -/
theorem Indexes.identifierOf? {r : NodeRef} {i : Identifier} (h : plan.Indexes f G)
    (hr : r ∈ G.toList) (hi : f.identifier? r = some i) : plan.identifierOf? f r = some i := by
  have hid := (Forest.id_of_identifier? hi).1
  rw [Forest.idText?] at hid
  obtain ⟨n, hn, hrender⟩ := Option.map_eq_some_iff.mp hid
  have hget : plan.identifiers.get? n.id.render = some i := by
    rw [hrender]
    exact (h.lists.get?_iff i.id i).mpr ⟨List.mem_filterMap.mpr ⟨r, hr, hi⟩, rfl⟩
  rw [TestPlan.identifierOf?, hn, Option.bind_some, hget]
  rfl

/-- **Reporting trees is touring them.** -/
theorem Indexes.tour {g : Grove NodeRef} {pp : Option NodeRef}
    {result : NodeRef → ExecutionResult} (h : plan.Indexes f G) (hG : f.Holds none G)
    (hn : G.toList.Nodup) (hg : f.Holds pp g) (hsub : ∀ r ∈ g.toList, r ∈ G.toList)
    (hmay : ∀ r ∈ g.toList, ∀ i, f.identifier? r = some i → may i (result r)) :
    plan.Tour may (f.identifiers g.roots) (plan.told f result g) := by
  induction g generalizing pp with
  | nil => exact .nil
  | cons r b s ihb ihs =>
      obtain ⟨hr, hb, hs⟩ := hg
      have hrG : r ∈ G.toList := hsub r (by simp)
      obtain ⟨n, hnode, -⟩ := hr.exists_node
      obtain ⟨i, hi, hid, -⟩ := Forest.identifier?_of_node? hnode
      have hof := h.identifierOf? hrG hi
      have hbelow := ihb hb (fun x hx => hsub x (by simp [hx])) fun x hx => hmay x (by simp [hx])
      have hbeside := ihs hs (fun x hx => hsub x (by simp [hx])) fun x hx => hmay x (by simp [hx])
      -- the plan's children of the node are the roots of what stands below it
      have hchildren : plan.childrenOf i.id = f.identifiers b.roots := by
        have ht : f.idText? r = some i.id := (Forest.id_of_identifier? hi).1
        rw [h.childrenOf hG hn hrG ht, hr.children]
      rw [← hchildren] at hbelow
      -- reports about the node are delivered with the plan's identifier of it
      have hstarted : plan.identify? f (.started r) = some (.started i) := by
        show (plan.identifierOf? f r).map _ = _
        rw [hof]
        rfl
      have hfinished : plan.identify? f (.finished r (result r))
          = some (.finished i (result r)) := by
        show (plan.identifierOf? f r).map _ = _
        rw [hof]
        rfl
      rw [Grove.roots_cons, Forest.identifiers_cons hi, told, hstarted, hfinished]
      exact .cons (hmay r (by simp) i hi) hbelow hbeside

end TestPlan

end TestLauncher
