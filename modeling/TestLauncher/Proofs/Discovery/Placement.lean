import TestLauncher.Proofs.Discovery.Agreement
import TestLauncher.Proofs.Discovery.Progress
import TestLauncher.Proofs.Discovery.Survivors
import TestLauncher.Proofs.Forest.Rerooting

/-! # Finding the same below a suite

    What an engine finds for a request it could find in an empty forest and for the request
    alone (`sketch?`).  Engines that build alike wherever they build and however the id begins
    that they are given (`Engine.Placeless`, `Engine.Rerootable`) find below a suite, behind
    whatever the forest held, what they would find there, with longer ids (`Find.placed`):
    the same nodes survive (`survives_placed`), and their identifiers are the same but for
    the ids (`identifiers_placed`). -/

namespace TestLauncher

variable {κ ω ρ : Type}

/-- An engine that builds the same tree with longer ids when the id it is given begins with a
    segment more, and fails alike. -/
def Engine.RerootsTo (e : Engine κ) (top : Option Segment) : Prop :=
  ∀ (request : DiscoveryRequest) (id : UniqueId) (f : Forest) (k k' : κ),
    ((e.discover request (id.beneath top)).on (f.beneath top, k')).2.1
        = ((e.discover request id).on (f, k)).2.1.beneath top ∧
      Akin Eq ((e.discover request id).on (f, k)).1
        ((e.discover request (id.beneath top)).on (f.beneath top, k')).1

/-- An engine that builds the same tree with longer ids when it is given a longer id, and fails
    alike. -/
def Engine.Rerootable (e : Engine κ) : Prop :=
  ∀ (top : Option Segment) (request : DiscoveryRequest) (id : UniqueId) (f : Forest) (k k' : κ),
    ((e.discover request (id.beneath top)).on (f.beneath top, k')).2.1
        = ((e.discover request id).on (f, k)).2.1.beneath top ∧
      Akin Eq ((e.discover request id).on (f, k)).1
        ((e.discover request (id.beneath top)).on (f.beneath top, k')).1

/-- With the id as it is there is nothing to ask for beyond that the place does not matter. -/
theorem Engine.Placeless.rerootsTo_none {e : Engine κ} (hp : e.Placeless) : e.RerootsTo none := by
  intro request id f k k'
  rw [Forest.beneath_none, Forest.beneath_none, UniqueId.beneath_none]
  obtain ⟨hforest, -, -, hend⟩ := hp f 0 request id (∅, k) (f, k) (Forest.after_empty f).symm
    Forest.ordered_empty rfl
  obtain ⟨hforest', -, -, hend'⟩ := hp f 0 request id (∅, k) (f, k') (Forest.after_empty f).symm
    Forest.ordered_empty rfl
  refine ⟨hforest'.trans hforest.symm, ?_⟩
  generalize ((e.discover request id).on (∅, k)).1 = x at hend hend'
  generalize ((e.discover request id).on (f, k)).1 = y at hend
  generalize ((e.discover request id).on (f, k')).1 = z at hend'
  cases hend with
  | error _ =>
      cases hend' with
      | error _ => exact .error rfl
  | ok h =>
      cases hend' with
      | ok h' => exact .ok (h.2.trans h'.2.symm)

/-- Behind another forest and with a longer id an engine discovers what it discovers in an empty
    forest with the shorter one. -/
theorem Engine.RerootsTo.discover_after {e : Engine κ} {top : Option Segment}
    (hr : e.RerootsTo top) (hp : e.Placeless) (request : DiscoveryRequest) (id : UniqueId)
    (f : Forest) (k k' : κ) :
    ((e.discover request (id.beneath top)).on (f, k')).2.1
        = f.after (((e.discover request id).on (∅, k)).2.1.beneath top) ∧
      ((e.discover request id).on (∅, k)).2.1.Ordered ∧
      Akin (fun root? root?' => root?' = root?.map (NodeRef.shift f.size))
        ((e.discover request id).on (∅, k)).1
        ((e.discover request (id.beneath top)).on (f, k')).1 := by
  obtain ⟨hforest, hend⟩ := hr request id ∅ k k
  rw [Forest.empty_beneath] at hforest hend
  obtain ⟨hafter, -, -, hend'⟩ := hp f 0 request (id.beneath top) (∅, k) (f, k')
    (Forest.after_empty f).symm Forest.ordered_empty rfl
  obtain ⟨-, hordered, -, -⟩ := hp ∅ 0 request id (∅, k) (∅, k)
    (Forest.after_empty ∅).symm Forest.ordered_empty rfl
  refine ⟨hafter.trans (congrArg f.after hforest), hordered, ?_⟩
  generalize ((e.discover request id).on (∅, k)).1 = x at hend
  generalize ((e.discover request (id.beneath top)).on (∅, k)).1 = y at hend hend'
  generalize ((e.discover request (id.beneath top)).on (f, k')).1 = z at hend'
  cases hend with
  | error h =>
      cases hend' with
      | error e => exact .error h
  | ok h =>
      subst h
      cases hend' with
      | ok h => exact .ok h.2

/-! ## What was found, elsewhere -/

/-- The identifier with longer ids, which is a child of what they begin with if it was a root. -/
def Identifier.below (above : String) (i : Identifier) : Identifier :=
  { i with
    id := above ++ "/" ++ i.id
    parentId := some (match i.parentId with
      | none => above
      | some p => above ++ "/" ++ p) }

/-- The identifier below a text, if there is one. -/
def Identifier.beneath : Option String → Identifier → Identifier
  | none, i => i
  | some above, i => i.below above

/-- The picture of a root below the node of a suite. -/
theorem Node.identifier_beneath_root (top : Option Segment) (n : Node) :
    (n.beneath top).identifier (top.map Segment.render)
      = (n.identifier none).beneath (top.map Segment.render) := by
  cases top with
  | none => rfl
  | some s =>
      show (n.beneath (some s)).identifier (some s.render) = (n.identifier none).below s.render
      rw [identifier, Identifier.below, identifier]
      exact congrArg (fun id => Identifier.mk id _ _ _ _ _) (n.id.render_beneath s)

/-- The picture of another node below another node. -/
theorem Node.identifier_beneath_child (top : Option Segment) (n m : Node) :
    (n.beneath top).identifier (some (m.beneath top).id.render)
      = (n.identifier (some m.id.render)).beneath (top.map Segment.render) := by
  cases top with
  | none => rfl
  | some s =>
      show _ = (n.identifier (some m.id.render)).below s.render
      rw [identifier, Identifier.below, identifier]
      exact congrArg₂ (fun id p => Identifier.mk id (some p) _ _ _ _) (n.id.render_beneath s)
        (m.id.render_beneath s)

/-- Behind another forest the identifier of a node that has a parent is the same but for the
    ids. -/
theorem Forest.identifier?_placed (f₀ f : Forest) (top : Option Segment) {r p : NodeRef} {m : Node}
    (hp : f.parent? r = some p) (hm : f.bare? p = some m) :
    (f₀.after (f.beneath top)).identifier? (r.shift f₀.size)
      = (f.identifier? r).map (Identifier.beneath (top.map Segment.render)) := by
  rw [identifier?_after, identifier?_eq, identifier?_eq, bare?_beneath, parent?_beneath, hp,
    Option.map_map, Option.map_map, Option.bind_some, Option.bind_some, idText?_eq, idText?_eq,
    bare?_beneath, hm]
  refine congrArg (fun h => (f.bare? r).map h) (funext fun n => ?_)
  exact n.identifier_beneath_child top m

namespace Find

/-- What was found, found behind another forest with longer ids. -/
def placed (f₀ : Forest) (top : Option Segment) (y : Find κ) : Find κ :=
  ⟨y.engine, y.root.shift f₀.size, f₀.after (y.forest.beneath top)⟩

/-- What was found stands in a forest in order. -/
structure Sound (y : Find κ) : Prop where
  holds : y.forest.Holds none y.tree
  nodup : y.tree.toList.Nodup
  ordered : y.forest.Ordered

section

variable {y : Find κ} {f₀ : Forest} {top : Option Segment} {filters : List NodeFilter}

/-- A tree that is placed stands behind the forest. -/
theorem Sound.holds_placed (h : y.Sound) :
    (y.placed f₀ top).forest.Holds none (y.tree.map (NodeRef.shift f₀.size)) :=
  Forest.holds_after f₀ _ (Forest.holds_beneath top h.holds)

/-- Shifted references are different when the references are. -/
theorem shift_injective (n : Nat) : Function.Injective (NodeRef.shift n) :=
  fun _ _ h => NodeRef.shift_inj.mp h

/-- No node is in a placed tree twice. -/
theorem Sound.nodup_placed (h : y.Sound) : (y.tree.map (NodeRef.shift f₀.size)).toList.Nodup := by
  rw [Grove.toList_map]
  exact h.nodup.map (shift_injective f₀.size)

/-- Below a placed root is what was below the root. -/
theorem Sound.below_placed (h : y.Sound) :
    (y.placed f₀ top).forest.below (y.placed f₀ top).root
      = (y.forest.below y.root).map (NodeRef.shift f₀.size) := by
  have hholds : (y.placed f₀ top).forest.Holds none (y.tree.map (NodeRef.shift f₀.size)) :=
    h.holds_placed
  have hnodup : (y.tree.map (NodeRef.shift f₀.size)).toList.Nodup := h.nodup_placed
  rw [tree, Grove.map_tree] at hholds hnodup
  obtain ⟨hroot, hb⟩ := Forest.holds_tree.mp hholds
  exact Forest.below_eq hroot hb (Grove.nodup_tree.mp hnodup).2

/-- The tree of a placed find is its tree, shifted. -/
theorem Sound.tree_placed (h : y.Sound) :
    (y.placed f₀ top).tree = y.tree.map (NodeRef.shift f₀.size) := by
  rw [tree, h.below_placed]
  rfl

/-- So are the subtrees. -/
theorem Sound.subtree_placed (h : y.Sound) {r : NodeRef} (hr : r ∈ y.tree.toList) :
    (y.placed f₀ top).forest.subtree (r.shift f₀.size)
      = (y.forest.subtree r).map (NodeRef.shift f₀.size) := by
  have hmem : r.shift f₀.size ∈ (y.tree.map (NodeRef.shift f₀.size)).toList := by
    rw [Grove.toList_map]
    exact List.mem_map_of_mem hr
  rw [Forest.subtree_eq h.holds_placed h.nodup_placed hmem,
    Grove.under_map (shift_injective f₀.size), Forest.subtree_eq h.holds h.nodup hr]

/-- A filter of library rules includes a placed node when it included the node. -/
theorem Sound.includes_placed (h : y.Sound) {filter : NodeFilter} (hfilter : filter.Standard)
    (r : NodeRef) : filter.includes (NodeRule.judge (y.placed f₀ top).forest (r.shift f₀.size))
      = filter.includes (NodeRule.judge y.forest r) := by
  rw [Filter.includes, Filter.includes]
  congr 2
  refine Filter.apply_congr filter ?_
  intro rule hrule
  have hcustom : ∀ custom, rule ≠ .custom custom := fun custom hc => hfilter custom (hc ▸ hrule)
  rw [placed, NodeRule.judge_after f₀ (h.ordered.beneath top) r
    fun custom hc => absurd hc (hcustom custom)]
  exact NodeRule.judge_beneath top y.forest r hcustom

/-- The same nodes survive filters that say the same about the nodes. -/
theorem Sound.survives_placed_of {others : List NodeFilter} (h : y.Sound)
    (hsay : ∀ k ∈ y.tree.toList,
      (filters.all fun filter =>
        filter.includes (NodeRule.judge (y.placed f₀ top).forest (k.shift f₀.size)))
      = others.all fun filter => filter.includes (NodeRule.judge y.forest k))
    {r : NodeRef} (hr : r ∈ y.tree.toList) :
    (y.placed f₀ top).survives filters (r.shift f₀.size) = y.survives others r := by
  have hsub : ∀ a ∈ y.tree.toList, ∀ t ∈ y.forest.subtree a, t ∈ y.tree.toList := by
    intro a ha t ht
    rw [Forest.subtree_eq h.holds h.nodup ha] at ht
    exact Grove.under_subset ht
  have htest : ∀ t, (y.placed f₀ top).forest.isTest (t.shift f₀.size) = y.forest.isTest t :=
    fun t => (Forest.isTest_after f₀ _ t).trans (Forest.isTest_beneath top y.forest t)
  rw [survives, survives, h.subtree_placed hr, List.any_map]
  refine Grove.any_congr_of_mem ?_
  intro t ht
  have hty := hsub r hr t ht
  rw [Function.comp_apply, htest, h.subtree_placed hty, List.any_map]
  congr 1
  exact Grove.any_congr_of_mem fun k hk => hsay k (hsub t hty k hk)

/-- **The same nodes survive** filters of the library. -/
theorem Sound.survives_placed (h : y.Sound) (hfilters : ∀ filter ∈ filters, filter.Standard)
    {r : NodeRef} (hr : r ∈ y.tree.toList) :
    (y.placed f₀ top).survives filters (r.shift f₀.size) = y.survives filters r := by
  refine h.survives_placed_of ?_ hr
  intro k _
  refine Bool.eq_iff_iff.mpr ?_
  rw [List.all_eq_true, List.all_eq_true]
  refine forall₂_congr fun filter hfilter => ?_
  rw [h.includes_placed (hfilters filter hfilter)]

/-- The root of a placed find is known by its longer id. -/
theorem rootIdentifier_placed :
    (y.placed f₀ top).rootIdentifier (top.map Segment.render)
      = (y.rootIdentifier none).map (Identifier.beneath (top.map Segment.render)) := by
  rw [rootIdentifier, rootIdentifier, placed, Forest.bare?_after, Forest.bare?_beneath]
  cases y.forest.bare? y.root with
  | none => rfl
  | some n => exact congrArg (fun i => [i]) (n.identifier_beneath_root top)

/-- **The same identifiers** but for the ids, when the same nodes survive. -/
theorem Sound.identifiers_placed {others : List NodeFilter} (h : y.Sound)
    (hsame : ∀ r ∈ y.tree.toList,
      (y.placed f₀ top).survives filters (r.shift f₀.size) = y.survives others r) :
    (y.placed f₀ top).identifiers filters (top.map Segment.render)
      = (y.identifiers others none).map (Identifier.beneath (top.map Segment.render)) := by
  have hplaced : (y.placed f₀ top).forest.Holds none (y.placed f₀ top).tree := by
    rw [h.tree_placed]
    exact h.holds_placed
  have hnodup : (y.placed f₀ top).tree.toList.Nodup := by
    rw [h.tree_placed]
    exact h.nodup_placed
  rw [identifiers_eq hplaced hnodup, identifiers_eq h.holds h.nodup, List.map_append,
    rootIdentifier_placed, h.below_placed, Grove.keep_map,
    Grove.keep_congr fun r hr => hsame r (mem_tree.mpr (Or.inr hr)),
    Grove.toList_map, Forest.identifiers, Forest.identifiers, List.filterMap_map,
    List.map_filterMap]
  congr 1
  refine List.filterMap_congr ?_
  intro r hr
  -- below the root every node has a parent
  obtain ⟨hroot, hb⟩ := Forest.holds_tree.mp h.holds
  obtain ⟨n, hn, -⟩ := hroot.exists_node
  have hbare : y.forest.bare? y.root = some n.bare := by
    rw [Forest.bare?, hn]
    rfl
  obtain ⟨p, m, hp, hm⟩ := Forest.exists_parent hb hbare ((Grove.sublist_keep _ _).mem hr)
  exact Forest.identifier?_placed f₀ y.forest top hp hm

end

/-- What was found for a request are other finds, placed elsewhere. -/
def Placed (top : Option Segment) (xs ys : List (Find κ)) : Prop :=
  List.Forall₂ (fun x y => ∃ f₀, x = y.placed f₀ top) xs ys

/-- Other finds are placed elsewhere, and filters let survive there what others let survive. -/
def Echoed (top : Option Segment) (filters others : List NodeFilter) (xs ys : List (Find κ)) :
    Prop :=
  List.Forall₂ (fun x y => ∃ f₀, x = y.placed f₀ top ∧ y.Sound ∧
    ∀ r ∈ y.tree.toList, x.survives filters (r.shift f₀.size) = y.survives others r) xs ys

section

variable {xs ys : List (Find κ)} {top : Option Segment} {filters others : List NodeFilter}

/-- Filters of library rules let survive what they let survive elsewhere. -/
theorem Placed.echoed (h : Placed top xs ys) (hys : ∀ y ∈ ys, y.Sound)
    (hfilters : ∀ filter ∈ filters, filter.Standard) : Echoed top filters filters xs ys := by
  induction h with
  | nil => exact .nil
  | cons hx _ ih =>
      obtain ⟨f₀, rfl⟩ := hx
      have hy := hys _ (List.mem_cons_self ..)
      refine .cons ⟨f₀, rfl, hy, fun r hr => hy.survives_placed hfilters hr⟩ ?_
      exact ih fun y hy => hys y (List.mem_cons_of_mem _ hy)

theorem Echoed.rootIdentifiers (h : Echoed top filters others xs ys) :
    xs.flatMap (rootIdentifier (top.map Segment.render))
      = (ys.flatMap (rootIdentifier none)).map (Identifier.beneath (top.map Segment.render)) := by
  induction h with
  | nil => rfl
  | cons hx _ ih =>
      obtain ⟨f₀, rfl, -, -⟩ := hx
      rw [List.flatMap_cons, List.flatMap_cons, List.map_append, ih, rootIdentifier_placed]

theorem Echoed.identifiers (h : Echoed top filters others xs ys) :
    xs.flatMap (Find.identifiers filters (top.map Segment.render))
      = (ys.flatMap (Find.identifiers others none)).map
          (Identifier.beneath (top.map Segment.render)) := by
  induction h with
  | nil => rfl
  | cons hx _ ih =>
      obtain ⟨f₀, rfl, hy, hsame⟩ := hx
      rw [List.flatMap_cons, List.flatMap_cons, List.map_append, ih, hy.identifiers_placed hsame]

end

end Find

/-! ## What engines find for a request -/

namespace Resolution

variable {strict : Bool} {phase : Phase} {rooted : RootedRequest} {request : DiscoveryRequest}
  {engine : Engine κ} {engines : List (Engine κ)} {r r' : Resolution κ} {v w w' : World κ ω ρ}
  {f₀ : Forest} {top : Option Segment} {xs : List (Find κ)} {y : Find κ}

/-- What an engine finds for a request alone in an empty forest. -/
def sketch? (request : DiscoveryRequest) (v : World κ ω ρ) (engine : Engine κ) :
    Option (Find κ) :=
  find? ⟨request, none⟩ { v with forest := ∅ } engine

theorem sound_of_sketch? (hfresh : engine.BuildsFresh) (hp : engine.Placeless)
    (h : sketch? request v engine = some y) : y.Sound := by
  rw [sketch?, find?] at h
  split at h
  · rename_i id _ _
    dsimp only at h
    rcases hd : (engine.discover request id).on (∅, v.engines) with ⟨result, s⟩
    rw [hd] at h
    rcases result with e | _ | root
    · cases h
    · cases h
    · cases h
      obtain ⟨b, hholds, hnodup, -⟩ := hfresh.fresh _ _ _ _ _ hd
      obtain ⟨hroot, hb⟩ := Forest.holds_tree.mp hholds
      have htree : (⟨engine, root, s.1⟩ : Find κ).tree = .tree root b := by
        rw [Find.tree, Forest.below_eq hroot hb (Grove.nodup_tree.mp hnodup).2]
      obtain ⟨-, hordered, -, -⟩ := hp ∅ 0 request id (∅, v.engines) (∅, v.engines)
        (Forest.after_empty ∅).symm Forest.ordered_empty rfl
      rw [hd] at hordered
      exact ⟨by rw [htree]; exact hholds, by rw [htree]; exact hnodup, hordered⟩
  · cases h

/-- The root of an engine's tree below the node of a suite gets the id it gets alone, made
    longer. -/
theorem rootId_beneath (top : Option Segment) (engineId : String) :
    rootId (top.map UniqueId.single) engineId
      = (rootId none engineId).map (UniqueId.beneath top) := by
  have hnone : rootId none engineId = (Segment.make Segment.engineType engineId).map
      UniqueId.single := rfl
  rw [hnone]
  cases top with
  | none =>
      show rootId none engineId = _
      rw [hnone]
      cases Segment.make Segment.engineType engineId <;> rfl
  | some s =>
      show (Segment.make Segment.engineType engineId).map (UniqueId.single s).push = _
      cases Segment.make Segment.engineType engineId <;> rfl

/-- **An engine finds the same below a suite.** -/
theorem find?_placed (hr : engine.RerootsTo top) (hp : engine.Placeless)
    (htop : (rooted.suite?.bind w.forest.node?).map Node.id = top.map UniqueId.single) :
    find? rooted w engine = (sketch? rooted.request v engine).map (Find.placed w.forest top) := by
  rw [sketch?, find?, find?, htop, rootId_beneath]
  dsimp only [Option.bind_none, Option.map_none]
  cases excludes rooted.request.engineFilters engine.id with
  | error e => rfl
  | ok excluded =>
      cases excluded with
      | true => rfl
      | false =>
          cases rootId none engine.id with
          | error e => rfl
          | ok id =>
              obtain ⟨hforest, -, hend⟩ := hr.discover_after hp rooted.request id w.forest
                v.engines w.engines
              simp only [Except.map]
              rcases hlong : (engine.discover rooted.request (id.beneath top)).on
                (w.forest, w.engines) with ⟨z, s⟩
              rcases hshort : (engine.discover rooted.request id).on (∅, v.engines) with ⟨x, t⟩
              rw [hlong, hshort] at hforest hend
              cases hend with
              | error _ => rfl
              | ok h =>
                  rename_i root? root?'
                  subst h
                  cases root? with
                  | none => rfl
                  | some root =>
                      show some (⟨engine, root.shift w.forest.size, s.1⟩ : Find κ)
                        = some (Find.placed w.forest top ⟨engine, root, t.1⟩)
                      rw [Find.placed, ← hforest]

theorem akin_held {α β : Type} {R : α → β → Prop} {x : Except Fault α} {z : Except Fault β}
    (h : Akin R x z) : Akin (Option.Rel R) (held x) (held z) := by
  cases h with
  | ok h => exact .ok (.some h)
  | error h =>
      rename_i d e
      have hescapes : d.escapes = e.escapes := by
        rw [Fault.escapes, Fault.escapes, Fault.isException, Fault.isException,
          Fault.isUnrecoverable, Fault.isUnrecoverable, h]
      rw [held, held, hescapes]
      split
      · exact .error h
      · exact .ok .none

/-- Calling an engine below a suite ends as calling it for the request alone. -/
theorem answer_placed (hr : engine.RerootsTo top) (hp : engine.Placeless)
    (htop : (rooted.suite?.bind w.forest.node?).map Node.id = top.map UniqueId.single) :
    Akin (fun root? root?' => root?' = root?.map (NodeRef.shift w.forest.size))
      (answer strict ⟨rooted.request, none⟩ { v with forest := ∅ } engine)
      (answer strict rooted w engine) := by
  rw [answer, answer, htop, rootId_beneath]
  dsimp only [Option.bind_none, Option.map_none]
  cases rootId none engine.id with
  | error e => exact .error rfl
  | ok id =>
      obtain ⟨-, -, hend⟩ := hr.discover_after hp rooted.request id w.forest v.engines w.engines
      have hheld := akin_held hend
      show Akin _ (held _ >>= _) (held _ >>= _)
      generalize held ((engine.discover rooted.request id).on (∅, v.engines)).1 = x at hheld
      generalize held ((engine.discover rooted.request (id.beneath top)).on
        (w.forest, w.engines)).1 = z at hheld
      cases hheld with
      | error h => exact .error h
      | ok h =>
          cases h with
          | none => exact .ok rfl
          | some h =>
              rename_i root? root?'
              subst h
              rcases root? with _ | root
              · cases strict with
                | true => exact .error rfl
                | false => exact .ok rfl
              · exact .ok rfl

theorem proceeds_placed (hr : engine.RerootsTo top) (hp : engine.Placeless)
    (htop : (rooted.suite?.bind w.forest.node?).map Node.id = top.map UniqueId.single) :
    Proceeds strict rooted w engine
      ↔ Proceeds strict ⟨rooted.request, none⟩ { v with forest := ∅ } engine := by
  have hanswer : Akin _ (answer strict ⟨rooted.request, none⟩ { v with forest := ∅ } engine)
      (answer strict rooted w engine) := answer_placed hr hp htop
  rw [Proceeds, Proceeds]
  refine exists_congr fun excluded => and_congr_right fun _ => imp_congr_right fun _ => ?_
  generalize answer strict ⟨rooted.request, none⟩ { v with forest := ∅ } engine = x at hanswer
  generalize answer strict rooted w engine = z at hanswer
  cases hanswer with
  | ok _ => exact ⟨fun _ => ⟨_, rfl⟩, fun _ => ⟨_, rfl⟩⟩
  | error _ =>
      constructor
      · rintro ⟨root?, h⟩
        cases h
      · rintro ⟨root?, h⟩
        cases h

/-- **Engines find the same below a suite**, and none that is asked there ends resolving. -/
theorem finds_placed (hfresh : ∀ e ∈ engines, e.BuildsFresh) (hp : ∀ e ∈ engines, e.Placeless)
    (hr : ∀ e ∈ engines, e.RerootsTo top) (hs : rooted.suite? = r.suite?)
    (htop : (rooted.suite?.bind f₀.node?).map Node.id = top.map UniqueId.single)
    (hplanted : Planted f₀ r.suite? w.forest xs)
    (h : (engines.foldlM (addEngine phase strict rooted) r).on w = (.ok r', w')) :
    Find.Placed top (finds phase strict rooted engines r w)
        (engines.filterMap (sketch? rooted.request v)) ∧
      ∀ e ∈ engines, Proceeds strict ⟨rooted.request, none⟩ { v with forest := ∅ } e := by
  induction engines generalizing r w xs with
  | nil => exact ⟨.nil, fun e he => absurd he List.not_mem_nil⟩
  | cons e es ih =>
      rw [List.foldlM_cons] at h
      obtain ⟨r₁, w₁, h₁, h₂⟩ := Steps.on_bind_eq_ok h
      have hplanted₁ := addEngine_planted (hfresh e (by simp)) hs hplanted h₁
      have hsuite : r₁.suite? = r.suite? := by rw [addEngine_plus h₁, plus]
      -- the id of the suite's node is what it was
      have htop' : (rooted.suite?.bind w.forest.node?).map Node.id = top.map UniqueId.single := by
        rw [← htop, hs]
        cases hp : r.suite? with
        | none => rfl
        | some p => exact Forest.map_id_of_bare? (hplanted.suite p hp).2.1
      have hfind : find? rooted w e
          = (sketch? rooted.request v e).map (Find.placed w.forest top) :=
        find?_placed (hr e (by simp)) (hp e (by simp)) htop'
      rw [← hsuite] at hs hplanted₁
      obtain ⟨hrest, hproceeds⟩ := ih (fun e' he' => hfresh e' (by simp [he']))
        (fun e' he' => hp e' (by simp [he'])) (fun e' he' => hr e' (by simp [he'])) hs hplanted₁ h₂
      constructor
      · rw [finds, h₁, hfind, List.filterMap_cons]
        cases sketch? rooted.request v e with
        | none => exact hrest
        | some y => exact .cons ⟨w.forest, rfl⟩ hrest
      · intro e' he'
        rcases List.mem_cons.mp he' with rfl | he'
        · exact (proceeds_placed (hr e' (by simp)) (hp e' (by simp)) htop').mp
            (proceeds_of_addEngine h₁)
        · exact hproceeds e' he'

end Resolution

end TestLauncher
