import TestLauncher.Proofs.Discovery.Placement
import TestLauncher.Proofs.Engine.Catalogue

/-! # Catalogues below longer ids

    Growing the tree of a catalogue, every id is made from that of the parent by one more
    segment, and whether a segment can be made does not depend on what it is appended to.  So
    below a longer id an engine over a catalogue builds the same tree with longer ids
    (`engine_rerootable`); its own failure does not look at the id at all. -/

namespace TestLauncher

namespace Catalogue

variable {c : Catalogue} {top : Option Segment}

theorem rerooted_growTest (parent : UniqueId) (test : String) :
    Forest.Rerooted top Eq (c.growTest parent test) (c.growTest (parent.beneath top) test) := by
  refine (Forest.rerooted_append parent "test" test).bind ?_
  rintro id _ rfl
  exact Forest.rerooted_plant id test .test (c.tags.getD test ∅)

theorem rerooted_growTests (p : NodeRef) (parent : UniqueId) (tests : List String) :
    Forest.Rerooted top Eq (tests.forM fun test => do Forest.attach p (← c.growTest parent test))
      (tests.forM fun test => do Forest.attach p (← c.growTest (parent.beneath top) test)) := by
  refine Forest.rerooted_forM ?_
  intro test _
  refine (rerooted_growTest parent test).bind ?_
  rintro r _ rfl
  exact Forest.rerooted_attach p r

theorem rerooted_growClass (root : NodeRef) (rootId : UniqueId) (name : String)
    (tests : List String) :
    Forest.Rerooted top Eq (c.growClass root rootId name tests)
      (c.growClass root (rootId.beneath top) name tests) := by
  refine (Forest.rerooted_append rootId "class" name).bind ?_
  rintro id _ rfl
  refine (Forest.rerooted_plant id (Text.simpleName name) .container ∅ (some name)).bind ?_
  rintro container _ rfl
  refine (rerooted_growTests container id tests).bind ?_
  intro _ _ _
  exact Forest.rerooted_attach root container

theorem rerooted_growTree (request : DiscoveryRequest) (id : UniqueId) :
    Forest.Rerooted top Eq (c.growTree request id) (c.growTree request (id.beneath top)) := by
  refine (Forest.rerooted_plant id c.id).bind ?_
  rintro root _ rfl
  refine Forest.Rerooted.bind (R := Eq) ?_ ?_
  · refine Forest.rerooted_forM ?_
    intro name _
    cases c.tests.get? name with
    | none => exact Forest.rerooted_pure rfl
    | some tests => exact rerooted_growClass root id name tests
  · intro _ _ _
    refine (rerooted_growTests root id c.alone).bind ?_
    intro _ _ _
    exact Forest.rerooted_pure rfl

/-- **The same tree below a longer id.** -/
theorem engine_rerootable (c : Catalogue) (number : Nat) : (c.engine number).Rerootable := by
  intro top request id f k k'
  have henter : ∀ (id : UniqueId) (s : Forest × Diaries),
      (Diaries.enterDiscovery number id).on s
        = (.ok (), ((Diaries.enterDiscovery number id).on s).2) := fun _ _ => rfl
  have hforest : ∀ (id : UniqueId) (s : Forest × Diaries),
      ((Diaries.enterDiscovery number id).on s).2.1 = s.1 := fun _ _ => rfl
  dsimp only [engine]
  rw [discover, discover, Steps.on_bind_ok (henter _ _), Steps.on_bind_ok (henter _ _)]
  cases c.failDiscover? with
  | some e => exact ⟨rfl, .error rfl⟩
  | none =>
      dsimp only
      by_cases h : c.rootless = true
      · rw [if_pos h, if_pos h]
        exact ⟨rfl, .ok rfl⟩
      · rw [if_neg h, if_neg h, Steps.on_bind, Steps.on_bind, Steps.on_first, Steps.on_first,
          hforest, hforest]
        obtain ⟨hgrown, hend⟩ := (rerooted_growTree request id : Forest.Rerooted top _ _ _) f
        generalize ((c.growTree request id).on f).1 = x at hend
        generalize ((c.growTree request (id.beneath top)).on (f.beneath top)).1 = y at hend
        cases hend with
        | error h => exact ⟨hgrown, .error h⟩
        | ok h => exact ⟨hgrown, .ok (congrArg some h)⟩

end Catalogue

end TestLauncher
