import TestLauncher.Engine.Catalogue
import TestLauncher.Proofs.Discovery.Agreement
import TestLauncher.Proofs.Plan.Owners

/-! # What engines over a catalogue discover

    Whatever it is asked for, an engine over a catalogue raises one tree of new nodes or
    comes to nothing: the root bears the id it was given and the engine's id as its name,
    the containers go below the root and the tests below their containers, each when its
    own tree stands.  So such an engine builds a fresh tree whenever it is asked
    (`engine_buildsFresh`), and the same one wherever it builds (`engine_placeless`).  A
    sample of such an engine closes the module. -/

namespace TestLauncher

namespace Catalogue

variable {c : Catalogue} {f₀ f f' : Forest}

/-! ## The trees -/

/-- A test is a leaf. -/
theorem raised_growTest {parent : UniqueId} {test : String} {r : NodeRef}
    (h : (c.growTest parent test).on f = (.ok r, f')) : ∃ n, f.Raised f' r n .nil := by
  obtain ⟨id, f₁, hid, h⟩ := Steps.on_bind_eq_ok h
  rw [Steps.on_ofExcept] at hid
  injection hid with _ hf
  subst hf
  exact ⟨_, Forest.raised_plant h⟩

/-- Tests go below a node one after the other, and nothing goes below them. -/
theorem raised_growTests {p : NodeRef} {n : Node} {b : Grove NodeRef} {id : UniqueId}
    {tests : List String} (hp : f₀.Raised f p n b) (hb : f.Leafy b)
    (h : (tests.forM fun test => do Forest.attach p (← c.growTest id test)).on f = (.ok (), f')) :
    ∃ b', f₀.Raised f' p n b' ∧ f'.Leafy b' := by
  refine Steps.forM_preserves (P := fun f => ∃ b, f₀.Raised f p n b ∧ f.Leafy b) ?_ ⟨b, hp, hb⟩ h
  rintro test _ f f' ⟨b, hp, hb⟩ h
  obtain ⟨t, f₁, htest, h⟩ := Steps.on_bind_eq_ok h
  obtain ⟨m, ht⟩ := raised_growTest htest
  exact ⟨_, hp.attach ht h, hp.leafy_attach ht h hb ⟨fun _ => rfl, trivial, trivial⟩⟩

/-- A class goes below the root with its tests. -/
theorem raised_growClass {root : NodeRef} {n : Node} {b : Grove NodeRef} {rootId : UniqueId}
    {name : String} {tests : List String} (hroot : f₀.Raised f root n b) (hb : f.Leafy b)
    (h : (c.growClass root rootId name tests).on f = (.ok (), f')) :
    ∃ b', f₀.Raised f' root n b' ∧ f'.Leafy b' := by
  obtain ⟨id, f₁, hid, h⟩ := Steps.on_bind_eq_ok h
  rw [Steps.on_ofExcept] at hid
  injection hid with _ hf
  subst hf
  obtain ⟨container, f₁, hcontainer, h⟩ := Steps.on_bind_eq_ok h
  obtain ⟨u, f₂, htests, h⟩ := Steps.on_bind_eq_ok h
  obtain ⟨d, hd, hleafy⟩ := raised_growTests (Forest.raised_plant hcontainer) trivial htests
  -- the container is not a test
  have hcontainer : f₂.isTest container = false := hd.isTest
  refine ⟨_, hroot.attach hd h, hroot.leafy_attach hd h hb ⟨fun ht => ?_, hleafy, trivial⟩⟩
  rw [hcontainer] at ht
  cases ht

/-- The tree for a request. -/
theorem raised_growTree {request : DiscoveryRequest} {id : UniqueId} {r : NodeRef}
    (h : (c.growTree request id).on f = (.ok r, f')) :
    ∃ b, f.Raised f' r { id, name := c.id } b ∧ f'.Leafy b := by
  obtain ⟨root, f₁, hroot, h⟩ := Steps.on_bind_eq_ok h
  obtain ⟨u, f₂, hclasses, h⟩ := Steps.on_bind_eq_ok h
  obtain ⟨u', f₃, halone, h⟩ := Steps.on_bind_eq_ok h
  cases h
  have hraised : ∃ b, f.Raised f₂ r { id, name := c.id } b ∧ f₂.Leafy b := by
    refine Steps.forM_preserves
      (P := fun f' => ∃ b, f.Raised f' r { id, name := c.id } b ∧ f'.Leafy b) ?_
      ⟨_, Forest.raised_plant hroot, trivial⟩ hclasses
    rintro name _ f₁ f₂ ⟨b, hr, hb⟩ h
    cases htests : c.tests.get? name with
    | none =>
        rw [htests] at h
        cases h
        exact ⟨b, hr, hb⟩
    | some tests =>
        rw [htests] at h
        exact raised_growClass hr hb h
  obtain ⟨b, hr, hb⟩ := hraised
  exact raised_growTests hr hb halone

theorem raised_discover {number : Nat} {request : DiscoveryRequest} {id : UniqueId} {r : NodeRef}
    {s t : Forest × Diaries} (h : (c.discover number request id).on s = (.ok (some r), t)) :
    ∃ b, s.1.Raised t.1 r { id, name := c.id } b ∧ t.1.Leafy b := by
  obtain ⟨u, s₁, henter, h⟩ := Steps.on_bind_eq_ok h
  cases henter
  cases hfail : c.failDiscover? with
  | some e =>
      rw [hfail] at h
      cases h
  | none =>
      rw [hfail] at h
      cases hrootless : c.rootless with
      | true =>
          simp only [hrootless, if_true] at h
          cases h
      | false =>
          simp only [hrootless, Bool.false_eq_true, if_false] at h
          obtain ⟨root, s₂, htree, h⟩ := Steps.on_bind_eq_ok h
          cases h
          rw [Steps.on_first] at htree
          obtain ⟨hroot, rfl⟩ := Prod.mk.inj htree
          exact raised_growTree (Prod.ext hroot rfl)

/-! ## The same wherever they are built -/

section

variable {n : Nat}

theorem mirrors_growTest (parent : UniqueId) (test : String) :
    Forest.GrowthsMirror f₀ n (c.growTest parent test) (c.growTest parent test)
      (fun m r r' => m = n + 1 ∧ r.index = n ∧ r' = r.shift f₀.size) := by
  refine (mirrors_ofExcept_same _).bind ?_
  rintro m i i' _ ⟨rfl, rfl⟩
  refine Forest.mirrors_plant ?_
  intro x hx
  rw [Node.make_eq_ok hx]
  exact ⟨rfl, rfl⟩

/-- Tests go below a node among the first so many. -/
theorem mirrors_growTests {p : NodeRef} (hp : p.index < n) (parent : UniqueId)
    (tests : List String) :
    Forest.GrowthsMirror f₀ n
      (tests.forM fun test => do Forest.attach p (← c.growTest parent test))
      (tests.forM fun test => do Forest.attach (p.shift f₀.size) (← c.growTest parent test))
      (fun m _ _ => p.index < m) := by
  refine mirrors_forM_same hp ?_
  intro test _ m _ hm
  refine (mirrors_growTest parent test).bind ?_
  rintro k r r' hmk ⟨rfl, hindex, rfl⟩
  refine (Forest.mirrors_attach (by omega) (by omega)).weaken ?_
  intro j _ _ hj hk
  omega

theorem mirrors_growClass {root : NodeRef} (hroot : root.index < n) (rootId : UniqueId)
    (name : String) (tests : List String) :
    Forest.GrowthsMirror f₀ n (c.growClass root rootId name tests)
      (c.growClass (root.shift f₀.size) rootId name tests) (fun m _ _ => root.index < m) := by
  refine (mirrors_ofExcept_same _).bind ?_
  rintro m i i' _ ⟨rfl, rfl⟩
  refine (Forest.mirrors_plant ?_).bind ?_
  · intro x hx
    rw [Node.make_eq_ok hx]
    exact ⟨rfl, rfl⟩
  · rintro k r r' _ ⟨rfl, hindex, rfl⟩
    refine (mirrors_growTests (by omega) i' tests).bind ?_
    intro j _ _ _ hj
    refine (Forest.mirrors_attach (by omega) hj).weaken ?_
    intro i _ _ _ hi
    omega

theorem mirrors_growTree (request : DiscoveryRequest) (i : UniqueId) :
    Forest.GrowthsMirror f₀ n (c.growTree request i) (c.growTree request i)
      (fun m r r' => n ≤ r.index ∧ r.index < m ∧ r' = r.shift f₀.size) := by
  refine (Forest.mirrors_plant ?_).bind ?_
  · intro x hx
    rw [Node.make_eq_ok hx]
    exact ⟨rfl, rfl⟩
  · rintro m root root' _ ⟨rfl, hindex, rfl⟩
    refine Mirrors.bind (R := fun m _ _ => root.index < m) ?_ ?_
    · refine mirrors_forM_same (by omega) ?_
      intro name _ m _ hm
      cases c.tests.get? name with
      | none => exact mirrors_pure hm
      | some tests => exact mirrors_growClass hm i name tests
    intro k _ _ _ hk
    refine (mirrors_growTests hk i c.alone).bind ?_
    intro j _ _ _ hj
    exact mirrors_pure ⟨Nat.le_of_eq hindex.symm, hj, rfl⟩

end

/-- **The same tree wherever it is built.** -/
theorem engine_placeless (c : Catalogue) (number : Nat) : (c.engine number).Placeless := by
  intro f₀ n request i
  have henter : Mirrors f₀ Prod.fst Prod.fst n (Diaries.enterDiscovery number i)
      (Diaries.enterDiscovery number i) (fun m _ _ => m = n) :=
    mirrors_modify (fun _ => rfl) fun _ => rfl
  refine henter.bind ?_
  intro m _ _ _ hm
  subst hm
  cases c.failDiscover? with
  | some e => exact mirrors_throw e
  | none =>
      dsimp only
      by_cases h : c.rootless = true
      · rw [if_pos h]
        exact mirrors_pure ⟨fun r hr => (by cases hr), rfl⟩
      · rw [if_neg h]
        refine (Forest.mirrors_first (mirrors_growTree request i)).bind ?_
        rintro k r r' _ ⟨hle, hlt, rfl⟩
        refine mirrors_pure ⟨?_, rfl⟩
        intro x hx
        cases hx
        exact ⟨hle, hlt⟩

/-- **A fresh tree whenever it is asked.** -/
theorem engine_buildsFresh (c : Catalogue) (number : Nat) : (c.engine number).BuildsFresh where
  leaves := (c.engine_placeless number).leaves
  fresh request i s r t h := by
    obtain ⟨b, hb, -⟩ := raised_discover h
    exact ⟨b, hb.holds, hb.nodup, hb.fresh⟩

theorem engine_rootsAtId (c : Catalogue) (number : Nat) : (c.engine number).RootsAtId := by
  intro request id s r t h
  obtain ⟨b, hb, -⟩ := raised_discover h
  exact ⟨_, hb.root, rfl⟩

/-- Engines over catalogues have what every such engine has. -/
theorem forall_engine {P : Engine Diaries → Prop} (hP : ∀ c number, P (engine c number))
    {es : List (Engine Diaries)} (h : ∀ e ∈ es, ∃ c number, e = engine c number) :
    ∀ e ∈ es, P e := by
  intro e he
  obtain ⟨c, number, rfl⟩ := h e he
  exact hP c number

/-! ## A sample -/

/-- A class with two tests, one of them fast and failing, and a test that stands alone. -/
def sample : Catalogue where
  id := "E"
  tests := OrderedMap.ofList [("m.K", ["t", "u"])]
  alone := ["v"]
  tags := OrderedMap.ofList [("t", StringSet.ofList ["fast"])]
  failing := ["t"]

end Catalogue

/-- A module with one suite, which selects the class. -/
def SuiteTables.sample : SuiteTables where
  modules := OrderedMap.ofList
    [("m", [{ name := "s", displayName := "S", selectors := [.ofClass ⟨"m.K", by decide⟩] }])]

/-- One engine, one listener, and the suite. -/
def Launcher.sample : Launcher Diaries Unit Unit where
  engines := [Catalogue.sample.engine 0]
  resolver? := some SuiteTables.sample.resolver
  listeners := [.silent "L"]

/-- The class and the suite, but only what is fast. -/
def DiscoveryRequest.sample : DiscoveryRequest where
  selectors := [.ofClass ⟨"m.K", by decide⟩, .ofModule ⟨"m", by decide⟩]
  nodeFilters := [.rule (.tags ⟨StringSet.ofList ["fast"], .including⟩)]

def World.sample : World Diaries Unit Unit := { engines := ∅, listeners := (), resolver := () }

end TestLauncher
