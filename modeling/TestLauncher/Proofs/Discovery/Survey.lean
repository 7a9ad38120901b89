import TestLauncher.Proofs.Boundary
import TestLauncher.Proofs.Forest.Subtree
import TestLauncher.Proofs.Forest.Thinning

/-! # What engines find for a request

    Along a run of the launcher every engine that no filter excludes is called in the world
    the ones before it left; what it finds is the root it returns, in the forest as it
    returned it (`finds`).  When engines build fresh trees, the trees found for one request
    stand side by side when the last engine is done (`Planted`), and resolving the request
    thins each of them twice (`ofRequest_eq_ok`). -/

namespace TestLauncher

/-- An engine that builds a tree of its own whenever it is asked to discover, and leaves what was
    there alone. -/
structure Engine.BuildsFresh {κ : Type} (e : Engine κ) : Prop where
  leaves : ∀ request id (s : Forest × κ), s.1.Extends ((e.discover request id).on s).2.1
  fresh : ∀ request id (s : Forest × κ) r t, (e.discover request id).on s = (.ok (some r), t) →
    ∃ b, t.1.Holds none (.tree r b) ∧ (Grove.tree r b).toList.Nodup ∧
      ∀ x ∈ (Grove.tree r b).toList, s.1.size ≤ x.index

/-- What an engine found: its root, and the forest as the engine returned it. -/
structure Find (κ : Type) where
  engine : Engine κ
  root : NodeRef
  forest : Forest

namespace Find

variable {κ : Type}

/-- The tree as the engine returned it. -/
def tree (x : Find κ) : Grove NodeRef := .tree x.root (x.forest.below x.root)

/-- The root of a find is in its tree. -/
theorem root_mem (x : Find κ) : x.root ∈ x.tree.toList := by
  exact Grove.mem_tree.mpr (Or.inl rfl)

/-- The engine returned the tree when it was asked for one below the id of a suite if there is
    one. -/
def Asked (x : Find κ) (suite? : Option UniqueId) : Prop :=
  ∃ request id s t, Resolution.rootId suite? x.engine.id = .ok id ∧
    (x.engine.discover request id).on s = (.ok (some x.root), t) ∧ t.1 = x.forest

/-- The trees that engines found, side by side. -/
def grove : List (Find κ) → Grove NodeRef
  | [] => .nil
  | x :: xs => .cons x.root (x.forest.below x.root) (grove xs)

/-- The trees of finds stand side by side in the order of the finds. -/
theorem grove_append (xs ys : List (Find κ)) : grove (xs ++ ys) = grove xs ++ grove ys := by
  induction xs with
  | nil => rfl
  | cons x xs ih =>
      rw [List.cons_append, grove, grove, ih]
      rfl

theorem grove_singleton (x : Find κ) : grove [x] = x.tree := rfl

/-- The roots of the trees are the roots that were found. -/
theorem roots_grove (xs : List (Find κ)) : (grove xs).roots = xs.map Find.root := by
  induction xs with
  | nil => rfl
  | cons x xs ih => rw [grove, Grove.roots_cons, ih, List.map_cons]

/-- The nodes of the trees are the nodes of each find. -/
theorem mem_toList_grove {xs : List (Find κ)} {r : NodeRef} :
    r ∈ (grove xs).toList ↔ ∃ x ∈ xs, r ∈ x.tree.toList := by
  induction xs with
  | nil => simp [grove]
  | cons x xs ih => simp [grove, tree, ih, or_assoc]

end Find

/-- The trees found for a request stand side by side, below the suite's node if there is one, in a
    forest that has grown beyond the one it was by them and by nothing that matters here. -/
structure Planted {κ : Type} (f₀ : Forest) (suite? : Option NodeRef) (f : Forest)
    (xs : List (Find κ)) : Prop where
  asked : ∀ x ∈ xs, x.Asked ((suite?.bind f₀.bare?).map Node.id)
  stood : ∀ x ∈ xs, x.forest.Holds none x.tree
  bare : ∀ x ∈ xs, ∀ r ∈ x.tree.toList, f.bare? r = x.forest.bare? r
  holds : f.Holds suite? (Find.grove xs)
  nodup : (Find.grove xs).toList.Nodup
  fresh : ∀ r ∈ (Find.grove xs).toList, f₀.size ≤ r.index
  size : f₀.size ≤ f.size
  frame : ∀ r, r.index < f₀.size → suite? ≠ some r → f.node? r = f₀.node? r
  suite : ∀ p, suite? = some p → p.index < f₀.size ∧ f.bare? p = f₀.bare? p ∧
    f.Stands p none (Find.grove xs).roots

namespace Planted

variable {κ : Type} {f₀ f f' : Forest} {suite? : Option NodeRef} {xs : List (Find κ)} {x : Find κ}

/-- Before any engine is called the suite's node stands alone. -/
theorem start (h : ∀ p, suite? = some p → f₀.Stands p none []) :
    Planted (κ := κ) f₀ suite? f₀ [] := by
  refine ⟨by simp, by simp, by simp, trivial, List.nodup_nil, by simp [Find.grove],
    Nat.le_refl _, fun _ _ _ => rfl, ?_⟩
  intro p hp
  obtain ⟨n, hn, -⟩ := (h p hp).exists_node
  refine ⟨(f₀.node?_isSome_iff p).mp (by rw [hn]; rfl), rfl, h p hp⟩

/-- The node of the suite is none of those that were found. -/
theorem suite_apart (h : Planted f₀ suite? f xs) :
    ∀ p ∈ suite?.toList, p ∉ (Find.grove xs).toList := by
  intro p hp hmem
  have hlt := (h.suite p (Option.mem_toList.mp hp)).1
  exact absurd (h.fresh p hmem) (Nat.not_le_of_lt hlt)

/-- More nodes elsewhere do not matter. -/
theorem extend (h : Planted f₀ suite? f xs) (hf : f.Extends f') : Planted f₀ suite? f' xs := by
  have hnode : ∀ r ∈ (Find.grove xs).toList, f'.node? r = f.node? r := fun r hr =>
    hf.node? (Forest.index_lt_of_holds h.holds hr)
  have hold : ∀ r, r.index < f₀.size → f'.node? r = f.node? r := fun r hr =>
    hf.node? (Nat.lt_of_lt_of_le hr h.size)
  refine ⟨h.asked, h.stood, ?_, hf.holds h.holds, h.nodup, h.fresh,
    Nat.le_trans h.size hf.size, fun r hr hs => (hold r hr).trans (h.frame r hr hs), ?_⟩
  · intro x hx r hr
    rw [← h.bare x hx r hr]
    exact Forest.bare?_congr (hnode r (Find.mem_toList_grove.mpr ⟨x, hx, hr⟩))
  · intro p hp
    obtain ⟨hlt, hbare, hstands⟩ := h.suite p hp
    refine ⟨hlt, (Forest.bare?_congr (hold p hlt)).trans hbare, ?_⟩
    refine hstands.congr (hold p hlt) ?_
    intro c hc
    exact Forest.bare?_congr (hnode c (Grove.mem_toList_of_mem_roots hc))

/-- A tree of new nodes shares none with those found before. -/
theorem nodup_snoc (h : Planted f₀ suite? f xs) (hn : x.tree.toList.Nodup)
    (hnew : ∀ r ∈ x.tree.toList, f.size ≤ r.index) :
    (Find.grove (xs ++ [x])).toList.Nodup := by
  rw [Find.grove_append, Find.grove_singleton, Grove.toList_append]
  refine List.nodup_append'.mpr ⟨h.nodup, hn, ?_⟩
  intro r hr hx
  have hlt := Forest.index_lt_of_holds h.holds hr
  exact absurd (hnew r hx) (Nat.not_le_of_lt hlt)

/-- All trees stand beyond the forest that the request began with. -/
theorem fresh_snoc (h : Planted f₀ suite? f xs) (hnew : ∀ r ∈ x.tree.toList, f.size ≤ r.index) :
    ∀ r ∈ (Find.grove (xs ++ [x])).toList, f₀.size ≤ r.index := by
  rw [Find.grove_append, Find.grove_singleton, Grove.toList_append]
  intro r hr
  rcases List.mem_append.mp hr with hr | hr
  · exact h.fresh r hr
  · exact Nat.le_trans h.size (hnew r hr)

/-- Every engine was asked for a tree below the same suite. -/
theorem asked_snoc (h : Planted f₀ suite? f xs)
    (hask : x.Asked ((suite?.bind f₀.bare?).map Node.id)) :
    ∀ y ∈ xs ++ [x], y.Asked ((suite?.bind f₀.bare?).map Node.id) := by
  intro y hy
  rcases List.mem_append.mp hy with hy | hy
  · exact h.asked y hy
  · rw [List.mem_singleton.mp hy]
    exact hask

/-- Every tree stood by itself when its engine returned it. -/
theorem stood_snoc (h : Planted f₀ suite? f xs) (hx : x.forest.Holds none x.tree) :
    ∀ y ∈ xs ++ [x], y.forest.Holds none y.tree := by
  intro y hy
  rcases List.mem_append.mp hy with hy | hy
  · exact h.stood y hy
  · rw [List.mem_singleton.mp hy]
    exact hx

/-- One more tree, apart. -/
theorem snoc (h : Planted f₀ none f xs) (hf : f.Extends x.forest) (hask : x.Asked none)
    (hx : x.forest.Holds none x.tree) (hn : x.tree.toList.Nodup)
    (hnew : ∀ r ∈ x.tree.toList, f.size ≤ r.index) :
    Planted f₀ none x.forest (xs ++ [x]) := by
  have hext := h.extend hf
  refine ⟨h.asked_snoc hask, h.stood_snoc hx, ?_, ?_, h.nodup_snoc hn hnew,
    h.fresh_snoc hnew, hext.size, hext.frame, fun p hp => by cases hp⟩
  · intro y hy r hr
    rcases List.mem_append.mp hy with hy | hy
    · exact hext.bare y hy r hr
    · rw [List.mem_singleton.mp hy]
  · rw [Find.grove_append]
    exact Forest.holds_append.mpr ⟨hext.holds, hx⟩

/-- One more tree below the suite's node. -/
theorem snocBelow {p : NodeRef} (h : Planted f₀ (some p) f xs) (hf : f.Extends x.forest)
    (hask : x.Asked ((f₀.bare? p).map Node.id))
    (hx : x.forest.Holds none x.tree) (hn : x.tree.toList.Nodup)
    (hnew : ∀ r ∈ x.tree.toList, f.size ≤ r.index)
    (hadd : x.forest.addChild p (some x.root) = .ok f') :
    Planted f₀ (some p) f' (xs ++ [x]) := by
  have hext := h.extend hf
  obtain ⟨hlt, hbare, hstands⟩ := hext.suite p rfl
  have hroot := x.root_mem
  -- the new tree has later nodes than everything that stood before
  have hold : ∀ r, r.index < f₀.size → r ∉ x.tree.toList := fun r hr hmem =>
    absurd (hnew r hmem) (Nat.not_le_of_lt (Nat.lt_of_lt_of_le hr h.size))
  have hrows : ∀ r ∈ (Find.grove xs).toList, r ∉ x.tree.toList := fun r hr hmem =>
    absurd (hnew r hmem) (Nat.not_le_of_lt (Forest.index_lt_of_holds h.holds hr))
  have hpx := hold p hlt
  have hcp : x.root ≠ p := fun e => hpx (e ▸ hroot)
  have hcs : x.root ∉ (Find.grove xs).roots := fun hmem =>
    hrows _ (Grove.mem_toList_of_mem_roots hmem) hroot
  obtain ⟨n, hn', hnone, -⟩ := (Forest.holds_tree.mp hx).1.exists_node
  obtain ⟨hgraft, hp'⟩ := Forest.addChild_new hadd hn' hnone hstands hcp hcs
  have hbare' := hgraft.bare? ⟨n, hn'⟩
  -- going below the suite's node changes that node and the new root only
  have hrow : ∀ r ∈ (Find.grove xs).toList, f'.node? r = x.forest.node? r := by
    intro r hr
    refine hgraft.frame r (fun e => hrows r hr (e ▸ hroot)) ?_
    intro e
    have hle := h.fresh r hr
    rw [e] at hle
    omega
  refine ⟨h.asked_snoc hask, h.stood_snoc hx, ?_, ?_, h.nodup_snoc hn hnew,
    h.fresh_snoc hnew, ?_, ?_, ?_⟩
  · intro y hy r hr
    rw [hbare' r]
    rcases List.mem_append.mp hy with hy | hy
    · exact hext.bare y hy r hr
    · rw [List.mem_singleton.mp hy]
  · rw [Find.grove_append]
    exact Forest.holds_append.mpr ⟨Forest.holds_congr hrow hext.holds, hgraft.holds hx hn hpx⟩
  · rw [Forest.size_addChild hadd]
    exact hext.size
  · intro r hr hs
    have hrx : r ≠ x.root := fun e => hold r hr (e ▸ hroot)
    have hrp : r ≠ p := fun e => hs (congrArg some e.symm)
    rw [hgraft.frame r hrx hrp, hext.frame r hr hs]
  · intro q hq
    cases hq
    refine ⟨hlt, (hbare' p).trans hbare, ?_⟩
    rw [Find.grove_append, Grove.roots_append]
    exact hp'

end Planted

namespace Resolution

variable {κ ω ρ : Type}

/-- Filters let an engine in when none of them excludes it. -/
theorem excludes_eq_false_iff {filters : List EngineFilter} {engineId : String} :
    excludes filters engineId = .ok false ↔
      ∀ filter ∈ filters, ∃ v, filter.verdict engineId = .ok v ∧ v.included = true := by
  induction filters with
  | nil => exact ⟨fun _ filter hf => absurd hf List.not_mem_nil, fun _ => rfl⟩
  | cons filter filters ih =>
      rw [excludes, List.anyM_cons, List.forall_mem_cons, ← ih]
      constructor
      · intro h
        obtain ⟨out, hout, h⟩ := bind_eq_ok h
        obtain ⟨v, hv, hincluded⟩ := bind_eq_ok hout
        cases out with
        | true => cases h
        | false =>
            refine ⟨⟨v, hv, ?_⟩, h⟩
            cases hi : v.included with
            | true => rfl
            | false =>
                rw [hi] at hincluded
                cases hincluded
      · rintro ⟨⟨v, hv, hi⟩, h⟩
        rw [hv]
        show (if !v.included then (pure true : Except Fault Bool)
          else excludes filters engineId) = _
        rw [hi]
        exact h

/-- What more filters let in fewer let in. -/
theorem excludes_of_subset {filters more : List EngineFilter} {engineId : String}
    (hsub : filters ⊆ more) (h : excludes more engineId = .ok false) :
    excludes filters engineId = .ok false :=
  excludes_eq_false_iff.mpr fun filter hfilter =>
    excludes_eq_false_iff.mp h filter (hsub hfilter)

/-- What an engine finds for a request: nothing when a filter excludes it, when it fails, and when
    it returns no root. -/
def find? (rooted : RootedRequest) (w : World κ ω ρ) (engine : Engine κ) : Option (Find κ) :=
  match excludes rooted.request.engineFilters engine.id,
    rootId ((rooted.suite?.bind w.forest.node?).map Node.id) engine.id with
  | .ok false, .ok id =>
    match (engine.discover rooted.request id).on (w.forest, w.engines) with
    | (.ok (some root), s) => some ⟨engine, root, s.1⟩
    | _ => none
  | _, _ => none

/-- What is found is what the engine returns, when it is called. -/
theorem find?_eq {rooted : RootedRequest} {w : World κ ω ρ} {engine : Engine κ} {id : UniqueId}
    (hex : excludes rooted.request.engineFilters engine.id = .ok false)
    (hid : rootId ((rooted.suite?.bind w.forest.node?).map Node.id) engine.id = .ok id) :
    find? rooted w engine
      = ((engine.discover rooted.request id).on (w.forest, w.engines)).1.toOption.join.map
          fun root => ⟨engine, root,
            ((engine.discover rooted.request id).on (w.forest, w.engines)).2.1⟩ := by
  rw [find?, hex, hid]
  dsimp only
  rcases (engine.discover rooted.request id).on (w.forest, w.engines) with ⟨e | _ | root, s⟩ <;> rfl

/-- What is found is recorded with the engine that found it. -/
theorem engine_of_find? {rooted : RootedRequest} {w : World κ ω ρ} {engine : Engine κ}
    {x : Find κ} (h : find? rooted w engine = some x) : x.engine = engine := by
  rw [find?] at h
  split at h
  · split at h
    · cases h
      rfl
    · cases h
  · cases h

/-- What engines find for a request, each called in the world the ones before it leave. -/
def finds (phase : Phase) (strict : Bool) (rooted : RootedRequest) :
    List (Engine κ) → Resolution κ → World κ ω ρ → List (Find κ)
  | [], _, _ => []
  | e :: es, r, w =>
    (find? rooted w e).toList ++
      match (addEngine phase strict rooted r e).on w with
      | (.ok r, w) => finds phase strict rooted es r w
      | (.error _, _) => []

/-! ## One engine -/

section

variable {strict : Bool} {phase : Phase} {rooted : RootedRequest} {engine : Engine κ}
  {r r' : Resolution κ} {root? : Option NodeRef} {w w' : World κ ω ρ}

/-- A line is written to the journal and to nothing else. -/
theorem on_log (line : LogRecord) :
    (Run.log line).on w = (.ok (), { w with journal := w.journal.write line }) := rfl

/-- What is left of calling an engine: the root it returned, if it returned one, and the forest as
    it returned it. -/
theorem discoverRoot_eq_ok (h : (discoverRoot strict engine rooted).on w = (.ok root?, w')) :
    ∃ id, rootId ((rooted.suite?.bind w.forest.node?).map Node.id) engine.id = .ok id ∧
      w'.forest = ((engine.discover rooted.request id).on (w.forest, w.engines)).2.1 ∧
      root? = ((engine.discover rooted.request id).on (w.forest, w.engines)).1.toOption.join := by
  rw [discoverRoot, Steps.on_bind_ok (Steps.on_get w)] at h
  obtain ⟨id, w₁, hid, h⟩ := Steps.on_bind_eq_ok h
  rw [Steps.on_ofExcept] at hid
  injection hid with hid hw₁
  subst hw₁
  obtain ⟨answer, w₂, hguard, h⟩ := Steps.on_bind_eq_ok h
  refine ⟨id, hid, ?_⟩
  rw [on_guarded, Run.byEngine, Steps.on_within] at hguard
  show w'.forest = ((engine.discover rooted.request id).on (Run.engineView w)).2.1 ∧
    root? = ((engine.discover rooted.request id).on (Run.engineView w)).1.toOption.join
  -- the boundary turns a fault into nothing found, or passes it on
  rcases hd : (engine.discover rooted.request id).on (Run.engineView w) with ⟨result, s⟩
  rw [hd] at hguard
  have hfst := guarded_fst engine "discover" result (Run.afterEngine s w)
  obtain ⟨j, hsnd⟩ := guarded_snd engine "discover" result (Run.afterEngine s w)
  rw [hguard] at hfst hsnd
  dsimp only at hfst hsnd h
  subst hsnd
  cases result with
  | error f =>
      rw [held] at hfst
      split at hfst
      · cases hfst
      · cases hfst
        cases h
        exact ⟨rfl, rfl⟩
  | ok found =>
      cases hfst
      cases found with
      | some root =>
          cases h
          exact ⟨rfl, rfl⟩
      | none =>
          cases strict with
          | true => cases h
          | false =>
              cases h
              exact ⟨rfl, rfl⟩

/-- A root is attached to its suite in the forest of the world. -/
theorem addChild_of_onForest {p c : NodeRef}
    (h : (Run.onForest (Forest.attach p c).first : Run κ ω ρ Unit).on w = (.ok (), w')) :
    w.forest.addChild p (some c) = .ok w'.forest := by
  rw [Run.onForest, Steps.on_within, Steps.on_first] at h
  injection h with hresult hw
  subst hw
  exact Forest.addChild_of_attach (Prod.ext hresult rfl)

/-- Taking one more engine in: it finds nothing and the resolution stays, or its root is added, and
    put below the suite's node if there is one. -/
theorem addEngine_eq_ok (h : (addEngine phase strict rooted r engine).on w = (.ok r', w')) :
    (find? rooted w engine = none ∧ r' = r ∧ (w'.forest = w.forest ∨
      ∃ id, w'.forest = ((engine.discover rooted.request id).on (w.forest, w.engines)).2.1)) ∨
    ∃ x id s, find? rooted w engine = some x ∧ x.engine = engine ∧
      rootId ((rooted.suite?.bind w.forest.node?).map Node.id) engine.id = .ok id ∧
      (engine.discover rooted.request id).on (w.forest, w.engines) = (.ok (some x.root), s) ∧
      s.1 = x.forest ∧ r' = { r with roots := r.roots ++ [(engine, x.root)] } ∧
      match r.suite? with
      | none => w'.forest = x.forest
      | some p => x.forest.addChild p (some x.root) = .ok w'.forest := by
  obtain ⟨excluded, w₁, hex, h⟩ := Steps.on_bind_eq_ok h
  rw [Steps.on_ofExcept] at hex
  injection hex with hex hw₁
  subst hw₁
  -- an engine that a filter excludes is not asked
  cases excluded with
  | true =>
      cases h
      refine Or.inl ⟨?_, rfl, Or.inl rfl⟩
      rw [find?, hex]
  | false =>
      obtain ⟨u, w₂, hlog, h⟩ := Steps.on_bind_eq_ok h
      rw [on_log] at hlog
      injection hlog with _ hw₂
      subst hw₂
      obtain ⟨root?, w₃, hroot, h⟩ := Steps.on_bind_eq_ok h
      obtain ⟨id, hid, hforest, hroot?⟩ := discoverRoot_eq_ok hroot
      dsimp only at hid hforest hroot? h
      cases root? with
      | none =>
          cases h
          refine Or.inl ⟨?_, rfl, Or.inr ⟨id, hforest⟩⟩
          rw [find?_eq hex hid, ← hroot?]
          rfl
      | some root =>
          rcases hd : (engine.discover rooted.request id).on (w.forest, w.engines) with ⟨result, s⟩
          -- what the engine returned is a root, so its discovery did not fail
          have hfind := find?_eq hex hid
          rw [← hroot?, hd] at hfind
          rw [hd] at hforest hroot?
          have hresult : result = .ok (some root) := by
            rcases result with f | _ | root'
            · cases hroot?
            · cases hroot?
            · cases hroot?
              rfl
          subst hresult
          cases hsuite : r.suite? with
          | none =>
              simp only [addRoot, hsuite] at h
              cases h
              exact Or.inr ⟨_, id, s, hfind, rfl, hid, hd, rfl, rfl, hforest⟩
          | some p =>
              simp only [addRoot, hsuite] at h
              obtain ⟨u, w₄, hattach, h⟩ := Steps.on_bind_eq_ok h
              cases h
              refine Or.inr ⟨_, id, s, hfind, rfl, hid, hd, rfl, rfl, ?_⟩
              show s.1.addChild p (some root) = .ok w'.forest
              rw [← hforest]
              exact addChild_of_onForest hattach

end

/-! ## All engines -/

section

variable {strict : Bool} {phase : Phase} {rooted : RootedRequest} {engine : Engine κ}
  {engines : List (Engine κ)} {r r' : Resolution κ} {w w' : World κ ω ρ} {f₀ : Forest}
  {xs : List (Find κ)}

/-- A resolution with what engines found. -/
def plus (r : Resolution κ) (xs : List (Find κ)) : Resolution κ :=
  { r with roots := r.roots ++ xs.map fun x => (x.engine, x.root) }

theorem plus_nil : r.plus [] = r := by
  rw [plus, List.map_nil, List.append_nil]

/-- Finds are added in turn. -/
theorem plus_plus (xs ys : List (Find κ)) : (r.plus xs).plus ys = r.plus (xs ++ ys) := by
  rw [plus, plus, plus, List.map_append, List.append_assoc]

/-- One engine after the others: what it finds is taken down. -/
theorem addEngine_plus (h : (addEngine phase strict rooted r engine).on w = (.ok r', w')) :
    r' = r.plus (find? rooted w engine).toList := by
  rcases addEngine_eq_ok h with ⟨hnone, hr, -⟩ | ⟨x, id, s, hx, hxe, -, -, -, hr, -⟩
  · rw [hnone, Option.toList_none, plus_nil, hr]
  · rw [hx, Option.toList_some, hr, plus, List.map_singleton, hxe]

/-- Engines that are resolved add what each of them finds. -/
theorem addEngines_plus
    (h : (engines.foldlM (addEngine phase strict rooted) r).on w = (.ok r', w')) :
    r' = r.plus (finds phase strict rooted engines r w) := by
  induction engines generalizing r w with
  | nil =>
      cases h
      rw [finds, plus_nil]
  | cons e es ih =>
      rw [List.foldlM_cons] at h
      obtain ⟨r₁, w₁, h₁, h₂⟩ := Steps.on_bind_eq_ok h
      rw [finds, h₁, ← plus_plus, ← addEngine_plus h₁]
      exact ih h₂

/-- One more engine keeps the trees planted, its own among them. -/
theorem addEngine_planted (hfresh : engine.BuildsFresh) (hs : rooted.suite? = r.suite?)
    (hp : Planted f₀ r.suite? w.forest xs)
    (h : (addEngine phase strict rooted r engine).on w = (.ok r', w')) :
    Planted f₀ r.suite? w'.forest (xs ++ (find? rooted w engine).toList) := by
  rcases addEngine_eq_ok h with ⟨hnone, -, hforest⟩ | ⟨x, id, s, hx, hxe, hid, hd, hsf, -, hadd⟩
  · rw [hnone, Option.toList_none, List.append_nil]
    rcases hforest with hforest | ⟨id, hforest⟩
    · rw [hforest]
      exact hp
    · rw [hforest]
      exact hp.extend (hfresh.leaves rooted.request id (w.forest, w.engines))
  · rw [hx, Option.toList_some]
    have hext : w.forest.Extends x.forest := by
      have hleaves := hfresh.leaves rooted.request id (w.forest, w.engines)
      rw [hd, hsf] at hleaves
      exact hleaves
    -- a fresh tree stands, and its links spell out what the find says
    obtain ⟨b, hholds, hnodup, hnew⟩ := hfresh.fresh rooted.request id _ _ _ hd
    rw [hsf] at hholds
    obtain ⟨hroot, hb⟩ := Forest.holds_tree.mp hholds
    have htree : x.tree = .tree x.root b := by
      rw [Find.tree, Forest.below_eq hroot hb (Grove.nodup_tree.mp hnodup).2]
    rw [← htree] at hholds hnodup hnew
    subst hxe
    cases hr : r.suite? with
    | none =>
        rw [hs, hr] at hid
        rw [hr] at hadd hp
        rw [hadd]
        exact hp.snoc hext ⟨_, id, _, s, hid, hd, hsf⟩ hholds hnodup hnew
    | some p =>
        rw [hs, hr] at hid
        rw [hr] at hadd hp
        have hask : x.Asked ((f₀.bare? p).map Node.id) := by
          rw [← (hp.suite p rfl).2.1, Forest.bare?, Option.map_map]
          exact ⟨_, id, _, s, hid, hd, hsf⟩
        exact hp.snocBelow hext hask hholds hnodup hnew hadd

/-- **What engines find is planted**, in the order of the engines. -/
theorem addEngines_planted (hfresh : ∀ e ∈ engines, e.BuildsFresh)
    (hs : rooted.suite? = r.suite?)
    (hp : Planted f₀ r.suite? w.forest xs)
    (h : (engines.foldlM (addEngine phase strict rooted) r).on w = (.ok r', w')) :
    Planted f₀ r.suite? w'.forest (xs ++ finds phase strict rooted engines r w) := by
  induction engines generalizing r w xs with
  | nil =>
      cases h
      rw [finds, List.append_nil]
      exact hp
  | cons e es ih =>
      rw [List.foldlM_cons] at h
      obtain ⟨r₁, w₁, h₁, h₂⟩ := Steps.on_bind_eq_ok h
      have hp₁ := addEngine_planted (hfresh e (by simp)) hs hp h₁
      have hsuite : r₁.suite? = r.suite? := by rw [addEngine_plus h₁, plus]
      rw [← hsuite] at hs hp₁ ⊢
      have hp₂ := ih (fun e' he' => hfresh e' (by simp [he'])) hs hp₁ h₂
      rw [finds, h₁, ← List.append_assoc]
      exact hp₂

/-- Engines find things in the order in which they were registered, each at most once. -/
theorem engine_finds_sublist (engines : List (Engine κ)) (r : Resolution κ) (w : World κ ω ρ) :
    ((finds phase strict rooted engines r w).map Find.engine).Sublist engines := by
  induction engines generalizing r w with
  | nil => exact List.Sublist.slnil
  | cons e es ih =>
      have htail : ∀ result : Except Fault (Resolution κ) × World κ ω ρ,
          ((match result with
            | (.ok r, w) => finds phase strict rooted es r w
            | (.error _, _) => []).map Find.engine).Sublist es := by
        rintro ⟨result, w'⟩
        cases result with
        | error f => exact List.nil_sublist es
        | ok r' => exact ih r' w'
      rw [finds, List.map_append]
      cases hx : find? rooted w e with
      | none => exact (htail _).cons e
      | some x =>
          have hxe : x.engine = e := engine_of_find? hx
          rw [Option.toList_some, List.map_singleton, hxe]
          exact (htail _).cons_cons e

/-! ## Sifting and pruning -/

/-- What follows edits of a forest for each root does the same to the world's forest. -/
theorem on_forM_onForest {c : Engine κ × NodeRef → Steps (Forest × Journal) Unit}
    {d : NodeRef → Steps Forest Unit} (h : ∀ e, Forest.Follows (c e) (d e.2))
    (roots : List (Engine κ × NodeRef)) (w : World κ ω ρ) :
    ∃ j, ((roots.forM fun e => Run.onForest (c e)) : Run κ ω ρ Unit).on w
      = ((((roots.map Prod.snd).forM d).on w.forest).1,
          { w with forest := (((roots.map Prod.snd).forM d).on w.forest).2, journal := j }) := by
  induction roots generalizing w with
  | nil => exact ⟨w.journal, rfl⟩
  | cons e roots ih =>
      obtain ⟨j₁, hc⟩ := h e w.forest w.journal
      have hon : (Run.onForest (c e) : Run κ ω ρ Unit).on w = (((d e.2).on w.forest).1,
          { w with forest := ((d e.2).on w.forest).2, journal := j₁ }) := by
        rw [Run.onForest, Steps.on_within, hc]
      show ∃ j, (Run.onForest (c e) >>= fun _ => roots.forM fun e => Run.onForest (c e)).on w
        = (((d e.2 >>= fun _ => (roots.map Prod.snd).forM d).on w.forest).1, { w with
          forest := ((d e.2 >>= fun _ => (roots.map Prod.snd).forM d).on w.forest).2,
          journal := j })
      rcases hd : (d e.2).on w.forest with ⟨result, f₁⟩
      rw [hd] at hon
      cases result with
      | error fault =>
          refine ⟨j₁, ?_⟩
          rw [Steps.on_bind_error hon, Steps.on_bind_error hd]
      | ok u =>
          obtain ⟨j, hj⟩ := ih { w with forest := f₁, journal := j₁ }
          refine ⟨j, ?_⟩
          rw [Steps.on_bind_ok hon, Steps.on_bind_ok hd, hj]

/-- A sieve that succeeds has thinned every root by the composed filter. -/
theorem sift_eq_ok {filters : List NodeFilter} (h : (sift filters r).on w = (.ok (), w')) :
    ∃ filter, Filter.compose (filters.map some) = .ok filter ∧
      ((r.roots.map Prod.snd).forM (Forest.thinBelow (Forest.includes filter))).on w.forest
        = (.ok (), w'.forest) := by
  obtain ⟨filter, w₁, hcompose, h⟩ := Steps.on_bind_eq_ok h
  rw [Steps.on_ofExcept] at hcompose
  injection hcompose with hcompose hw₁
  subst hw₁
  obtain ⟨j, hon⟩ := on_forM_onForest (c := fun e => Forest.sift filter e.2)
    (fun e => Forest.sift_follows filter e.2) r.roots w
  rw [hon] at h
  injection h with hok hw
  subst hw
  exact ⟨filter, hcompose, Prod.ext hok rfl⟩

/-- Pruning thins a tree to the branches with tests. -/
theorem prune_follows (root : NodeRef) :
    Forest.Follows (Forest.prune root).first
      (Forest.thinBelow (fun f r => .ok (f.isTest r)) root) := by
  intro f j
  rw [← Forest.prune_eq]
  exact ⟨j, Steps.on_first ..⟩

/-- Pruning that succeeds has thinned every root to the branches with tests. -/
theorem prune_eq_ok (h : (prune r).on w = (.ok (), w')) :
    ((r.roots.map Prod.snd).forM (Forest.thinBelow fun f r => .ok (f.isTest r))).on w.forest
      = (.ok (), w'.forest) := by
  have hfollows : ∀ e : Engine κ × NodeRef, Forest.Follows (Forest.prune e.2).first
      (Forest.thinBelow (fun f r => .ok (f.isTest r)) e.2) := fun e => prune_follows e.2
  obtain ⟨j, hon⟩ := on_forM_onForest (c := fun e => (Forest.prune e.2).first) hfollows r.roots w
  rw [prune, hon] at h
  injection h with hok hw
  subst hw
  exact Prod.ext hok rfl

end

/-! ## A whole request -/

/-- What a request is resolved to before any engine is called. -/
def start (rooted : RootedRequest) (w : World κ ω ρ) : Resolution κ where
  suite? := rooted.suite?
  suiteIdentifier? := rooted.suite?.bind w.forest.identifier?

/-- What is left of trees that were thinned by filters and then to the branches with tests, with
    the given nodes above their roots. -/
def Sifted (filters : List NodeFilter) (f : Forest) (above : List NodeRef)
    (g g'' : Grove NodeRef) : Prop :=
  ∃ filter v g', Filter.compose (filters.map some) = .ok filter ∧
    Forest.Answers (Forest.includes filter) f (g.withPaths above) v ∧
    g.thinBelow v = .ok g' ∧ g'.thinBelow (fun r => .ok (f.isTest r)) = .ok g''

/-- The trees that were found stood in one forest, and what is left of them stands in another;
    nothing else is different there. -/
structure Settled (filters : List NodeFilter) (f₀ : Forest) (suite? : Option NodeRef)
    (xs : List (Find κ)) (f f' : Forest) (g : Grove NodeRef) : Prop where
  planted : Planted f₀ suite? f xs
  sifted : Sifted filters f suite?.toList (Find.grove xs) g
  holds : f'.Holds suite? g
  bare : ∀ r, f'.bare? r = f.bare? r
  frame : ∀ r, r ∉ (Find.grove xs).toList → f'.node? r = f.node? r

section

variable {strict : Bool} {phase : Phase} {rooted : RootedRequest} {engines : List (Engine κ)}
  {r : Resolution κ} {w w' : World κ ω ρ}

/-- A request is resolved when all engines were added, and their trees were sifted and pruned. -/
theorem ofRequest_eq_ok_iff : (ofRequest engines strict phase rooted).on w = (.ok r, w') ↔
    ∃ w₁ w₂, (engines.foldlM (addEngine phase strict rooted) (start rooted w)).on w = (.ok r, w₁) ∧
      (sift rooted.request.nodeFilters r).on w₁ = (.ok (), w₂) ∧ (prune r).on w₂ = (.ok (), w') := by
  constructor
  · intro h
    obtain ⟨w₀, _, hget, h⟩ := Steps.on_bind_eq_ok h
    cases hget
    obtain ⟨r₁, w₁, hfold, h⟩ := Steps.on_bind_eq_ok h
    obtain ⟨_, w₂, hsift, h⟩ := Steps.on_bind_eq_ok h
    obtain ⟨_, w₃, hprune, h⟩ := Steps.on_bind_eq_ok h
    cases h
    exact ⟨w₁, w₂, hfold, hsift, hprune⟩
  · rintro ⟨w₁, w₂, hfold, hsift, hprune⟩
    rw [ofRequest, Steps.on_bind_ok (Steps.on_get w)]
    refine (Steps.on_bind_ok hfold _).trans ?_
    rw [Steps.on_bind_ok hsift, Steps.on_bind_ok hprune]
    rfl

/-- The engines of a resolution are among those there are, in their order. -/
theorem engines_sublist (h : (ofRequest engines strict phase rooted).on w = (.ok r, w')) :
    r.engines.Sublist engines := by
  obtain ⟨w₁, _, hfold, -, -⟩ := ofRequest_eq_ok_iff.mp h
  have hr : r = (start rooted w).plus _ := addEngines_plus hfold
  rw [hr, Resolution.engines, plus, start, List.nil_append, List.map_map]
  exact engine_finds_sublist engines _ w

/-- **Resolving a request** plants what the engines find and thins it twice. -/
theorem ofRequest_eq_ok (hfresh : ∀ e ∈ engines, e.BuildsFresh)
    (hsuite : ∀ p, rooted.suite? = some p → w.forest.Stands p none [])
    (h : (ofRequest engines strict phase rooted).on w = (.ok r, w')) :
    r = (start rooted w).plus (finds phase strict rooted engines (start rooted w) w) ∧
      ∃ f g, Settled rooted.request.nodeFilters w.forest rooted.suite?
        (finds phase strict rooted engines (start rooted w) w) f w'.forest g := by
  obtain ⟨w₁, w₂, hfold, hsift, hprune⟩ := ofRequest_eq_ok_iff.mp h
  have hp₀ : Planted (κ := κ) w.forest (start (κ := κ) rooted w).suite? w.forest [] :=
    Planted.start hsuite
  have hr := addEngines_plus hfold
  have hp := addEngines_planted hfresh rfl hp₀ hfold
  rw [List.nil_append] at hp
  generalize hxs : finds phase strict rooted engines (start rooted w) w = xs at hp hr
  refine ⟨hr, ?_⟩
  have hroots : r.roots.map Prod.snd = (Find.grove xs).roots := by
    rw [hr, plus, start, List.nil_append, List.map_map, Find.roots_grove]
    rfl
  obtain ⟨filter, hcompose, hthin⟩ := sift_eq_ok hsift
  rw [hroots] at hthin
  obtain ⟨v, g', hv, hg', hholds', hbare', hframe'⟩ :=
    Forest.holds_thinBelow _ hp.suite_apart hp.holds hp.nodup hthin
  have hprune' := prune_eq_ok hprune
  rw [hroots, ← Grove.roots_thinBelow hg'] at hprune'
  have hn' : g'.toList.Nodup := hp.nodup.sublist (Grove.sublist_thinBelow hg')
  obtain ⟨v', g'', hv', hg'', hholds'', hbare'', hframe''⟩ :=
    Forest.holds_thinBelow _ (List.forall_mem_nil _) hholds' hn' hprune'
  have htests : g'.thinBelow v' = g'.thinBelow fun x => .ok (w₁.forest.isTest x) := by
    refine Grove.thinBelow_congr ?_
    intro x hx
    obtain ⟨rest, hpath⟩ := Grove.exists_path [] hx
    obtain ⟨f', ⟨hbare, -⟩, hask⟩ := hv' x rest hpath
    rw [hask]
    exact congrArg Except.ok (Forest.isTest_congr ((hbare x).trans (hbare' x)))
  rw [htests] at hg''
  refine ⟨w₁.forest, g'', hp, ⟨filter, v, g', hcompose, hv, hg', hg''⟩, hholds'',
    fun x => (hbare'' x).trans (hbare' x), ?_⟩
  intro x hx
  have hx' : x ∉ g'.toList := fun h => hx ((Grove.sublist_thinBelow hg').mem h)
  rw [hframe'' x hx', hframe' x hx]

end

end Resolution

end TestLauncher
