import TestLauncher.Proofs.Discovery.Requests
import TestLauncher.Proofs.Forest.Mirror

/-! # Discovering again finds the same

    Resolving a request twice comes to the same plan, or to the same fault, whatever world
    each resolution starts in (`plan_agrees`): engines that build alike wherever they build
    (`Engine.Placeless`), rules that judge alike wherever a node is stored, and a resolver
    with settled answers.  Both resolutions are compared with the one that starts in an empty
    forest; what they do mirrors what that one does. -/

namespace TestLauncher

variable {κ ω ρ : Type}

/-- An engine that discovers the same wherever it stores it and whatever the engines know, among
    nodes of its own. -/
def Engine.Placeless (e : Engine κ) : Prop :=
  ∀ (f₀ : Forest) (n : Nat) (request : DiscoveryRequest) (id : UniqueId),
    Mirrors f₀ Prod.fst Prod.fst n (e.discover request id) (e.discover request id)
      (fun m root? root?' => (∀ r ∈ root?, n ≤ r.index ∧ r.index < m) ∧
        root?' = root?.map (NodeRef.shift f₀.size))

/-- Such an engine leaves everything that was there as it was. -/
theorem Engine.Placeless.leaves {e : Engine κ} (h : e.Placeless) (request : DiscoveryRequest)
    (id : UniqueId) (s : Forest × κ) : s.1.Extends ((e.discover request id).on s).2.1 := by
  obtain ⟨hforest, -⟩ := h s.1 0 request id (∅, s.2) s (Forest.after_empty s.1).symm
    Forest.ordered_empty rfl
  rw [hforest]
  exact Forest.extends_after s.1 _

/-- A resolver with one answer for each of some selectors, whose suites have filters that judge
    alike wherever a node is stored. -/
def SuiteResolver.Settled (resolver : SuiteResolver ρ) (selectors : List Selector) : Prop :=
  ∀ s ∈ selectors, ∃ answer, (∀ st, ((resolver.suitesFor s).on st).1 = answer) ∧
    ∀ ds, answer = .ok ds → ∀ d ∈ ds, ∀ filter ∈ d.nodeFilters, filter.Placeless

/-- The same with so many nodes before. -/
def RootedRequest.shift (n : Nat) (q : RootedRequest) : RootedRequest :=
  { q with suite? := q.suite?.map (NodeRef.shift n) }

/-- The same with so many nodes before. -/
def Resolution.shift (n : Nat) (r : Resolution κ) : Resolution κ :=
  { r with
    suite? := r.suite?.map (NodeRef.shift n)
    roots := r.roots.map fun e => (e.1, e.2.shift n) }

/-- A request with filters that judge alike wherever a node is stored, and perhaps a suite's node
    among the first so many. -/
structure RootedRequest.Fits (n : Nat) (q : RootedRequest) : Prop where
  suite : ∀ p ∈ q.suite?, p.index < n
  filters : ∀ filter ∈ q.request.nodeFilters, filter.Placeless

/-- A resolution with nodes among the first so many. -/
structure Resolution.Fits (n : Nat) (r : Resolution κ) : Prop where
  suite : ∀ p ∈ r.suite?, p.index < n
  roots : ∀ e ∈ r.roots, e.2.index < n

theorem RootedRequest.Fits.mono {q : RootedRequest} {n m : Nat} (h : q.Fits n) (hnm : n ≤ m) :
    q.Fits m :=
  ⟨fun p hp => Nat.lt_of_lt_of_le (h.suite p hp) hnm, h.filters⟩

theorem Resolution.Fits.mono {r : Resolution κ} {n m : Nat} (h : r.Fits n) (hnm : n ≤ m) :
    r.Fits m :=
  ⟨fun p hp => Nat.lt_of_lt_of_le (h.suite p hp) hnm,
    fun e he => Nat.lt_of_lt_of_le (h.roots e he) hnm⟩

theorem Resolution.planRoots_shift (n : Nat) (r : Resolution κ) :
    (r.shift n).planRoots = r.planRoots.map (NodeRef.shift n) := by
  obtain ⟨suite?, identifier?, roots⟩ := r
  cases suite? with
  | none =>
      show (roots.map _).map Prod.snd = (roots.map Prod.snd).map _
      rw [List.map_map, List.map_map]
      rfl
  | some p => rfl

theorem Resolution.shift_snoc (n : Nat) (suite? : Option NodeRef) (identifier? : Option Identifier)
    (roots : List (Engine κ × NodeRef)) (engine : Engine κ) (root : NodeRef) :
    (⟨suite?, identifier?, roots ++ [(engine, root)]⟩ : Resolution κ).shift n
      = ⟨suite?.map (NodeRef.shift n), identifier?,
          (roots.map fun e => (e.1, e.2.shift n)) ++ [(engine, root.shift n)]⟩ := by
  rw [shift, List.map_append]
  rfl

/-- A loop that ends with a value for each element. -/
theorem mirrors_mapM {σ σ' α β : Type} {f₀ : Forest} {look : σ → Forest} {look' : σ' → Forest}
    {n : Nat} {V : Nat → α → Prop} {W : Nat → β → Prop} {φ : α → α} {ψ : β → β} {as : List α}
    {step : α → Steps σ β} {step' : α → Steps σ' β}
    (hV : ∀ a ∈ as, V n a) (hmono : ∀ m k a, m ≤ k → V m a → V k a)
    (hmono' : ∀ m k b, m ≤ k → W m b → W k b)
    (h : ∀ a ∈ as, ∀ m, V m a → Mirrors f₀ look look' m (step a) (step' (φ a))
      (fun k b b' => W k b ∧ b' = ψ b)) :
    Mirrors f₀ look look' n (as.mapM step) ((as.map φ).mapM step')
      (fun k bs bs' => (∀ b ∈ bs, W k b) ∧ bs' = bs.map ψ) := by
  induction as generalizing n with
  | nil => exact mirrors_pure ⟨fun b hb => absurd hb List.not_mem_nil, rfl⟩
  | cons a as ih =>
      rw [List.map_cons, List.mapM_cons, List.mapM_cons]
      refine (h a (by simp) n (hV a (by simp))).bind ?_
      rintro m b b' hnm ⟨hW, rfl⟩
      refine (ih (fun x hx => hmono n m x hnm (hV x (by simp [hx])))
        fun x hx => h x (by simp [hx])).bind ?_
      rintro k bs bs' hmk ⟨hWs, rfl⟩
      refine mirrors_pure ⟨?_, rfl⟩
      intro x hx
      rcases List.mem_cons.mp hx with rfl | hx
      · exact hmono' m k x hmk hW
      · exact hWs x hx

section

variable {κ' ω' ρ' : Type} {f₀ : Forest} {n : Nat}

/-- Runs that mirror each other. -/
abbrev RunsMirror {α β : Type} (f₀ : Forest) (n : Nat) (c : Run κ ω ρ α) (c' : Run κ' ω' ρ' β)
    (R : Nat → α → β → Prop) : Prop :=
  Mirrors f₀ World.forest World.forest n c c' R

/-- Growing the forest of the world. -/
theorem mirrors_onForest {α β : Type} {c : Growing α} {c' : Growing β} {R : Nat → α → β → Prop}
    (h : Mirrors f₀ id id n c c' R) :
    RunsMirror f₀ n (Run.onForest c.first : Run κ ω ρ α) (Run.onForest c'.first : Run κ' ω' ρ' β)
      R :=
  (Forest.mirrors_first h).within (fun _ => rfl) (fun _ => rfl) (fun _ _ => rfl) fun _ _ => rfl

theorem mirrors_log (line line' : LogRecord) :
    RunsMirror f₀ n (Run.log line : Run κ ω ρ Unit) (Run.log line' : Run κ' ω' ρ' Unit)
      (fun m _ _ => m = n) :=
  mirrors_modify (fun _ => rfl) fun _ => rfl

end

namespace Resolution

section

variable {ω' ρ' : Type} {f₀ : Forest} {n : Nat} {phase phase' : Phase} {strict : Bool}
  {engine : Engine κ} {rooted : RootedRequest}

theorem mirrors_contain (deed : String) (e : Fault) :
    RunsMirror f₀ n (contain engine deed e : Run κ ω ρ Unit)
      (contain engine deed e : Run κ ω' ρ' Unit) (fun _ _ _ => True) := by
  refine (mirrors_log _ _).bind ?_
  intro m _ _ _ _
  exact (mirrors_ofExcept (R := fun _ a b => b = a) (endAlike_eq _)).weaken fun _ _ _ _ _ => trivial

/-- What the failure boundary makes of steps that mirror each other. -/
theorem mirrors_guarded {α β : Type} {deed : String} {c : Run κ ω ρ α} {c' : Run κ ω' ρ' β}
    {R : Nat → α → β → Prop} (h : RunsMirror f₀ n c c' R) :
    RunsMirror f₀ n (guarded engine deed c) (guarded engine deed c')
      (fun m => Option.Rel (R m)) := by
  refine h.outcome.bind ?_
  intro m x y _ hxy
  cases hxy with
  | ok hr => exact mirrors_pure (.some hr)
  | error e =>
      show RunsMirror f₀ m
        (if e.isException = true then contain engine deed e >>= fun _ => pure none else throw e)
        (if e.isException = true then contain engine deed e >>= fun _ => pure none else throw e) _
      by_cases he : e.isException = true
      · rw [if_pos he, if_pos he]
        exact (mirrors_contain deed e).bind fun k _ _ _ _ => mirrors_pure .none
      · rw [if_neg he, if_neg he]
        exact mirrors_throw e

/-- The id of a suite's node is read off wherever it is stored. -/
theorem suiteId_after (f₀ g : Forest) (rooted : RootedRequest) :
    ((rooted.shift f₀.size).suite?.bind (f₀.after g).node?).map Node.id
      = (rooted.suite?.bind g.node?).map Node.id := by
  rw [RootedRequest.shift]
  cases rooted.suite? with
  | none => rfl
  | some p =>
      show ((f₀.after g).node? (p.shift f₀.size)).map Node.id = (g.node? p).map Node.id
      rw [Forest.node?_after, Option.map_map]
      rfl

/-- An engine's root is new. -/
theorem mirrors_discoverRoot (hengine : engine.Placeless) :
    RunsMirror f₀ n (discoverRoot strict engine rooted : Run κ ω ρ (Option NodeRef))
      (discoverRoot strict engine (rooted.shift f₀.size) : Run κ ω' ρ' (Option NodeRef))
      (fun m root? root?' => (∀ r ∈ root?, n ≤ r.index ∧ r.index < m) ∧
        root?' = root?.map (NodeRef.shift f₀.size)) := by
  refine mirrors_get.bind ?_
  rintro m w w' _ ⟨rfl, hw, ho, hn⟩
  rw [hw]
  dsimp only
  rw [suiteId_after f₀ w.forest rooted]
  refine (mirrors_ofExcept (R := fun _ a b => b = a) (endAlike_eq _)).bind ?_
  intro k id id' hmk hid
  subst hid
  -- the engine sees the forest behind more nodes, and is asked for the same id
  have hdiscover : RunsMirror f₀ k
      (Run.byEngine (engine.discover rooted.request id') : Run κ ω ρ (Option NodeRef))
      (Run.byEngine (engine.discover rooted.request id') : Run κ ω' ρ' (Option NodeRef)) _ :=
    (hengine f₀ k rooted.request id').within (fun _ => rfl) (fun _ => rfl) (fun _ _ => rfl)
      fun _ _ => rfl
  refine (mirrors_guarded hdiscover).bind ?_
  intro j x y hkj hxy
  cases hxy with
  | none => exact mirrors_pure ⟨fun r hr => (by cases hr), rfl⟩
  | some hr =>
      rename_i root? root?'
      obtain ⟨hroot, rfl⟩ := hr
      cases root? with
      | some root =>
          refine mirrors_pure ⟨?_, rfl⟩
          intro r hr
          obtain ⟨hle, hlt⟩ := hroot r hr
          exact ⟨Nat.le_trans hmk hle, hlt⟩
      | none =>
          show RunsMirror f₀ j
            (if strict = true then throw (Fault.missingRoot engine.id) else _)
            (if strict = true then throw (Fault.missingRoot engine.id) else _) _
          cases strict with
          | true => exact mirrors_throw _
          | false =>
              exact (mirrors_log _ _).bind fun i _ _ _ _ =>
                mirrors_pure ⟨fun r hr => (by cases hr), rfl⟩

/-- One more engine. -/
theorem mirrors_addEngine (hengine : engine.Placeless) {r : Resolution κ} (hr : r.Fits n) :
    RunsMirror f₀ n (addEngine phase strict rooted r engine : Run κ ω ρ (Resolution κ))
      (addEngine phase' strict (rooted.shift f₀.size) (r.shift f₀.size) engine :
        Run κ ω' ρ' (Resolution κ))
      (fun m r r' => r.Fits m ∧ r' = r.shift f₀.size) := by
  refine (mirrors_ofExcept (R := fun _ a b => b = a) (endAlike_eq _)).bind ?_
  intro m _ excluded hnm he
  subst he
  have hr' := hr.mono hnm
  cases excluded with
  | true => exact (mirrors_log _ _).bind fun k _ _ hmk _ => mirrors_pure ⟨hr'.mono hmk, rfl⟩
  | false =>
      refine (mirrors_log _ _).bind ?_
      intro k _ _ hmk _
      refine (mirrors_discoverRoot hengine).bind ?_
      rintro j root? root?' hkj ⟨hfresh, rfl⟩
      have hrj := (hr'.mono hmk).mono hkj
      cases root? with
      | none => exact mirrors_pure ⟨hrj, rfl⟩
      | some root =>
          obtain ⟨hle, hlt⟩ := hfresh root rfl
          -- the new root is among the nodes there are now
          have hadded : ∀ i, j ≤ i →
              ({ r with roots := r.roots ++ [(engine, root)] } : Resolution κ).Fits i := by
            intro i hji
            refine ⟨fun p hp => Nat.lt_of_lt_of_le (hrj.suite p hp) hji, ?_⟩
            intro e he
            rcases List.mem_append.mp he with he | he
            · exact Nat.lt_of_lt_of_le (hrj.roots e he) hji
            · rw [List.mem_singleton.mp he]
              exact Nat.lt_of_lt_of_le hlt hji
          show RunsMirror f₀ j (addRoot r engine root)
            (addRoot (r.shift f₀.size) engine (root.shift f₀.size)) _
          rw [addRoot, addRoot]
          have hsuite : (r.shift f₀.size).suite? = r.suite?.map (NodeRef.shift f₀.size) := rfl
          rw [hsuite]
          cases hs : r.suite? with
          | none =>
              rw [hs] at hadded
              exact mirrors_pure ⟨hadded j (Nat.le_refl j), (shift_snoc ..).symm⟩
          | some p =>
              rw [hs] at hadded
              have hpn : p.index < k := (hr'.mono hmk).suite p hs
              have hattach : RunsMirror f₀ j
                  (Run.onForest (Forest.attach p root).first : Run κ ω ρ Unit)
                  (Run.onForest (Forest.attach (p.shift f₀.size) (root.shift f₀.size)).first :
                    Run κ ω' ρ' Unit) (fun m _ _ => m = j) := by
                exact mirrors_onForest (Forest.mirrors_attach (Nat.lt_of_lt_of_le hpn hle) hlt)
              exact hattach.bind fun i _ _ hji _ =>
                mirrors_pure ⟨hadded i hji, (shift_snoc ..).symm⟩

/-- Thinning the trees of a resolution. -/
theorem mirrors_thin {ask : Forest.Question} (hask : ask.Placeless)
    {c c' : Engine κ × NodeRef → Steps (Forest × Journal) Unit}
    (hc : ∀ e, Forest.Follows (c e) (Forest.thinBelow ask e.2))
    (hc' : ∀ e, Forest.Follows (c' e) (Forest.thinBelow ask e.2)) {r : Resolution κ}
    (hr : r.Fits n) :
    RunsMirror f₀ n (r.roots.forM fun e => Run.onForest (c e) : Run κ ω ρ Unit)
      ((r.shift f₀.size).roots.forM fun e => Run.onForest (c' e) : Run κ ω' ρ' Unit)
      (fun m _ _ => m = n) := by
  have hroots : (r.shift f₀.size).roots.map Prod.snd
      = (r.roots.map Prod.snd).map (NodeRef.shift f₀.size) := by
    show (r.roots.map _).map Prod.snd = _
    rw [List.map_map, List.map_map]
    rfl
  have hloop : Mirrors f₀ id id n ((r.roots.map Prod.snd).forM (Forest.thinBelow ask))
      (((r.roots.map Prod.snd).map (NodeRef.shift f₀.size)).forM (Forest.thinBelow ask))
      (fun m _ _ => m = n) := by
    refine mirrors_forM (P := fun m => m = n) rfl ?_
    intro root hroot m _ hm
    obtain ⟨e, he, rfl⟩ := List.mem_map.mp hroot
    subst hm
    exact Forest.mirrors_thinBelow hask (hr.roots e he)
  intro w w' hw ho hn
  obtain ⟨j, hon⟩ := on_forM_onForest hc r.roots w
  obtain ⟨j', hon'⟩ := on_forM_onForest hc' (r.shift f₀.size).roots w'
  rw [hroots] at hon'
  rw [hon, hon']
  exact hloop w.forest w'.forest hw ho hn

theorem mirrors_sift {filters : List NodeFilter} (hfilters : ∀ filter ∈ filters, filter.Placeless)
    {r : Resolution κ} (hr : r.Fits n) :
    RunsMirror f₀ n (sift filters r : Run κ ω ρ Unit)
      (sift filters (r.shift f₀.size) : Run κ ω' ρ' Unit) (fun m _ _ => m = n) := by
  rw [sift, sift]
  cases hcompose : Filter.compose (filters.map some) with
  | error e => exact mirrors_throw e
  | ok filter =>
      have hfilter : NodeFilter.Placeless filter := by
        intro rule hrule
        obtain ⟨part, hpart, hleaf⟩ := Filter.mem_leaves_compose hcompose hrule
        exact hfilters part hpart rule hleaf
      exact mirrors_thin (NodeFilter.placeless_includes hfilter)
        (fun e => Forest.sift_follows filter e.2) (fun e => Forest.sift_follows filter e.2) hr

theorem mirrors_prune {r : Resolution κ} (hr : r.Fits n) :
    RunsMirror f₀ n (prune r : Run κ ω ρ Unit)
      (prune (r.shift f₀.size) : Run κ ω' ρ' Unit) (fun m _ _ => m = n) := by
  have hfollows : ∀ e : Engine κ × NodeRef, Forest.Follows (Forest.prune e.2).first
      (Forest.thinBelow (fun f r => .ok (f.isTest r)) e.2) := fun e => prune_follows e.2
  exact mirrors_thin Forest.placeless_isTest hfollows hfollows hr

/-- A whole request. -/
theorem mirrors_ofRequest {engines : List (Engine κ)} (hengines : ∀ e ∈ engines, e.Placeless)
    (hq : rooted.Fits n) :
    RunsMirror f₀ n (ofRequest engines strict phase rooted : Run κ ω ρ (Resolution κ))
      (ofRequest engines strict phase' (rooted.shift f₀.size) : Run κ ω' ρ' (Resolution κ))
      (fun m r r' => r.Fits m ∧ r' = r.shift f₀.size) := by
  refine mirrors_get.bind ?_
  rintro m w w' _ ⟨rfl, hw, ho, hn⟩
  -- the identifier of the suite does not say where its node is stored
  have hid : (rooted.shift f₀.size).suite?.bind w'.forest.identifier?
      = rooted.suite?.bind w.forest.identifier? := by
    rw [hw, RootedRequest.shift]
    cases rooted.suite? with
    | none => rfl
    | some p => exact Forest.identifier?_after f₀ w.forest p
  have hstart : ({ suite? := (rooted.shift f₀.size).suite?
                   suiteIdentifier? := (rooted.shift f₀.size).suite?.bind w'.forest.identifier? } :
        Resolution κ)
      = ({ suite? := rooted.suite?
           suiteIdentifier? := rooted.suite?.bind w.forest.identifier? } : Resolution κ).shift
          f₀.size := by
    rw [hid]
    rfl
  have hfits : ({ suite? := rooted.suite?
                  suiteIdentifier? := rooted.suite?.bind w.forest.identifier? } :
      Resolution κ).Fits m := ⟨hq.suite, fun e he => absurd he List.not_mem_nil⟩
  dsimp only
  rw [hstart]
  refine (mirrors_foldlM (R := fun m r r' => r.Fits m ∧ r' = r.shift f₀.size) ⟨hfits, rfl⟩
    ?_).bind ?_
  · rintro e he k r r' _ ⟨hr, rfl⟩
    exact mirrors_addEngine (hengines e he) hr
  · rintro k r r' _ ⟨hr, rfl⟩
    refine (mirrors_sift hq.filters hr).bind ?_
    intro j _ _ hkj hj
    subst hj
    refine (mirrors_prune hr).bind ?_
    intro i _ _ _ hi
    subst hi
    exact mirrors_pure ⟨hr, rfl⟩

/-- The plan for resolutions. -/
theorem mirrors_assemble {rs : List (Resolution κ)} (hrs : ∀ r ∈ rs, r.Fits n) :
    RunsMirror f₀ n (assemble rs : Run κ ω ρ TestPlan)
      (assemble (rs.map (shift f₀.size)) : Run κ ω' ρ' TestPlan) (fun _ p p' => p' = p) := by
  refine mirrors_get.bind ?_
  rintro m w w' _ ⟨rfl, hw, ho, hn⟩
  have hroots : allRoots (rs.map (shift f₀.size)) = (allRoots rs).map (NodeRef.shift f₀.size) := by
    rw [allRoots, allRoots, List.flatMap_map, List.map_flatMap]
    exact List.flatMap_congr fun r _ => planRoots_shift f₀.size r
  have hlt : ∀ p ∈ allRoots rs, p.index < w.forest.size := by
    intro p hp
    rw [hn]
    obtain ⟨r, hr, hpr⟩ := List.mem_flatMap.mp hp
    rw [planRoots] at hpr
    cases hs : r.suite? with
    | none =>
        rw [hs] at hpr
        obtain ⟨e, he, rfl⟩ := List.mem_map.mp hpr
        exact (hrs r hr).roots e he
    | some q =>
        rw [hs] at hpr
        rw [List.mem_singleton.mp hpr]
        exact (hrs r hr).suite q hs
  rw [hw, hroots, TestPlan.ofRoots_after f₀ ho hlt]
  exact mirrors_ofExcept (R := fun _ p p' => p' = p) (endAlike_eq _)

end

end Resolution

/-! ## Suites -/

namespace Expansion

/-- The same with so many nodes before. -/
def Expanded.shift (n : Nat) (done : Expanded) : Expanded :=
  { done with rooted := done.rooted.map (RootedRequest.shift n) }

section

variable {ω' ρ' : Type} {f₀ : Forest} {n : Nat} {request : DiscoveryRequest} {done : Expanded}

/-- The node of a suite is new. -/
theorem mirrors_expand {d : SuiteDeclaration}
    (hrequest : ∀ filter ∈ request.nodeFilters, filter.Placeless)
    (hd : ∀ filter ∈ d.nodeFilters, filter.Placeless) :
    RunsMirror f₀ n (expand request d : Run κ ω ρ RootedRequest)
      (expand request d : Run κ ω' ρ' RootedRequest)
      (fun m q q' => q.Fits m ∧ q' = q.shift f₀.size) := by
  refine (mirrors_log _ _).bind ?_
  intro m _ _ _ _
  have hnode : ∀ x, d.node = .ok x → x.parent = none ∧ x.children = ∅ := by
    intro x hx
    obtain ⟨hbare, hparent, -, -⟩ := SuiteDeclaration.node_eq_ok hx
    refine ⟨hparent, ?_⟩
    rw [← hbare]
    rfl
  have hplant : RunsMirror f₀ m (Run.onForest (Forest.plant d.node).first : Run κ ω ρ NodeRef)
      (Run.onForest (Forest.plant d.node).first : Run κ ω' ρ' NodeRef) _ :=
    mirrors_onForest (Forest.mirrors_plant hnode)
  refine hplant.bind ?_
  rintro k p p' _ ⟨hk, hpm, rfl⟩
  refine mirrors_pure ⟨⟨?_, ?_⟩, rfl⟩
  · intro r hr
    cases hr
    omega
  · intro filter hfilter
    rcases List.mem_append.mp hfilter with h | h
    · exact hrequest filter h
    · exact hd filter h

/-- One suite. -/
theorem mirrors_addSuite {d : SuiteDeclaration}
    (hrequest : ∀ filter ∈ request.nodeFilters, filter.Placeless)
    (hd : ∀ filter ∈ d.nodeFilters, filter.Placeless) (hdone : ∀ q ∈ done.rooted, q.Fits n) :
    RunsMirror f₀ n (addSuite request done d : Run κ ω ρ Expanded)
      (addSuite request (done.shift f₀.size) d : Run κ ω' ρ' Expanded)
      (fun m x x' => (∀ q ∈ x.rooted, q.Fits m) ∧ x' = x.shift f₀.size) := by
  have hnames : (done.shift f₀.size).names = done.names := rfl
  rw [addSuite, addSuite, hnames]
  by_cases h : d.name ∈ done.names
  · rw [if_pos h, if_pos h]
    exact mirrors_pure ⟨hdone, rfl⟩
  · rw [if_neg h, if_neg h]
    refine (mirrors_expand hrequest hd).bind ?_
    rintro m q q' hnm ⟨hfits, rfl⟩
    refine mirrors_pure ⟨?_, ?_⟩
    · intro x hx
      rcases List.mem_append.mp hx with hx | hx
      · exact (hdone x hx).mono hnm
      · rw [List.mem_singleton.mp hx]
        exact hfits
    · rw [Expanded.shift, Expanded.shift, List.map_append]
      rfl

/-- The suites that a selector reaches. -/
theorem mirrors_addReached {resolver : SuiteResolver ρ} {s : Selector}
    (hrequest : ∀ filter ∈ request.nodeFilters, filter.Placeless)
    (hs : ∃ answer, (∀ st, ((resolver.suitesFor s).on st).1 = answer) ∧
      ∀ ds, answer = .ok ds → ∀ d ∈ ds, ∀ filter ∈ d.nodeFilters, filter.Placeless)
    (hdone : ∀ q ∈ done.rooted, q.Fits n) :
    RunsMirror f₀ n (addReached resolver request done s : Run κ ω ρ Expanded)
      (addReached resolver request (done.shift f₀.size) s : Run κ ω ρ Expanded)
      (fun m x x' => (∀ q ∈ x.rooted, q.Fits m) ∧ x' = x.shift f₀.size) := by
  obtain ⟨answer, hanswer, hfilters⟩ := hs
  have hask : RunsMirror f₀ n
      (Run.byResolver (resolver.suitesFor s) : Run κ ω ρ (List SuiteDeclaration))
      (Run.byResolver (resolver.suitesFor s) : Run κ ω ρ (List SuiteDeclaration))
      (fun m ds ds' => m = n ∧ ds' = ds ∧
        ∀ d ∈ ds, ∀ filter ∈ d.nodeFilters, filter.Placeless) := by
    intro w w' hw ho hn
    rw [Run.byResolver, Steps.on_within, Steps.on_within]
    refine ⟨hw, ho, Nat.le_of_eq hn.symm, ?_⟩
    simp only [hanswer]
    cases answer with
    | error e => exact .error e
    | ok ds => exact .ok ⟨hn, rfl, hfilters ds rfl⟩
  refine hask.bind ?_
  rintro m ds ds' _ ⟨rfl, rfl, hd⟩
  refine mirrors_foldlM
    (R := fun m (x x' : Expanded) => (∀ q ∈ x.rooted, q.Fits m) ∧ x' = x.shift f₀.size)
    ⟨hdone, rfl⟩ ?_
  rintro d hmem k x x' _ ⟨hfits, rfl⟩
  exact mirrors_addSuite hrequest (hd d hmem) hfits

/-- The requests of all suites. -/
theorem mirrors_ofRequest {resolver? : Option (SuiteResolver ρ)}
    (hrequest : ∀ filter ∈ request.nodeFilters, filter.Placeless)
    (hresolver : ∀ resolver ∈ resolver?, resolver.Settled request.selectors) :
    RunsMirror f₀ n (ofRequest resolver? request : Run κ ω ρ (List RootedRequest))
      (ofRequest resolver? request : Run κ ω ρ (List RootedRequest))
      (fun m qs qs' => (∀ q ∈ qs, q.Fits m) ∧ qs' = qs.map (RootedRequest.shift f₀.size)) := by
  cases resolver? with
  | none => exact mirrors_pure ⟨fun q hq => absurd hq List.not_mem_nil, rfl⟩
  | some resolver =>
      refine (mirrors_foldlM
        (R := fun m (x x' : Expanded) => (∀ q ∈ x.rooted, q.Fits m) ∧ x' = x.shift f₀.size)
        ⟨fun q hq => absurd hq List.not_mem_nil, rfl⟩ ?_).bind ?_
      · rintro s hs k x x' _ ⟨hfits, rfl⟩
        exact mirrors_addReached hrequest (hresolver resolver rfl s hs) hfits
      · rintro m x x' _ ⟨hfits, rfl⟩
        exact mirrors_pure ⟨hfits, rfl⟩

end

end Expansion

/-! ## Whole calls -/

namespace Launcher

/-- What a launcher must be made of to find the same again. -/
structure Placeless (l : Launcher κ ω ρ) (request : DiscoveryRequest) : Prop where
  engines : ∀ e ∈ l.engines, e.Placeless
  filters : ∀ filter ∈ request.nodeFilters, filter.Placeless
  resolver : ∀ resolver ∈ l.resolver?, resolver.Settled request.selectors

variable {l : Launcher κ ω ρ} {request : DiscoveryRequest}

theorem mirrors_planFor (h : l.Placeless request) (phase phase' : Phase) (f₀ : Forest) (n : Nat) :
    RunsMirror f₀ n (l.planFor phase request) (l.planFor phase' request)
      (fun _ p p' => p' = p) := by
  have hresolve : RunsMirror f₀ n (l.resolve phase request) (l.resolve phase' request)
      (fun m rs rs' => (∀ r ∈ rs, r.Fits m) ∧ rs' = rs.map (Resolution.shift f₀.size)) := by
    refine (Expansion.mirrors_ofRequest h.filters h.resolver).bind ?_
    rintro m qs qs' _ ⟨hfits, rfl⟩
    have hall : ∀ q ∈ (⟨request, none⟩ : RootedRequest) :: qs, q.Fits m := by
      intro q hq
      rcases List.mem_cons.mp hq with rfl | hq
      · exact ⟨fun p hp => (by cases hp), h.filters⟩
      · exact hfits q hq
    exact mirrors_mapM (V := fun m (q : RootedRequest) => q.Fits m)
      (W := fun m (r : Resolution κ) => r.Fits m) hall
      (fun _ _ _ hle hq => hq.mono hle) (fun _ _ _ hle hr => hr.mono hle)
      fun q _ k hq => Resolution.mirrors_ofRequest h.engines hq
  refine hresolve.bind ?_
  rintro m rs rs' _ ⟨hfits, rfl⟩
  exact Resolution.mirrors_assemble hfits

/-- **Discovering again finds the same.**  A request comes to the same plan or to the same fault in
    both phases and in all worlds. -/
theorem plan_agrees (h : l.Placeless request) (phase phase' : Phase) (w w' : World κ ω ρ) :
    ((l.planFor phase request).on w).1 = ((l.planFor phase' request).on w').1 := by
  have hempty : ∀ (phase : Phase) (w : World κ ω ρ), ((l.planFor phase request).on w).1
      = ((l.planFor .discovery request).on { w' with forest := ∅ }).1 := by
    intro phase w
    have hw : w.forest = w.forest.after (∅ : Forest) := (Forest.after_empty w.forest).symm
    obtain ⟨-, -, -, hend⟩ := mirrors_planFor h .discovery phase w.forest 0
      { w' with forest := ∅ } w hw Forest.ordered_empty rfl
    generalize ((l.planFor phase request).on w).1 = x at hend
    generalize ((l.planFor .discovery request).on { w' with forest := ∅ }).1 = y at hend
    cases hend with
    | ok hp => rw [hp]
    | error e => rfl
  rw [hempty phase w, hempty phase' w']

end Launcher

end TestLauncher
