import TestLauncher.Proofs.Discovery.Requests
import TestLauncher.Proofs.Filter.Lineage
import TestLauncher.Proofs.Forest.Rerooting

/-! # When a request is resolved

    Calling an engine ends resolving when the engine cannot be given an id, when it fails with
    a fault that escapes the failure boundary, and when contracts are strict and it returns no
    root (`answer`).  A request without a suite is resolved when no engine ends it so
    (`Proceeds`) and its filters do not fail (`ofRequest_ok`). -/

namespace TestLauncher

/-- A filter whose rules do not fail. -/
def NodeFilter.Unfailing (filter : NodeFilter) : Prop :=
  ∀ rule ∈ filter.leaves, ∀ f r, ∃ v, rule.judge f r = .ok v

/-- The rules of this library do not fail. -/
theorem NodeFilter.Standard.unfailing {filter : NodeFilter} (h : filter.Standard) :
    filter.Unfailing :=
  fun rule hrule f r => rule.judge_ok f r fun custom hc => h custom (hc ▸ hrule)

theorem NodeFilter.Unfailing.includes_ok {filter : NodeFilter} (h : filter.Unfailing) (f : Forest)
    (r : NodeRef) : ∃ stay, Forest.includes filter f r = .ok stay := by
  obtain ⟨v, hv⟩ := Filter.apply_ok filter fun rule hrule => h rule hrule f r
  exact ⟨v.included, by rw [Forest.includes, NodeFilter.verdict, hv]; rfl⟩

namespace Resolution

variable {κ ω ρ : Type} {strict : Bool} {phase : Phase} {rooted : RootedRequest}
  {engine : Engine κ} {engines : List (Engine κ)} {r r' : Resolution κ} {w w' : World κ ω ρ}

/-! ## One engine -/

/-- What calling an engine ends with. -/
def answer (strict : Bool) (rooted : RootedRequest) (w : World κ ω ρ) (engine : Engine κ) :
    Except Fault (Option NodeRef) := do
  let id ← rootId ((rooted.suite?.bind w.forest.node?).map Node.id) engine.id
  match ← held ((engine.discover rooted.request id).on (w.forest, w.engines)).1 with
  | none => return none
  | some (some root) => return some root
  | some none => if strict then throw (.missingRoot engine.id) else return none

theorem fst_discoverRoot :
    ((discoverRoot strict engine rooted).on w).1 = answer strict rooted w engine := by
  rw [discoverRoot, Steps.on_bind_ok (Steps.on_get w), answer]
  dsimp only
  cases rootId ((rooted.suite?.bind w.forest.node?).map Node.id) engine.id with
  | error e => rw [Steps.on_bind_error (Steps.on_ofExcept _ w)]; rfl
  | ok id =>
      rw [Steps.on_bind_ok (Steps.on_ofExcept _ w)]
      rcases hg : (guarded engine "discover" (Run.byEngine (engine.discover rooted.request id))).on w
        with ⟨result, w₁⟩
      have hheld : result
          = held ((engine.discover rooted.request id).on (w.forest, w.engines)).1 := by
        have hfst := congrArg Prod.fst hg
        rw [on_guarded, guarded_fst] at hfst
        exact hfst.symm
      subst hheld
      show _ = held ((engine.discover rooted.request id).on (w.forest, w.engines)).1 >>= _
      cases hh : held ((engine.discover rooted.request id).on (w.forest, w.engines)).1 with
      | error e =>
          rw [hh] at hg
          rw [Steps.on_bind_error hg]
          rfl
      | ok found =>
          rw [hh] at hg
          rw [Steps.on_bind_ok hg]
          rcases found with _ | _ | root
          · rfl
          · cases strict <;> rfl
          · rfl

/-- No fault comes of taking an engine in: a filter excludes it, or calling it ends well. -/
def Proceeds (strict : Bool) (rooted : RootedRequest) (w : World κ ω ρ) (engine : Engine κ) :
    Prop :=
  ∃ excluded, excludes rooted.request.engineFilters engine.id = .ok excluded ∧
    (excluded = false → ∃ root?, answer strict rooted w engine = .ok root?)

theorem proceeds_of_addEngine (h : (addEngine phase strict rooted r engine).on w = (.ok r', w')) :
    Proceeds strict rooted w engine := by
  obtain ⟨excluded, w₁, hex, h⟩ := Steps.on_bind_eq_ok h
  rw [Steps.on_ofExcept] at hex
  injection hex with hex hw₁
  subst hw₁
  refine ⟨excluded, hex, ?_⟩
  intro hasked
  subst hasked
  obtain ⟨u, w₂, hlog, h⟩ := Steps.on_bind_eq_ok h
  cases hlog
  obtain ⟨root?, w₃, hroot, -⟩ := Steps.on_bind_eq_ok h
  have hanswer := congrArg Prod.fst hroot
  rw [fst_discoverRoot] at hanswer
  exact ⟨root?, hanswer⟩

/-- Without a suite the root has nowhere to go, so that nothing else can fail. -/
theorem addEngine_ok (hsuite : r.suite? = none)
    (h : ∀ w : World κ ω ρ, Proceeds strict rooted w engine) :
    ∃ r' w', (addEngine phase strict rooted r engine).on w = (.ok r', w') := by
  obtain ⟨excluded, hex, -⟩ := h w
  cases excluded with
  | true =>
      rw [addEngine, hex, Steps.on_bind_ok (Steps.on_ofExcept _ w), if_pos rfl,
        Steps.on_bind_ok (on_log _)]
      exact ⟨r, _, rfl⟩
  | false =>
      rw [addEngine, hex, Steps.on_bind_ok (Steps.on_ofExcept _ w), if_neg Bool.false_ne_true,
        Steps.on_bind_ok (on_log _)]
      generalize { w with journal := w.journal.write _ } = w₁
      obtain ⟨excluded, hex₁, hanswer⟩ := h w₁
      rw [hex] at hex₁
      cases hex₁
      obtain ⟨root?, hroot⟩ := hanswer rfl
      rw [← fst_discoverRoot] at hroot
      rcases hd : (discoverRoot strict engine rooted).on w₁ with ⟨result, w₂⟩
      rw [hd] at hroot
      cases hroot
      rw [Steps.on_bind_ok hd]
      cases root? with
      | none => exact ⟨r, w₂, rfl⟩
      | some root =>
          refine ⟨{ r with roots := r.roots ++ [(engine, root)] }, w₂, ?_⟩
          show (addRoot r engine root).on w₂ = _
          rw [addRoot, hsuite]
          rfl

/-! ## A whole request -/

theorem addEngines_ok (hsuite : r.suite? = none)
    (h : ∀ engine ∈ engines, ∀ w : World κ ω ρ, Proceeds strict rooted w engine) :
    ∃ r' w', (engines.foldlM (addEngine phase strict rooted) r).on w = (.ok r', w') := by
  induction engines generalizing r w with
  | nil => exact ⟨r, w, rfl⟩
  | cons e es ih =>
      obtain ⟨r₁, w₁, h₁⟩ : ∃ r₁ w₁, (addEngine phase strict rooted r e).on w = (.ok r₁, w₁) :=
        addEngine_ok hsuite (h e (by simp))
      have hsuite₁ : r₁.suite? = none := by rw [addEngine_plus h₁, plus, hsuite]
      obtain ⟨r₂, w₂, h₂⟩ := ih hsuite₁ fun e' he' => h e' (by simp [he'])
      exact ⟨r₂, w₂, by rw [List.foldlM_cons, Steps.on_bind_ok h₁, h₂]⟩

/-- Thinning the trees of a resolution comes to an end when every question is answered. -/
theorem thin_ok {ask : Forest.Question} (hask : ∀ f r, ∃ stay, ask f r = .ok stay)
    {c : Engine κ × NodeRef → Steps (Forest × Journal) Unit}
    (hc : ∀ e, Forest.Follows (c e) (Forest.thinBelow ask e.2)) {g : Grove NodeRef}
    {pp : Option NodeRef} (hg : w.forest.Holds pp g) (hn : g.toList.Nodup)
    (hroots : r.roots.map Prod.snd = g.roots) :
    ∃ w', (r.roots.forM fun e => Run.onForest (c e) : Run κ ω ρ Unit).on w = (.ok (), w') := by
  obtain ⟨j, hon⟩ := on_forM_onForest hc r.roots w
  obtain ⟨f', hthin⟩ := Forest.forM_thinBelow_ok hask g hg hn
  rw [hroots, hthin] at hon
  exact ⟨_, hon⟩

theorem compose_unfailing {filters : List NodeFilter} {filter : NodeFilter}
    (h : ∀ part ∈ filters, part.Unfailing) (hcompose : Filter.compose (filters.map some) = .ok filter) :
    NodeFilter.Unfailing filter := by
  intro rule hrule
  obtain ⟨part, hpart, hleaf⟩ := Filter.mem_leaves_compose hcompose hrule
  exact h part hpart rule hleaf

/-- A request whose engines have all been taken in is resolved when its filters do not fail. -/
theorem ofRequest_ok_of_planted {xs : List (Find κ)}
    (hfilters : ∀ filter ∈ rooted.request.nodeFilters, filter.Unfailing)
    (hfold : (engines.foldlM (addEngine phase strict rooted) (start rooted w)).on w = (.ok r, w'))
    (hp : Planted w.forest rooted.suite? w'.forest xs) (hr : r = (start rooted w).plus xs) :
    ∃ w'', (ofRequest engines strict phase rooted).on w = (.ok r, w'') := by
  have hroots : r.roots.map Prod.snd = (Find.grove xs).roots := by
    rw [hr, plus, start, List.nil_append, List.map_map, Find.roots_grove]
    rfl
  -- sifting ends, and what it leaves can be pruned
  obtain ⟨filter, hcompose⟩ : ∃ filter,
      Filter.compose (rooted.request.nodeFilters.map some) = .ok filter :=
    ⟨_, Filter.compose_some _⟩
  have hunfailing := compose_unfailing hfilters hcompose
  obtain ⟨w₂, hthin⟩ := thin_ok hunfailing.includes_ok (c := fun e => Forest.sift filter e.2)
    (fun e => Forest.sift_follows filter e.2) hp.holds hp.nodup hroots
  have hsift : (sift rooted.request.nodeFilters r).on w' = (.ok (), w₂) := by
    rw [sift, hcompose]
    exact hthin
  obtain ⟨filter', hcompose', hthin'⟩ := sift_eq_ok hsift
  rw [hroots] at hthin'
  obtain ⟨v, g', -, hg', hholds, -, -⟩ :=
    Forest.holds_thinBelow _ (List.forall_mem_nil _) hp.holds hp.nodup hthin'
  have hn' : g'.toList.Nodup := hp.nodup.sublist (Grove.sublist_thinBelow hg')
  rw [← Grove.roots_thinBelow hg'] at hroots
  obtain ⟨w₃, hprune⟩ : ∃ w₃, (prune r).on w₂ = (.ok (), w₃) :=
    thin_ok (fun _ _ => ⟨_, rfl⟩) (fun e => prune_follows e.2) hholds hn' hroots
  exact ⟨w₃, ofRequest_eq_ok_iff.mpr ⟨w', w₂, hfold, hsift, hprune⟩⟩

/-- **A request without a suite is resolved** when no engine ends it and its filters do not fail. -/
theorem ofRequest_ok (hfresh : ∀ e ∈ engines, e.BuildsFresh) (hsuite : rooted.suite? = none)
    (hengines : ∀ e ∈ engines, ∀ w : World κ ω ρ, Proceeds strict rooted w e)
    (hfilters : ∀ filter ∈ rooted.request.nodeFilters, filter.Unfailing) :
    ∃ r w', (ofRequest engines strict phase rooted).on w = (.ok r, w') := by
  have hnone : (start (κ := κ) rooted w).suite? = none := hsuite
  obtain ⟨r, w₁, hfold⟩ : ∃ r w₁,
      (engines.foldlM (addEngine phase strict rooted) (start rooted w)).on w = (.ok r, w₁) :=
    addEngines_ok hnone hengines
  have hp₀ : Planted (κ := κ) w.forest (start (κ := κ) rooted w).suite? w.forest [] :=
    Planted.start fun p hp => by rw [hnone] at hp; cases hp
  have hp := addEngines_planted hfresh rfl hp₀ hfold
  rw [List.nil_append] at hp
  obtain ⟨w', h⟩ := ofRequest_ok_of_planted hfilters hfold hp (addEngines_plus hfold)
  exact ⟨r, w', h⟩

end Resolution

namespace Launcher

variable {κ ω ρ : Type} {l : Launcher κ ω ρ} {phase : Phase} {request : DiscoveryRequest}
  {w w' : World κ ω ρ}

/-- A launcher without a resolver resolves the request alone. -/
theorem resolve_ok (hresolver : l.resolver? = none) (hfresh : ∀ e ∈ l.engines, e.BuildsFresh)
    (hengines : ∀ e ∈ l.engines, ∀ w : World κ ω ρ,
      Resolution.Proceeds l.strict ⟨request, none⟩ w e)
    (hfilters : ∀ filter ∈ request.nodeFilters, filter.Unfailing) :
    ∃ r w', (Resolution.ofRequest l.engines l.strict phase ⟨request, none⟩).on w = (.ok r, w') ∧
      (l.resolve phase request).on w = (.ok [r], w') := by
  obtain ⟨r, w', h⟩ : ∃ r w',
      (Resolution.ofRequest l.engines l.strict phase ⟨request, none⟩).on w = (.ok r, w') :=
    Resolution.ofRequest_ok hfresh rfl hengines hfilters
  refine ⟨r, w', h, ?_⟩
  have hexpand : (Expansion.ofRequest l.resolver? request).on w = (.ok [], w) := by
    rw [hresolver]
    rfl
  rw [resolve, Steps.on_bind_ok hexpand, List.mapM_cons, Steps.on_bind_ok h]
  rfl

end Launcher

end TestLauncher
