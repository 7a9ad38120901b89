import Mathlib.Data.List.Flatten
import TestLauncher.Proofs.Discovery.Listing

/-! # Filters only remove

    Excluding a node may leave its parent without children, so that the parent is judged in
    its turn: what one filter takes away is not seen from that filter.  But the list of a
    plan is made of survivors of what engines sketch, and there a filter more is a test
    more to pass (`Find.survives_of_subset`).  So a request that narrows another one, with
    all its filters and maybe others, has a part of its plan (`discover_partOf`), and
    requests that narrow each other have one plan.  Where the filters stand does not
    matter. -/

namespace TestLauncher

/-! ## Requests -/

/-- A request that selects what another one does, through all filters of that one. -/
structure DiscoveryRequest.Narrows (request' request : DiscoveryRequest) : Prop where
  selectors : request'.selectors = request.selectors
  engineFilters : request.engineFilters ⊆ request'.engineFilters
  nodeFilters : request.nodeFilters ⊆ request'.nodeFilters

namespace DiscoveryRequest.Narrows

variable {request request' : DiscoveryRequest}

/-- Requests that differ in the order of their filters narrow each other. -/
theorem of_perm (h : request'.selectors = request.selectors)
    (he : request'.engineFilters.Perm request.engineFilters)
    (hn : request'.nodeFilters.Perm request.nodeFilters) : request.Narrows request' :=
  ⟨h.symm, he.subset, hn.subset⟩

/-- A suite adds the same filters to both. -/
theorem nested (h : request'.Narrows request) (d : SuiteDeclaration) :
    (d.nested request').Narrows (d.nested request) :=
  ⟨rfl, List.append_subset.mpr ⟨fun _ hf => List.mem_append_left _ (h.engineFilters hf),
      List.subset_append_right ..⟩,
    List.append_subset.mpr ⟨fun _ hf => List.mem_append_left _ (h.nodeFilters hf),
      List.subset_append_right ..⟩⟩

end DiscoveryRequest.Narrows

/-- An engine that looks at nothing of a request but what it selects. -/
def Engine.SelectsOnly {κ : Type} (e : Engine κ) : Prop :=
  ∀ request request' id, request'.selectors = request.selectors →
    e.discover request' id = e.discover request id

theorem Catalogue.engine_selectsOnly (c : Catalogue) (number : Nat) :
    (c.engine number).SelectsOnly := by
  intro request request' id h
  have hclasses : selectedClasses request' = selectedClasses request := by
    rw [selectedClasses, selectedClasses, h]
  have hgrow : c.growTree request' id = c.growTree request id := by
    rw [growTree, growTree, hclasses]
  show c.discover number request' id = c.discover number request id
  rw [discover, discover, hgrow]

/-! ## Survivors -/

namespace Find

variable {κ : Type} {filters more : List NodeFilter} {y : Find κ} {r : NodeRef}

/-- What survives filters survives fewer of them. -/
theorem survives_of_subset (hsub : filters ⊆ more) (h : y.survives more r = true) :
    y.survives filters r = true := by
  obtain ⟨t, ht, h⟩ := List.any_eq_true.mp h
  obtain ⟨htest, h⟩ := Bool.and_eq_true_iff.mp h
  obtain ⟨k, hk, h⟩ := List.any_eq_true.mp h
  have hall : (filters.all fun filter => filter.includes (NodeRule.judge y.forest k)) = true :=
    List.all_eq_true.mpr fun filter hfilter => List.all_eq_true.mp h filter (hsub hfilter)
  refine List.any_eq_true.mpr ⟨t, ht, ?_⟩
  rw [htest, Bool.true_and]
  exact List.any_eq_true.mpr ⟨k, hk, hall⟩

theorem identifiers_sublist (hsub : filters ⊆ more) (parentId : Option String) :
    (y.identifiers more parentId).Sublist (y.identifiers filters parentId) := by
  rw [identifiers, identifiers]
  refine List.Sublist.append_left ?_ _
  exact (List.monotone_filter_right _ fun r => survives_of_subset hsub).filterMap _

end Find

/-! ## Lists -/

namespace Resolution

variable {κ ω ρ : Type} {engine : Engine κ} {engines : List (Engine κ)}
  {request request' : DiscoveryRequest} {v : World κ ω ρ} {y : Find κ}

/-- An engine that is let in by more filters sketches what it sketches for fewer. -/
theorem sketch?_of_narrows (hselect : engine.SelectsOnly) (h : request'.Narrows request)
    (hy : sketch? request' v engine = some y) : sketch? request v engine = some y := by
  rw [sketch?, find?] at hy ⊢
  split at hy
  · rename_i id hex hid
    have hfewer := excludes_of_subset h.engineFilters hex
    dsimp only at hy ⊢
    rw [hfewer, hid]
    dsimp only
    rw [← hselect request request' id h.selectors]
    exact hy
  · cases hy

theorem sketches_sublist (hselect : ∀ e ∈ engines, e.SelectsOnly) (h : request'.Narrows request) :
    (sketches engines request' v).Sublist (sketches engines request v) := by
  induction engines with
  | nil => exact List.Sublist.slnil
  | cons e es ih =>
      have hrest := ih fun e he => hselect e (List.mem_cons_of_mem _ he)
      rw [sketches, sketches, List.filterMap_cons, List.filterMap_cons]
      cases hy : sketch? request' v e with
      | none =>
          cases sketch? request v e with
          | none => exact hrest
          | some y => exact hrest.cons y
      | some y =>
          rw [sketch?_of_narrows (hselect e (List.mem_cons_self ..)) h hy]
          exact hrest.cons_cons y

/-- **A list gets shorter** when there are more filters. -/
theorem listing_sublist (hselect : ∀ e ∈ engines, e.SelectsOnly) (h : request'.Narrows request)
    (node? : Option Node) :
    (listing engines v request' node?).Sublist (listing engines v request node?) := by
  have hbelow : request.nodeFilters.map (NodeFilter.below node?)
      ⊆ request'.nodeFilters.map (NodeFilter.below node?) := List.map_subset _ h.nodeFilters
  refine List.Sublist.append_left (List.Sublist.map _ ?_) _
  -- fewer nodes of each sketch survive, and there may be fewer sketches
  exact (List.Sublist.flatMap_right _ fun y _ => Find.identifiers_sublist hbelow none).trans
    ((sketches_sublist hselect h).flatMap _)

theorem rootListing_sublist (hselect : ∀ e ∈ engines, e.SelectsOnly)
    (h : request'.Narrows request) (node? : Option Node) :
    (rootListing engines v request' node?).Sublist (rootListing engines v request node?) := by
  cases node? with
  | none => exact (sketches_sublist hselect h).flatMap _
  | some n => exact List.Sublist.refl _

end Resolution

/-! ## Plans -/

namespace TestPlan

variable {plan plan' : TestPlan} {is is' rs rs' : List Identifier}

/-- Everything in a plan is in another one, in the order it has there. -/
structure PartOf (plan' plan : TestPlan) : Prop where
  identifiers : plan'.identifiers.values.Sublist plan.identifiers.values
  roots : plan'.roots.Sublist plan.roots
  children : ∀ id, (plan'.childrenOf id).Sublist (plan.childrenOf id)

theorem MadeOf.partOf (h' : plan'.MadeOf is' rs') (h : plan.MadeOf is rs) (his : is'.Sublist is)
    (hrs : rs'.Sublist rs) : plan'.PartOf plan := by
  refine ⟨?_, ?_, fun id => ?_⟩
  · rw [h'.lists.values, h.lists.values]
    exact his
  · rw [h'.roots, h.roots]
    exact hrs
  · rw [h'.lists.children, h.lists.children]
    exact his.filter _

end TestPlan

/-- Lists that get shorter for narrower requests do so together. -/
theorem Expansion.gather_sublist {request request' : DiscoveryRequest}
    {k : DiscoveryRequest → Option Node → List Identifier}
    (hk : ∀ {a b : DiscoveryRequest}, b.Narrows a → ∀ node?, (k b node?).Sublist (k a node?))
    (h : request'.Narrows request) (suites : List SuiteDeclaration) :
    (gather k request' suites).Sublist (gather k request suites) :=
  (hk h none).append (List.Sublist.flatMap_right _ fun d _ => hk (h.nested d) _)

namespace Launcher

section

variable {κ ω ρ : Type} {l : Launcher κ ω ρ} {request request' : DiscoveryRequest}
  {w w' u u' : World κ ω ρ} {plan plan' : TestPlan}

/-- What engines need for their finds to be the same at every call: their trees are fresh, depend on
    nothing but the request and the id, and on nothing of the request but what it selects. -/
structure Steady (l : Launcher κ ω ρ) : Prop where
  fresh : ∀ e ∈ l.engines, e.BuildsFresh
  placeless : ∀ e ∈ l.engines, e.Placeless
  rerootable : ∀ e ∈ l.engines, e.Rerootable
  selectsOnly : ∀ e ∈ l.engines, e.SelectsOnly

/-- The plans of requests of which one narrows the other: the narrower one is a part, and it is
    the whole if the other narrows it as well. -/
theorem discover_partOf (hl : l.Steady) (h : request'.Narrows request)
    (hreached : Expansion.reached l.resolver? request' u = Expansion.reached l.resolver? request w)
    (hjudge : ∀ filter ∈ request'.nodeFilters, filter.ByAncestry)
    (hsuites : ∀ d ∈ SuiteDeclaration.distinct (Expansion.reached l.resolver? request w),
      ∀ filter ∈ d.nodeFilters, filter.ByAncestry)
    (hplan : (l.discover (some request)).on w = (.ok plan, w'))
    (hplan' : (l.discover (some request')).on u = (.ok plan', u')) :
    plan'.PartOf plan ∧ (request.Narrows request' → plan' = plan) := by
  have hmade := discover_listing hl.fresh hl.placeless hl.rerootable
    (fun filter hfilter => hjudge filter (h.nodeFilters hfilter)) hsuites hplan w
  have hmade' := discover_listing hl.fresh hl.placeless hl.rerootable hjudge
    (hreached ▸ hsuites) hplan' w
  rw [hreached] at hmade'
  have hlists : ∀ {a b : DiscoveryRequest}, b.Narrows a → ∀ suites,
      (Expansion.gather (Resolution.listing l.engines w) b suites).Sublist
        (Expansion.gather (Resolution.listing l.engines w) a suites) :=
    Expansion.gather_sublist (Resolution.listing_sublist hl.selectsOnly)
  have hroots : ∀ {a b : DiscoveryRequest}, b.Narrows a → ∀ suites,
      (Expansion.gather (Resolution.rootListing l.engines w) b suites).Sublist
        (Expansion.gather (Resolution.rootListing l.engines w) a suites) :=
    Expansion.gather_sublist (Resolution.rootListing_sublist hl.selectsOnly)
  refine ⟨hmade'.partOf hmade (hlists h _) (hroots h _), fun hback => ?_⟩
  rw [(hlists h _).antisymm (hlists hback _), (hroots h _).antisymm (hroots hback _)] at hmade'
  exact hmade.unique hmade'

end

section

variable {ω ρ : Type} {l : Launcher Diaries ω ρ} {request request' : DiscoveryRequest}
  {w u : World Diaries ω ρ} {plan plan' : TestPlan}

theorem steady_of_catalogues (h : ∀ e ∈ l.engines, ∃ c number, e = Catalogue.engine c number) :
    l.Steady where
  fresh := Catalogue.forall_engine Catalogue.engine_buildsFresh h
  placeless := Catalogue.forall_engine Catalogue.engine_placeless h
  rerootable := Catalogue.forall_engine Catalogue.engine_rerootable h
  selectsOnly := Catalogue.forall_engine Catalogue.engine_selectsOnly h

/-- **Filters only remove, in any order.**  When a request has all filters of another one and maybe
    more, wherever they stand, and all of them judge by ancestry, then everything in its plan is
    in the plan of the other, in the order it has there; when it has the same filters in another
    order, the plans are equal. -/
theorem filters_only_remove {tables? : Option SuiteTables}
    (hengines : ∀ e ∈ l.engines, ∃ c number, e = Catalogue.engine c number)
    (hresolver : l.resolver? = tables?.map SuiteTables.resolver)
    (hselectors : request'.selectors = request.selectors)
    (hengine : request.engineFilters ⊆ request'.engineFilters)
    (hnode : request.nodeFilters ⊆ request'.nodeFilters)
    (hjudge : ∀ filter ∈ request'.nodeFilters, filter.ByAncestry)
    (hsuites : ∀ tables ∈ tables?, ∀ d ∈ request.selectors.flatMap tables.suitesFor,
      ∀ filter ∈ d.nodeFilters, filter.ByAncestry)
    (hplan : ((l.discover (some request)).on w).1 = .ok plan)
    (hplan' : ((l.discover (some request')).on u).1 = .ok plan') :
    plan'.PartOf plan ∧
      (request'.engineFilters.Perm request.engineFilters →
        request'.nodeFilters.Perm request.nodeFilters → plan' = plan) := by
  rcases hrun : (l.discover (some request)).on w with ⟨result, w'⟩
  rcases hrun' : (l.discover (some request')).on u with ⟨result', u'⟩
  rw [hrun] at hplan
  rw [hrun'] at hplan'
  subst hplan hplan'
  obtain ⟨hreached, hjudges⟩ :
      Expansion.reached l.resolver? request' u = Expansion.reached l.resolver? request w ∧
        ∀ d ∈ Expansion.reached l.resolver? request w,
          ∀ filter ∈ d.nodeFilters, filter.ByAncestry := by
    cases tables? with
    | none =>
        rw [hresolver]
        exact ⟨rfl, fun d hd => absurd hd List.not_mem_nil⟩
    | some tables =>
        rw [reached_of_discover hresolver hrun, reached_of_discover hresolver hrun', hselectors]
        exact ⟨rfl, hsuites tables rfl⟩
  obtain ⟨hpart, hwhole⟩ := discover_partOf (steady_of_catalogues hengines)
    ⟨hselectors, hengine, hnode⟩ hreached hjudge
    (fun d hd => hjudges d (SuiteDeclaration.mem_of_mem_distinct hd)) hrun hrun'
  exact ⟨hpart, fun he hn => hwhole (.of_perm hselectors he hn)⟩

end

/-- The sample with a filter in front that takes away what its own filter leaves, and a filter
    that lets its engine in. -/
def emptied : DiscoveryRequest :=
  { DiscoveryRequest.sample with
    engineFilters := [.rule (.ids ⟨StringSet.ofList ["E"], .including⟩)]
    nodeFilters := .rule (.tags ⟨StringSet.ofList ["fast"], .excluding⟩) ::
      DiscoveryRequest.sample.nodeFilters }

/-- The same filters the other way round. -/
def emptiedBackwards : DiscoveryRequest :=
  { emptied with nodeFilters := emptied.nodeFilters.reverse }

/-- The fast test goes, and with it the class that has no other one; the roots stay. -/
theorem filters_only_remove_sample :
    ∃ plan plan' plan'', ((sample.discover (some .sample)).on World.sample).1 = .ok plan ∧
      ((sample.discover (some emptied)).on World.sample).1 = .ok plan' ∧
      ((sample.discover (some emptiedBackwards)).on World.sample).1 = .ok plan'' ∧
      plan'.PartOf plan ∧ plan'' = plan' ∧
      plan.identifiers.keys = ["[engine:E]", "[engine:E]/[class:m.K]",
        "[engine:E]/[class:m.K]/[test:t]", "[suite:s]", "[suite:s]/[engine:E]",
        "[suite:s]/[engine:E]/[class:m.K]", "[suite:s]/[engine:E]/[class:m.K]/[test:t]"] ∧
      plan'.identifiers.keys = ["[engine:E]", "[suite:s]", "[suite:s]/[engine:E]"] := by
  have hfound : ∀ (request : DiscoveryRequest) (keys : List String),
      ((sample.discover (some request)).on World.sample).1.toOption.map
          (fun plan : TestPlan => plan.identifiers.keys) = some keys →
        ∃ plan, ((sample.discover (some request)).on World.sample).1 = .ok plan ∧
          plan.identifiers.keys = keys := by
    intro request keys h
    cases hr : ((sample.discover (some request)).on World.sample).1 with
    | error e =>
        rw [hr] at h
        cases h
    | ok plan =>
        rw [hr] at h
        exact ⟨plan, rfl, Option.some.inj h⟩
  obtain ⟨plan, hplan, hkeys⟩ := hfound .sample ["[engine:E]", "[engine:E]/[class:m.K]",
    "[engine:E]/[class:m.K]/[test:t]", "[suite:s]", "[suite:s]/[engine:E]",
    "[suite:s]/[engine:E]/[class:m.K]", "[suite:s]/[engine:E]/[class:m.K]/[test:t]"]
    (by decide +kernel)
  obtain ⟨plan', hplan', hkeys'⟩ := hfound emptied
    ["[engine:E]", "[suite:s]", "[suite:s]/[engine:E]"] (by decide +kernel)
  obtain ⟨plan'', hplan'', -⟩ := hfound emptiedBackwards
    ["[engine:E]", "[suite:s]", "[suite:s]/[engine:E]"] (by decide +kernel)
  have hengines : ∀ e ∈ sample.engines, ∃ c number, e = Catalogue.engine c number := by
    intro e he
    exact ⟨Catalogue.sample, 0, List.mem_singleton.mp he⟩
  have hresolver : sample.resolver? = (some SuiteTables.sample).map SuiteTables.resolver := rfl
  have hselectors : emptied.selectors = DiscoveryRequest.sample.selectors := rfl
  have hselectors' : emptiedBackwards.selectors = emptied.selectors := rfl
  have hjudge : ∀ filter ∈ emptied.nodeFilters, filter.ByAncestry := by
    intro filter hfilter
    refine NodeFilter.ByLineage.byAncestry fun rule hrule => ?_
    rcases List.mem_cons.mp hfilter with rfl | hfilter
    · cases List.mem_singleton.mp hrule
    · rw [List.mem_singleton.mp hfilter] at hrule
      cases List.mem_singleton.mp hrule
  have hnone : (DiscoveryRequest.sample.selectors.flatMap SuiteTables.sample.suitesFor).all
      (fun d => d.nodeFilters.isEmpty) = true := by
    decide +kernel
  have hsuites : ∀ tables ∈ some SuiteTables.sample,
      ∀ d ∈ DiscoveryRequest.sample.selectors.flatMap tables.suitesFor,
        ∀ filter ∈ d.nodeFilters, filter.ByAncestry := by
    rintro tables ⟨⟩ d hd filter hfilter
    rw [List.isEmpty_iff.mp (List.all_eq_true.mp hnone d hd)] at hfilter
    exact absurd hfilter List.not_mem_nil
  -- more filters, and the same ones backwards
  obtain ⟨hpart, -⟩ := filters_only_remove hengines hresolver hselectors (List.nil_subset _)
    (List.subset_cons_self ..) hjudge hsuites hplan hplan'
  have hperm : emptiedBackwards.nodeFilters.Perm emptied.nodeFilters := List.reverse_perm _
  obtain ⟨-, hsame⟩ := filters_only_remove hengines hresolver hselectors' (List.Subset.refl _)
    hperm.symm.subset (fun filter hfilter => hjudge filter (hperm.subset hfilter)) hsuites
    hplan' hplan''
  exact ⟨plan, plan', plan'', hplan, hplan', hplan'', hpart, hsame (List.Perm.refl _) hperm,
    hkeys, hkeys'⟩

end Launcher

end TestLauncher
