import TestLauncher.Proofs.Discovery.Account
import TestLauncher.Proofs.Forest.Spelling
import TestLauncher.Proofs.Plan.Owners

/-! # Engines that conform

    An engine conforms (`Engine.Conforms`) when whatever it fails with can be held, and
    whatever it returns is a new tree whose root has the id it is to have and whose other
    ids spell out the way.  Then requests are resolved, those of suites as well
    (`mapM_ofRequest_ok`): the roots of different engines have different ids below the node
    of a suite, so that it takes all of them in (`Planted.addChild_ok`).

    Whatever filters and pruning take away, in what is left the ids still spell out the way,
    from the node of the suite on if there is one (`Survey.joined_row`). -/

namespace TestLauncher

/-- An engine that keeps to what is asked of engines. -/
structure Engine.Conforms {κ : Type} (e : Engine κ) : Prop where
  held : ∀ request id s f t, (e.discover request id).on s = (.error f, t) → f.escapes = false
  fresh : e.BuildsFresh
  named : e.RootsAtId
  spelled : ∀ request id s r t, (e.discover request id).on s = (.ok (some r), t) →
    ∀ p c, t.1.Reached [r] p → c ∈ t.1.children p → t.1.Spells p c

/-! ## Engines are taken in -/

namespace Planted

variable {κ : Type} {f₀ f : Forest} {suite? : Option NodeRef} {engine : Engine κ}
  {xs : List (Find κ)} {x : Find κ} {p root : NodeRef}

/-- A root that was found has the id that was asked for. -/
theorem exists_id (h : Planted f₀ suite? f xs) (hx : x ∈ xs) (hid : x.engine.RootsAtId) :
    ∃ id, Resolution.rootId ((suite?.bind f₀.bare?).map Node.id) x.engine.id = .ok id ∧
      f.id? x.root = some id := by
  obtain ⟨request, id, s, t, hasked, hdiscover, hforest⟩ := h.asked x hx
  obtain ⟨n, hn, rfl⟩ := hid request id s x.root t hdiscover
  refine ⟨n.id, hasked, ?_⟩
  have hbare : f.bare? x.root = some n := by
    rw [h.bare x hx x.root x.root_mem, ← hforest, hn]
  obtain ⟨m, hm, rfl⟩ := Option.map_eq_some_iff.mp hbare
  exact congrArg (Option.map Node.id) hm

/-- The node of a suite takes the root of an engine in whose id is not among those it has. -/
theorem addChild_ok {id : UniqueId} (h : Planted f₀ (some p) f xs)
    (hxs : ∀ x ∈ xs, x.engine.RootsAtId ∧ x.engine.id ≠ engine.id)
    (hid : Resolution.rootId ((f.node? p).map Node.id) engine.id = .ok id) {n : Node}
    (hn : f.node? root = some n) (hparent : n.parent = none) (hroot : n.id = id)
    (hrootp : root ≠ p) : ∃ f', f.addChild p (some root) = .ok f' := by
  obtain ⟨hlt, hbare, q, hq, -, hvalues, hkeys⟩ := h.suite p rfl
  suffices hfree : q.children.get? n.id = none by
    obtain ⟨f', hadd, -⟩ := Forest.addChild_free hn hparent hq hrootp hfree
    exact ⟨f', hadd⟩
  refine Option.eq_none_iff_forall_not_mem.mpr ?_
  intro c hc
  -- the child that has the id is the root of another engine
  have hmem := (OrderedMap.get?_eq_some_iff ..).mp hc
  have hcx : c ∈ (Find.grove xs).roots := by
    rw [← hvalues]
    exact List.mem_map_of_mem hmem
  rw [Find.roots_grove] at hcx
  obtain ⟨x, hx, rfl⟩ := List.mem_map.mp hcx
  obtain ⟨hnamed, hne⟩ := hxs x hx
  obtain ⟨id', hid', hxid⟩ := h.exists_id hx hnamed
  have hsame : id' = id := by
    have hkey := hkeys _ hmem
    rw [Forest.id?] at hxid
    rw [hxid] at hkey
    rw [← hroot]
    exact Option.some.inj hkey
  have hsuite : ((some p).bind f₀.bare?).map Node.id = (f.node? p).map Node.id := by
    show (f₀.bare? p).map Node.id = _
    rw [← hbare, Forest.bare?, Option.map_map]
    rfl
  rw [hsuite, hq] at hid'
  rw [hq] at hid
  exact hne (UniqueId.value_of_append hid' hid rfl (by rw [hsame]))

end Planted

namespace Resolution

variable {κ ω ρ : Type} {phase : Phase} {rooted : RootedRequest} {engine : Engine κ}
  {engines : List (Engine κ)} {r : Resolution κ} {xs : List (Find κ)}
  {w w' : World κ ω ρ} {f₀ : Forest} {suite? : Option NodeRef}

/-- An engine that conforms does not end the resolution. -/
theorem not_ends_of_conforms (hconf : engine.Conforms) (hs : rooted.suite? = suite?)
    (hp : Planted f₀ suite? w.forest xs)
    (hxs : ∀ x ∈ xs, x.engine.RootsAtId ∧ x.engine.id ≠ engine.id) {fault : Fault} :
    ¬ Ends false rooted w engine fault := by
  intro hends
  cases hends with
  | escaped h hf =>
      obtain ⟨-, id, -, hd⟩ := h
      rw [hconf.held _ _ _ _ _ hd] at hf
      cases hf
  | strict h hs => cases hs
  | refused h hsuite hadd =>
      rename_i root p s
      obtain ⟨-, id, hid, hd⟩ := h
      rw [← hs, hsuite] at hp
      rw [hsuite] at hid
      have hext : w.forest.Extends s.1 := by
        have hleaves := hconf.fresh.leaves rooted.request id (w.forest, w.engines)
        rw [hd] at hleaves
        exact hleaves
      have hps := hp.extend hext
      obtain ⟨b, hholds, -, hnew⟩ := hconf.fresh.fresh _ _ _ _ _ hd
      obtain ⟨n, hn, hparent, -⟩ := (Forest.holds_tree.mp hholds).1.exists_node
      obtain ⟨m, hm, hmid⟩ := hconf.named _ _ _ _ _ hd
      have hnid : n.id = id := by
        rw [Forest.bare?, hn] at hm
        rw [← hmid, ← Option.some.inj hm]
        rfl
      have hplt : p.index < w.forest.size :=
        Nat.lt_of_lt_of_le (hp.suite p rfl).1 hp.size
      have hrootp : root ≠ p := by
        rintro rfl
        exact absurd (hnew root (by simp)) (Nat.not_le_of_lt hplt)
      rw [Option.bind_some, ← hext.node? hplt] at hid
      obtain ⟨f', hf'⟩ := hps.addChild_ok hxs hid hn hparent hnid hrootp
      rw [hf'] at hadd
      cases hadd

/-- All engines are taken in. -/
theorem addEngines_ok_of_conforms (hconf : ∀ e ∈ engines, e.Conforms)
    (hids : ∀ e ∈ engines, Text.isBlank e.id = false) (hdistinct : (engines.map Engine.id).Nodup)
    (hfilters : ∀ filter ∈ rooted.request.engineFilters, filter.Unfailing)
    (hs : rooted.suite? = r.suite?) (hp : Planted f₀ r.suite? w.forest xs)
    (hxs : ∀ x ∈ xs, x.engine.RootsAtId ∧ ∀ e ∈ engines, x.engine.id ≠ e.id) :
    ∃ r' w', (engines.foldlM (addEngine phase false rooted) r).on w = (.ok r', w') := by
  induction engines generalizing r w xs with
  | nil => exact ⟨r, w, rfl⟩
  | cons e es ih =>
      have he := hconf e (by simp)
      rw [List.map_cons, List.nodup_cons] at hdistinct
      rcases addEngine_accounts phase false (hids e (by simp)) hfilters hs.symm w with
        ⟨fault, hends, -⟩ | ⟨fate, u, -, hon, -⟩
      · refine absurd hends (not_ends_of_conforms he hs hp ?_)
        exact fun x hx => ⟨(hxs x hx).1, (hxs x hx).2 e (by simp)⟩
      · have hp₁ := addEngine_planted he.fresh hs hp hon
        obtain ⟨r', w', hrest⟩ := ih (r := r.noting e fate) (fun e' he' => hconf e' (by simp [he']))
          (fun e' he' => hids e' (by simp [he'])) hdistinct.2 hs hp₁ (by
            intro x hx
            rcases List.mem_append.mp hx with hx | hx
            · exact ⟨(hxs x hx).1, fun e' he' => (hxs x hx).2 e' (by simp [he'])⟩
            · rw [engine_of_find? (Option.mem_toList.mp hx)]
              refine ⟨he.named, ?_⟩
              intro e' he' heq
              exact hdistinct.1 (heq ▸ List.mem_map_of_mem he'))
        exact ⟨r', w', by rw [List.foldlM_cons, Steps.on_bind_ok hon, hrest]⟩

/-- **A request is resolved**, that of a suite as well. -/
theorem ofRequest_ok_of_conforms (hconf : ∀ e ∈ engines, e.Conforms)
    (hids : ∀ e ∈ engines, Text.isBlank e.id = false) (hdistinct : (engines.map Engine.id).Nodup)
    (hengine : ∀ filter ∈ rooted.request.engineFilters, filter.Unfailing)
    (hnode : ∀ filter ∈ rooted.request.nodeFilters, filter.Unfailing)
    (hsuite : ∀ p, rooted.suite? = some p → w.forest.Stands p none []) :
    ∃ r w', (ofRequest engines false phase rooted).on w = (.ok r, w') := by
  have hp₀ : Planted (κ := κ) w.forest (start (κ := κ) rooted w).suite? w.forest [] :=
    Planted.start hsuite
  obtain ⟨r, w₁, hfold⟩ : ∃ r w₁,
      (engines.foldlM (addEngine phase false rooted) (start rooted w)).on w = (.ok r, w₁) :=
    addEngines_ok_of_conforms hconf hids hdistinct hengine rfl hp₀ (by simp)
  have hp := addEngines_planted (fun e he => (hconf e he).fresh) rfl hp₀ hfold
  rw [List.nil_append] at hp
  obtain ⟨w', h⟩ := ofRequest_ok_of_planted hnode hfold hp (addEngines_plus hfold)
  exact ⟨r, w', h⟩

/-- Requests one after the other, each of which finds the node of its suite as it was planted. -/
theorem mapM_ofRequest_ok (hconf : ∀ e ∈ engines, e.Conforms)
    (hids : ∀ e ∈ engines, Text.isBlank e.id = false) (hdistinct : (engines.map Engine.id).Nodup)
    {qs : List RootedRequest}
    (hengine : ∀ q ∈ qs, ∀ filter ∈ q.request.engineFilters, filter.Unfailing)
    (hnode : ∀ q ∈ qs, ∀ filter ∈ q.request.nodeFilters, filter.Unfailing) {g₀ : Grove NodeRef}
    (hg : w.forest.Holds none (g₀ ++ .leaves (qs.filterMap RootedRequest.suite?)))
    (hn : (g₀ ++ Grove.leaves (qs.filterMap RootedRequest.suite?)).toList.Nodup) :
    ∃ rs w', (qs.mapM (ofRequest engines false phase)).on w = (.ok rs, w') := by
  induction qs generalizing w g₀ with
  | nil => exact ⟨[], w, rfl⟩
  | cons q qs ih =>
      rw [filterMap_suite_cons] at hg hn
      have hbare : ∀ p, q.suite? = some p → w.forest.Stands p none [] := by
        intro p hp
        rw [Forest.holds_append, Forest.holds_leaves] at hg
        exact hg.2 p (List.mem_append_left _ (by simp [hp]))
      obtain ⟨r, w₁, hq⟩ : ∃ r w₁, (ofRequest engines false phase q).on w = (.ok r, w₁) :=
        ofRequest_ok_of_conforms hconf hids hdistinct (hengine q (by simp)) (hnode q (by simp))
          hbare
      obtain ⟨-, f, g, hsettled⟩ := ofRequest_eq_ok (fun e he => (hconf e he).fresh) hbare hq
      obtain ⟨hg₁, hn₁, -, -⟩ := hsettled.beside hg hn
      obtain ⟨rs, w', hqs⟩ := ih (fun q' hq' => hengine q' (by simp [hq']))
        (fun q' hq' => hnode q' (by simp [hq'])) hg₁ hn₁
      exact ⟨r :: rs, w', by rw [List.mapM_cons, Steps.on_bind_ok hq, Steps.on_bind_ok hqs]; rfl⟩

end Resolution

/-! ## Ids spell out the way -/

section

variable {κ : Type} {f₀ f f' : Forest} {suite? : Option NodeRef} {xs : List (Find κ)}
  {R : NodeRef → NodeRef → Prop} {filters : List NodeFilter} {g : Grove NodeRef}

theorem Find.joined_grove (h : ∀ x ∈ xs, x.tree.Joined R) : (Find.grove xs).Joined R := by
  induction xs with
  | nil => trivial
  | cons x xs ih =>
      obtain ⟨hroot, hbelow, -⟩ := h x (by simp)
      exact ⟨hroot, hbelow, ih fun y hy => h y (by simp [hy])⟩

/-- The ids in the trees of engines that conform spell out the way. -/
theorem Planted.joined (h : Planted f₀ suite? f xs) (hconf : ∀ x ∈ xs, x.engine.Conforms) :
    (Find.grove xs).Joined f.Spells := by
  refine Find.joined_grove ?_
  intro x hx
  obtain ⟨request, id, s, t, -, hdiscover, hforest⟩ := h.asked x hx
  have hspelled := (hconf x hx).spelled _ _ _ _ _ hdiscover
  rw [hforest] at hspelled
  have hstood := h.stood x hx
  have hroot : x.forest.Reached [x.root] x.root := .root (by simp)
  obtain ⟨hstands, hbelow⟩ := Forest.holds_tree.mp hstood
  refine (Forest.joined_children hstood).imp ?_
  intro p hp c hc hpc
  have hreached : x.forest.Reached [x.root] p := by
    rcases Grove.mem_tree.mp hp with rfl | hp
    · exact hroot
    · refine hroot.of_holds hbelow ?_ hp
      intro d hd
      rw [hstands.children]
      exact hd
  exact (hspelled p c hreached hpc).congr (h.bare x hx p hp) (h.bare x hx c hc)

/-- And they do in what filters and pruning leave of them. -/
theorem Resolution.Settled.joined (h : Settled filters f₀ suite? xs f f' g)
    (hconf : ∀ x ∈ xs, x.engine.Conforms) : g.Joined f'.Spells := by
  obtain ⟨filter, v, g', -, -, hg', hg⟩ := h.sifted
  refine (((h.planted.joined hconf).thinBelow hg').thinBelow hg).imp ?_
  intro p _ c _ hspells
  exact hspells.congr (h.bare p) (h.bare c)

namespace Survey

variable {s : Survey κ} {part : Grove NodeRef}

/-- The id of an engine's root is that of the suite's node and one more segment. -/
theorem Laid.spells {G : Grove NodeRef} {p : NodeRef} {x : Find κ} (h : s.Laid f G)
    (hp : s.rooted.suite? = some p) (hx : x ∈ s.finds) (hwhole : UniqueId.Whole x.engine.id) :
    f.Spells p x.root := by
  obtain ⟨-, -, n, name, hn, -⟩ := h.suite p hp
  obtain ⟨m, hm, hid⟩ := h.named x hx
  rw [hp, Option.bind_some, hn] at hid
  obtain ⟨t, hpush, -, hvalue⟩ := UniqueId.append_eq_ok hid
  refine ⟨n.id, t, Forest.id?_of_node? hn, ?_, ?_⟩
  · rw [← hpush]
    exact Forest.id?_of_node? hm
  · rw [hvalue]
    exact hwhole

theorem Left.joined {G : Grove NodeRef} (h : s.Left f part) (hlaid : s.Laid f G)
    (hconf : ∀ x ∈ s.finds, x.engine.Conforms ∧ UniqueId.Whole x.engine.id) :
    part.Joined f.Spells := by
  obtain ⟨f₀, f₁, f₂, g, hg, rfl, hframe⟩ := h
  have hjoined : g.Joined f.Spells := by
    refine (hg.joined fun x hx => (hconf x hx).1).imp ?_
    intro p hp c hc hspells
    have hbare : ∀ r ∈ g.toList, f.bare? r = f₂.bare? r := fun r hr =>
      Forest.bare?_congr (hframe r (Resolution.mem_topped.mpr (Or.inr hr)))
    exact hspells.congr (hbare p hp) (hbare c hc)
  cases hs : s.rooted.suite? with
  | none => exact hjoined
  | some p =>
      refine ⟨?_, hjoined, trivial⟩
      intro c hc
      rw [hg.roots] at hc
      obtain ⟨x, hx, rfl⟩ := List.mem_map.mp hc
      exact hlaid.spells hs hx (hconf x hx).2

theorem joined_row {ss : List (Survey κ)} {parts : List (Grove NodeRef)} {G : Grove NodeRef}
    (h : List.Forall₂ (Left f) ss parts) (hlaid : ∀ s ∈ ss, s.Laid f G)
    (hconf : ∀ s ∈ ss, ∀ x ∈ s.finds, x.engine.Conforms ∧ UniqueId.Whole x.engine.id) :
    (Grove.row parts).Joined f.Spells := by
  induction h with
  | nil => trivial
  | cons hs _ ih =>
      refine Grove.joined_append.mpr ⟨hs.joined (hlaid _ (by simp)) (hconf _ (by simp)), ih ?_ ?_⟩
      · exact fun s hs => hlaid s (by simp [hs])
      · exact fun s hs => hconf s (by simp [hs])

end Survey

end

end TestLauncher
