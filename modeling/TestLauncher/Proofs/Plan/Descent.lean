import TestLauncher.Proofs.Forest.Spelling
import TestLauncher.Proofs.Plan.Ancestors
import TestLauncher.Proofs.UniqueId.Leading

/-! # Reading the place of a node off its text

    In trees in which the id of each node spells out the way to it (`SpelledOut`), a node is
    below another exactly if its id goes on after the id of the other
    (`TestPlan.mem_subtree_iff_prefix`): going down only adds segments, and the ids of the nodes on
    the way up are all that lead an id.  A plan keeps texts instead of ids.  When segments can
    be told apart, texts lead each other as ids do, and so what a plan has below an
    identifier can be told from the texts alone (`TestPlan.texts_lead_down`). -/

namespace TestLauncher

namespace Forest

variable {f : Forest} {rs : List NodeRef} {x y : NodeRef} {u v : UniqueId}

/-- Roots have ids of one segment and every other node has the id of its parent and one segment
    more, and no value in them holds the characters that part two segments. -/
structure SpelledOut (f : Forest) (rs : List NodeRef) : Prop where
  roots : ∀ r ∈ rs, ∃ s, f.id? r = some (.single s) ∧ UniqueId.Whole s.value
  below : ∀ p, f.Reached rs p → ∀ c ∈ f.children p, f.Spells p c

theorem Hung.mem_preorder_iff (h : f.Hung rs) : x ∈ f.preorder rs ↔ f.Reached rs x := by
  refine ⟨h.reached_of_mem_subtree, fun hx => ?_⟩
  induction hx with
  | @root r hr => exact List.mem_flatMap.mpr ⟨r, hr, List.mem_cons_self ..⟩
  | @child p c _ hc ih =>
      obtain ⟨r, hr, hp⟩ := List.mem_flatMap.mp ih
      have hdown := (h.mem_subtree_iff (.root hr)).mp hp
      exact List.mem_flatMap.mpr ⟨r, hr, (h.mem_subtree_iff (.root hr)).mpr (.child hdown hc)⟩

namespace SpelledOut

variable (h : f.SpelledOut rs)

include h

theorem exists_id (hx : f.Reached rs x) : ∃ u, f.id? x = some u ∧ u.Separable := by
  induction hx with
  | root hr =>
      obtain ⟨s, hs, hwhole⟩ := h.roots _ hr
      exact ⟨_, hs, UniqueId.separable_single hwhole⟩
  | child hp hc ih =>
      obtain ⟨u, hu, hsep⟩ := ih
      obtain ⟨v, s, hv, hs, hwhole⟩ := h.below _ hp _ hc
      rw [hu] at hv
      cases hv
      exact ⟨_, hs, hsep.push hwhole⟩

/-- Going down adds segments. -/
theorem prefix_of_reached (hx : f.Reached rs x) (hu : f.id? x = some u) (hy : f.Reached [x] y)
    (hv : f.id? y = some v) : u.segments <+: v.segments := by
  induction hy generalizing v with
  | root hr =>
      rw [List.mem_singleton.mp hr, hu] at hv
      cases hv
      exact List.prefix_rfl
  | child hp hc ih =>
      obtain ⟨w, s, hw, hs, -⟩ := h.below _ (hx.trans hp) _ hc
      rw [hv] at hs
      cases hs
      exact (ih hw).trans (List.prefix_append _ _)

/-- An id that leads that of a node is on the way up to the root. -/
theorem reached_of_prefix (hy : f.Reached rs y) (hv : f.id? y = some v)
    (hlead : u.segments <+: v.segments) :
    ∃ x, f.Reached rs x ∧ f.id? x = some u ∧ f.Reached [x] y := by
  induction hy generalizing v with
  | @root r hr =>
      obtain ⟨s, hs, -⟩ := h.roots r hr
      rw [hv] at hs
      cases hs
      -- a single segment is led by itself alone
      have hwhole : u.segments = [s] := by
        refine hlead.eq_of_length_le ?_
        exact List.length_pos_iff.mpr u.nonempty
      exact ⟨r, .root hr, hv.trans (congrArg some (UniqueId.ext_iff.mpr hwhole.symm)), reached_self⟩
  | @child p c hp hc ih =>
      obtain ⟨w, s, hw, hs, -⟩ := h.below p hp c hc
      rw [hv] at hs
      cases hs
      rcases List.prefix_concat_iff.mp hlead with hall | hlead
      · exact ⟨c, .child hp hc, hv.trans (congrArg some (UniqueId.ext_iff.mpr hall.symm)),
          reached_self⟩
      · obtain ⟨x, hx, hu, hxp⟩ := ih hw hlead
        exact ⟨x, hx, hu, .child hxp hc⟩

end SpelledOut

end Forest

namespace TestPlan

variable {f : Forest} {rs : List NodeRef} {plan : TestPlan} {x y : NodeRef} {i j : Identifier}
  {u v : UniqueId}

section

variable (h : f.Rooted rs) (hspell : f.SpelledOut rs) (hplan : ofRoots f rs = .ok plan)

include h hplan

/-- Nodes of a plan with one id are one node. -/
theorem eq_of_id? (hx : x ∈ f.preorder rs) (hy : y ∈ f.preorder rs) (hu : f.id? x = some u)
    (hv : f.id? y = some u) : x = y := by
  have htext : ∀ {r : NodeRef}, f.id? r = some u → f.idText? r = some u.render := by
    intro r hr
    obtain ⟨n, hn, rfl⟩ := Option.map_eq_some_iff.mp hr
    rw [Forest.idText?, hn]
    rfl
  exact Forest.eq_of_idText? (distinct_of_ofRoots h hplan) hx hy (htext hu) (htext hv)

include hspell

/-- **Below a node are those whose ids go on after its own.** -/
theorem mem_subtree_iff_prefix (hx : x ∈ f.preorder rs) (hy : y ∈ f.preorder rs)
    (hu : f.id? x = some u) (hv : f.id? y = some v) :
    y ∈ f.subtree x ↔ u.segments <+: v.segments := by
  have hxr := h.hung.mem_preorder_iff.mp hx
  have hyr := h.hung.mem_preorder_iff.mp hy
  rw [h.hung.mem_subtree_iff hxr]
  constructor
  · intro hdown
    exact hspell.prefix_of_reached hxr hu hdown hv
  · intro hlead
    obtain ⟨x', hx', hu', hdown⟩ := hspell.reached_of_prefix hyr hv hlead
    rwa [eq_of_id? h hplan hx (h.hung.mem_preorder_iff.mpr hx') hu hu']

/-- What a plan has below an identifier has texts that go on after that of the identifier. -/
theorem exists_descendants_iff_prefix (hi : i ∈ plan.identifiers.values) :
    ∃ ds, plan.descendantsOf i = .ok ds ∧ ∀ j ∈ plan.identifiers.values,
      (i.id ++ "/[").toList <+: j.id.toList ↔ j ∈ ds := by
  have hids := distinct_of_ofRoots h hplan
  obtain ⟨hidx, -⟩ := indexes_of_rooted h hids hplan
  have hvalues : plan.identifiers.values = f.identifiers (f.preorder rs) := by
    rw [hidx.lists.values, h.toList_grove]
    rfl
  have hnode : ∀ {j}, j ∈ plan.identifiers.values → ∃ y u, y ∈ f.preorder rs ∧
      f.identifier? y = some j ∧ f.id? y = some u ∧ u.Separable ∧ j.id = u.render := by
    intro j hj
    rw [hvalues] at hj
    obtain ⟨y, hy, hyj⟩ := Forest.exists_of_mem_identifiers hj
    obtain ⟨u, hu, hsep⟩ := hspell.exists_id (h.hung.mem_preorder_iff.mp hy)
    obtain ⟨n, hn, rfl⟩ := Option.map_eq_some_iff.mp hu
    exact ⟨y, n.id, hy, hyj, hu, hsep, Forest.render_of_identifier? hn hyj⟩
  obtain ⟨x, u, hx, hxi, hu, husep, hiu⟩ := hnode hi
  obtain ⟨ds, hds, hnodup, hmem⟩ := (layered_of_ofRoots h hplan).descendants i hi
  refine ⟨ds, hds, fun j hj => ?_⟩
  obtain ⟨y, v, hy, hyj, hv, hvsep, hjv⟩ := hnode hj
  have hbelow : j ∈ i :: ds ↔ u.segments <+: v.segments := by
    rw [hmem, atOrAbove_iff h hplan hx hxi hy hyj,
      mem_subtree_iff_prefix h hspell hplan hx hy hu hv, and_iff_right hj]
  have hself : u = v ↔ j = i := by
    constructor
    · rintro rfl
      rw [eq_of_id? h hplan hx hy hu hv, hyj] at hxi
      exact Option.some.inj hxi
    · rintro rfl
      exact husep.eq_of_render hvsep (hiu.symm.trans hjv)
  rw [hiu, hjv, hvsep.render_prefix_iff husep, ← hbelow, List.mem_cons, Ne, hself]
  constructor
  · rintro ⟨hor, hne⟩
    exact hor.resolve_left hne
  · intro hj
    refine ⟨Or.inr hj, ?_⟩
    rintro rfl
    exact (List.nodup_cons.mp hnodup).1 hj

end

/-- **Texts of ids tell prefixes at the ends of segments.**  Where no value holds the characters
    that part two segments, an id leads another exactly when the texts are the same or that of the
    other goes on after it with a slash and a bracket, and no two ids read the same.  So in a plan of
    trees with such ids, in which those of the roots have one segment and each other one is that of
    its parent and one segment more, an identifier has below it just those whose texts go on after
    its own in this way. -/
theorem texts_lead_down :
    (∀ u v : UniqueId, u.Separable → v.Separable →
      (u.hasPrefix v = true ↔
        u.render = v.render ∨ (v.render ++ "/[").toList <+: u.render.toList) ∧
      (u.render = v.render → u = v)) ∧
    ∀ (f : Forest) (rs : List NodeRef) (plan : TestPlan), f.Rooted rs → f.SpelledOut rs →
      ofRoots f rs = .ok plan → ∀ i ∈ plan.identifiers.values,
        ∃ ds, plan.descendantsOf i = .ok ds ∧ ∀ j ∈ plan.identifiers.values,
          (i.id ++ "/[").toList <+: j.id.toList ↔ j ∈ ds := by
  refine ⟨fun u v hu hv => ⟨hu.hasPrefix_iff_render hv, hu.eq_of_render hv⟩, ?_⟩
  intro f rs plan h hspell hplan i hi
  exact exists_descendants_iff_prefix h hspell hplan hi

/-- A tree with brackets and a slash in its values, and a root the text of which begins with that of
    the other and a slash. -/
def lookalikes : Forest :=
  let id (parts : List (String × String)) : Option UniqueId :=
    (UniqueId.forEngine "e" >>= parts.foldlM fun id part => id.append part.1 part.2).toOption
  Forest.Edit.outcome [
    .build (id []) "e" .container ∅ none,
    .build (id [("class", "x]")]) "x" .container ∅ none, .addChild ⟨0⟩ (some ⟨1⟩),
    .build (id [("class", "x]"), ("test", "/[t")]) "t" .test ∅ none, .addChild ⟨1⟩ (some ⟨2⟩),
    .build (UniqueId.forEngine "e]/").toOption "e" .test ∅ none]

theorem spelledOut_lookalikes : lookalikes.SpelledOut [⟨0⟩, ⟨3⟩] where
  roots := by
    have hall : [⟨0⟩, ⟨3⟩].all (fun r => (lookalikes.id? r).any fun u =>
        u.segments = [u.last] ∧ UniqueId.Whole u.last.value) = true := by decide +kernel
    intro r hr
    obtain ⟨u, hu, hone⟩ := (Option.any_eq_true ..).mp (List.all_eq_true.mp hall r hr)
    obtain ⟨hone, hwhole⟩ := of_decide_eq_true hone
    exact ⟨u.last, hu.trans (congrArg some (UniqueId.ext_iff.mpr hone)), hwhole⟩
  below := by
    have hall : (List.range lookalikes.size).all (fun k => (lookalikes.children ⟨k⟩).all fun c =>
        (lookalikes.id? ⟨k⟩).any fun u => (lookalikes.id? c).any fun v =>
          v = u.push v.last ∧ UniqueId.Whole v.last.value) = true := by decide +kernel
    intro p _ c hc
    have hlt : p.index < lookalikes.size := by
      refine (lookalikes.node?_isSome_iff p).mp ?_
      by_contra hnone
      rw [Forest.children, Option.not_isSome_iff_eq_none.mp hnone] at hc
      cases hc
    have hchildren := List.all_eq_true.mp hall p.index (List.mem_range.mpr hlt)
    obtain ⟨u, hu, hchild⟩ := (Option.any_eq_true ..).mp (List.all_eq_true.mp hchildren c hc)
    obtain ⟨v, hv, hpushed⟩ := (Option.any_eq_true ..).mp hchild
    obtain ⟨hpushed, hwhole⟩ := of_decide_eq_true hpushed
    exact ⟨u, v.last, hu, hv.trans (congrArg some hpushed), hwhole⟩

/-- The first root leads the id of its test, and not that of the other root; and the plan has below
    it the two identifiers whose texts go on after its own with a slash and a bracket. -/
theorem texts_lead_down_lookalikes :
    (∃ u v w, lookalikes.id? ⟨2⟩ = some u ∧ lookalikes.id? ⟨0⟩ = some v ∧
      lookalikes.id? ⟨3⟩ = some w ∧ u.hasPrefix v = true ∧ w.hasPrefix v = false ∧
      (v.render ++ "/").toList <+: w.render.toList) ∧
    lookalikes.Rooted [⟨0⟩, ⟨3⟩] ∧ lookalikes.SpelledOut [⟨0⟩, ⟨3⟩] ∧
    ∃ plan i ds, ofRoots lookalikes [⟨0⟩, ⟨3⟩] = .ok plan ∧ i ∈ plan.identifiers.values ∧
      i.id = "[engine:e]" ∧ plan.descendantsOf i = .ok ds ∧
      ∀ j ∈ plan.identifiers.values, j ∈ ds ↔
        j.id ∈ ["[engine:e]/[class:x]]", "[engine:e]/[class:x]]/[test:/[t]"] := by
  obtain ⟨htexts, hplans⟩ := texts_lead_down
  have hread : ∀ k text, (lookalikes.id? ⟨k⟩).any (fun u => u.Separable ∧ u.render = text) = true →
      ∃ u, lookalikes.id? ⟨k⟩ = some u ∧ u.Separable ∧ u.render = text := by
    intro k text hk
    obtain ⟨u, hu, htext⟩ := (Option.any_eq_true ..).mp hk
    exact ⟨u, hu, of_decide_eq_true htext⟩
  obtain ⟨u, hu, husep, hut⟩ := hread 2 "[engine:e]/[class:x]]/[test:/[t]" (by decide +kernel)
  obtain ⟨v, hv, hvsep, hvt⟩ := hread 0 "[engine:e]" (by decide +kernel)
  obtain ⟨w, hw, hwsep, hwt⟩ := hread 3 "[engine:e]/]" (by decide +kernel)
  have hrooted : lookalikes.Rooted [⟨0⟩, ⟨3⟩] :=
    Forest.Linked.rooted_of_all (f := lookalikes) (Forest.linked_outcome _) (by decide +kernel)
  obtain ⟨plan, hplan, hids⟩ : ∃ plan, ofRoots lookalikes [⟨0⟩, ⟨3⟩] = .ok plan ∧
      plan.identifiers.values.map Identifier.id = ["[engine:e]", "[engine:e]/[class:x]]",
        "[engine:e]/[class:x]]/[test:/[t]", "[engine:e]/]"] := by
    have hok : ((ofRoots lookalikes [⟨0⟩, ⟨3⟩]).toOption.map fun plan =>
        plan.identifiers.values.map Identifier.id) = some ["[engine:e]", "[engine:e]/[class:x]]",
          "[engine:e]/[class:x]]/[test:/[t]", "[engine:e]/]"] := by decide +kernel
    cases hmade : ofRoots lookalikes [⟨0⟩, ⟨3⟩] with
    | error fault =>
        rw [hmade] at hok
        cases hok
    | ok plan =>
        rw [hmade] at hok
        exact ⟨plan, rfl, Option.some.inj hok⟩
  obtain ⟨i, hi, hit⟩ : ∃ i ∈ plan.identifiers.values, i.id = "[engine:e]" := by
    refine List.mem_map.mp ?_
    rw [hids]
    exact List.mem_cons_self ..
  obtain ⟨ds, hds, hbelow⟩ :=
    hplans lookalikes _ plan hrooted spelledOut_lookalikes hplan i hi
  refine ⟨⟨u, v, w, hu, hv, hw, ?_, ?_, ?_⟩, hrooted, spelledOut_lookalikes, plan, i, ds, hplan, hi,
    hit, hds, ?_⟩
  · refine (htexts u v husep hvsep).1.mpr (Or.inr ?_)
    rw [hut, hvt]
    decide
  · refine Bool.eq_false_iff.mpr fun hlead => ?_
    have hor := (htexts w v hwsep hvsep).1.mp hlead
    rw [hwt, hvt] at hor
    exact absurd hor (by decide)
  · rw [hwt, hvt]
    decide
  · intro j hj
    rw [← hbelow j hj, hit]
    have hjt := List.mem_map_of_mem (f := Identifier.id) hj
    rw [hids] at hjt
    have hall : ∀ text ∈ ["[engine:e]", "[engine:e]/[class:x]]",
        "[engine:e]/[class:x]]/[test:/[t]", "[engine:e]/]"],
        ("[engine:e]" ++ "/[").toList <+: text.toList ↔
          text ∈ ["[engine:e]/[class:x]]", "[engine:e]/[class:x]]/[test:/[t]"] := by decide
    exact hall j.id hjt

end TestPlan

end TestLauncher
