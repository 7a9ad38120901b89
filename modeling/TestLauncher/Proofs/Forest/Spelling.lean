import TestLauncher.Proofs.Plan.Faithful
import TestLauncher.Proofs.UniqueId.Reading

/-! # Ids that spell out the way

    In a tree as engines are to build it the id of a node is that of its parent and one more
    segment (`Spells`).  Then ids tell nodes apart, although nothing compares them but
    parents, each with the ids of its own children: two nodes with one id have parents with
    one id, and so on up to the roots (`eq_of_spelled`).  Where no value holds the characters
    that part two segments, the texts of the ids tell nodes apart as well
    (`nodup_of_spelled`).

    Whatever thinning takes away, a node that is left has the parent it had (`Joined.thin`). -/

namespace TestLauncher

namespace Grove

variable {α : Type} {R S : α → α → Prop} {ask : α → Except Fault Bool} {g g' : Grove α}

/-- Every node is related to those right below it. -/
def Joined (R : α → α → Prop) : Grove α → Prop
  | nil => True
  | cons a below beside => (∀ c ∈ below.roots, R a c) ∧ below.Joined R ∧ beside.Joined R

theorem joined_append {h : Grove α} : (g ++ h).Joined R ↔ g.Joined R ∧ h.Joined R := by
  induction g with
  | nil => exact ⟨fun hh => ⟨trivial, hh⟩, fun hh => hh.2⟩
  | cons a b s _ ihs =>
      rw [cons_append, Joined, Joined, ihs, and_assoc, and_assoc]

theorem Joined.imp (h : g.Joined R) (himp : ∀ a ∈ g.toList, ∀ c ∈ g.toList, R a c → S a c) :
    g.Joined S := by
  induction g with
  | nil => trivial
  | cons a b s ihb ihs =>
      obtain ⟨ha, hb, hs⟩ := h
      refine ⟨?_, ihb hb fun x hx c hc => himp x (by simp [hx]) c (by simp [hc]),
        ihs hs fun x hx c hc => himp x (by simp [hx]) c (by simp [hc])⟩
      intro c hc
      exact himp a (by simp) c (by simp [mem_toList_of_mem_roots hc]) (ha c hc)

theorem Joined.and (hR : g.Joined R) (hS : g.Joined S) : g.Joined fun a c => R a c ∧ S a c := by
  induction g with
  | nil => trivial
  | cons a b s ihb ihs =>
      obtain ⟨haR, hbR, hsR⟩ := hR
      obtain ⟨haS, hbS, hsS⟩ := hS
      exact ⟨fun c hc => ⟨haR c hc, haS c hc⟩, ihb hbR hbS, ihs hsR hsS⟩

/-- Roots that are left were roots. -/
theorem roots_thin (h : g.thin ask = .ok g') {r : α} (hr : r ∈ g'.roots) : r ∈ g.roots := by
  induction g generalizing g' with
  | nil =>
      cases h
      exact hr
  | cons a b s _ ihs =>
      obtain ⟨b', stay, s', -, -, hs, rfl⟩ := thin_cons_eq_ok h
      rw [roots_cons, List.mem_cons]
      split at hr
      · rcases List.mem_cons.mp hr with rfl | hr
        · exact Or.inl rfl
        · exact Or.inr (ihs hs hr)
      · exact Or.inr (ihs hs hr)

/-- Nodes that are left hang below those they hung below. -/
theorem Joined.thin (hg : g.Joined R) (h : g.thin ask = .ok g') : g'.Joined R := by
  induction g generalizing g' with
  | nil =>
      cases h
      exact hg
  | cons a b s ihb ihs =>
      obtain ⟨ha, hb, hs⟩ := hg
      obtain ⟨b', stay, s', hb', -, hs', rfl⟩ := thin_cons_eq_ok h
      split
      · exact ⟨fun c hc => ha c (roots_thin hb' hc), ihb hb hb', ihs hs hs'⟩
      · exact ihs hs hs'

theorem Joined.thinBelow (hg : g.Joined R) (h : g.thinBelow ask = .ok g') : g'.Joined R := by
  induction g generalizing g' with
  | nil =>
      cases h
      exact hg
  | cons a b s _ ihs =>
      obtain ⟨ha, hb, hs⟩ := hg
      obtain ⟨b', s', hb', hs', rfl⟩ := thinBelow_cons_eq_ok h
      exact ⟨fun c hc => ha c (roots_thin hb' hc), hb.thin hb', ihs hs hs'⟩

theorem Joined.root_or_joined (h : g.Joined R) {x : α} (hx : x ∈ g.toList) :
    x ∈ g.roots ∨ ∃ p ∈ g.toList, R p x := by
  induction g with
  | nil => exact absurd hx List.not_mem_nil
  | cons a b s ihb ihs =>
      obtain ⟨ha, hb, hs⟩ := h
      rw [toList_cons, List.mem_cons, List.mem_append] at hx
      rcases hx with rfl | hx | hx
      · exact Or.inl (by simp)
      · rcases ihb hb hx with hroot | ⟨p, hp, hR⟩
        · exact Or.inr ⟨a, by simp, ha x hroot⟩
        · exact Or.inr ⟨p, by simp [hp], hR⟩
      · rcases ihs hs hx with hroot | ⟨p, hp, hR⟩
        · exact Or.inl (by simp [hroot])
        · exact Or.inr ⟨p, by simp [hp], hR⟩

end Grove

namespace Forest

variable {f f' : Forest} {p c r : NodeRef} {g : Grove NodeRef} {pp : Option NodeRef}

/-- The id of a node is that of another and one more segment, the value of which does not hold the
    characters that part two segments. -/
def Spells (f : Forest) (p c : NodeRef) : Prop :=
  ∃ u s, f.id? p = some u ∧ f.id? c = some (u.push s) ∧ UniqueId.Whole s.value

theorem id?_congr (h : f'.bare? r = f.bare? r) : f'.id? r = f.id? r := map_id_of_bare? h

theorem Spells.congr (h : f.Spells p c) (hp : f'.bare? p = f.bare? p)
    (hc : f'.bare? c = f.bare? c) : f'.Spells p c := by
  obtain ⟨u, s, hu, hs, hwhole⟩ := h
  exact ⟨u, s, (id?_congr hp).trans hu, (id?_congr hc).trans hs, hwhole⟩

/-- What stands right below a node is its children. -/
theorem joined_children (hg : f.Holds pp g) : g.Joined fun p c => c ∈ f.children p := by
  induction g generalizing pp with
  | nil => trivial
  | cons a b s ihb ihs =>
      obtain ⟨ha, hb, hs⟩ := hg
      refine ⟨?_, ihb hb, ihs hs⟩
      intro c hc
      rw [ha.children]
      exact hc

theorem exists_stands (hg : f.Holds pp g) (hr : r ∈ g.toList) : ∃ q, f.Stands r q (f.children r) := by
  induction g generalizing pp with
  | nil => exact absurd hr List.not_mem_nil
  | cons a b s ihb ihs =>
      obtain ⟨ha, hb, hs⟩ := hg
      rw [Grove.toList_cons, List.mem_cons, List.mem_append] at hr
      rcases hr with rfl | hr | hr
      · rw [ha.children]
        exact ⟨pp, ha⟩
      · exact ihb hb hr
      · exact ihs hs hr

section

variable (hg : f.Holds pp g) (hspell : g.Joined f.Spells)

include hspell

/-- Below roots whose ids can be told apart all ids can. -/
theorem separable_of_spelled (hroots : ∀ r ∈ g.roots, ∃ u, f.id? r = some u ∧ u.Separable)
    (hr : r ∈ g.toList) : ∃ u, f.id? r = some u ∧ u.Separable := by
  induction g with
  | nil => exact absurd hr List.not_mem_nil
  | cons a b s ihb ihs =>
      obtain ⟨ha, hb, hs⟩ := hspell
      rw [Grove.toList_cons, List.mem_cons, List.mem_append] at hr
      rcases hr with rfl | hr | hr
      · exact hroots r (by simp)
      · refine ihb hb ?_ hr
        intro c hc
        obtain ⟨u, t, hu, ht, hwhole⟩ := ha c hc
        obtain ⟨v, hv, hsep⟩ := hroots a (by simp)
        rw [hu] at hv
        cases hv
        exact ⟨_, ht, hsep.push hwhole⟩
      · exact ihs hs (fun r hr => hroots r (by simp [hr])) hr

include hg

/-- **Ids tell nodes apart** when those of the roots have one segment and are different. -/
theorem eq_of_spelled (hroots : ∀ r ∈ g.roots, ∃ s, f.id? r = some (.single s))
    (hapart : (g.roots.map f.id?).Nodup) {x y : NodeRef} (hx : x ∈ g.toList)
    (hy : y ∈ g.toList) (h : f.id? x = f.id? y) : x = y := by
  have hjoined := hspell.and (joined_children hg)
  -- by the number of segments: one less for the parents of both
  have hn : ∀ n, ∀ x ∈ g.toList, ∀ y ∈ g.toList, ∀ u, u.segments.length = n →
      f.id? x = some u → f.id? y = some u → x = y := by
    intro n
    induction n with
    | zero =>
        intro x _ y _ u hu
        exact absurd (List.length_eq_zero_iff.mp hu) u.nonempty
    | succ n ih =>
        intro x hx y hy u hu hxu hyu
        have hlong : ∀ {a c : NodeRef}, a ∈ g.roots → f.Spells c a → False := by
          rintro a c ha ⟨v, t, -, ht, -⟩
          obtain ⟨s, hs⟩ := hroots a ha
          rw [ht] at hs
          have hlen := congrArg (fun w : UniqueId => w.segments.length) (Option.some.inj hs)
          have hv := List.length_pos_iff.mpr v.nonempty
          simp only [UniqueId.segments_push, UniqueId.single, List.length_append,
            List.length_singleton] at hlen
          omega
        have hsame : ∀ {a b c : NodeRef}, a ∈ g.roots → f.id? a = some u → f.id? b = some u →
            f.Spells c b → False := by
          rintro a b c ha hau hbu ⟨v, t, hv, ht, hwhole⟩
          exact hlong ha ⟨v, t, hv, (hau.trans hbu.symm).trans ht, hwhole⟩
        rcases hjoined.root_or_joined hx with hxr | ⟨p, hp, hpx, hxp⟩
        · rcases hjoined.root_or_joined hy with hyr | ⟨q, -, hqy, -⟩
          · exact List.inj_on_of_nodup_map hapart hxr hyr (hxu.trans hyu.symm)
          · exact (hsame hxr hxu hyu hqy).elim
        · rcases hjoined.root_or_joined hy with hyr | ⟨q, hq, hqy, hyq⟩
          · exact (hsame hyr hyu hxu hpx).elim
          · obtain ⟨v, s, hv, hs, -⟩ := hpx
            obtain ⟨v', s', hv', hs', -⟩ := hqy
            rw [hxu] at hs
            rw [hyu, hs] at hs'
            have hsegments := congrArg UniqueId.segments (Option.some.inj hs')
            have hvv : v = v' := UniqueId.ext_iff.mpr (List.append_inj' hsegments rfl).1
            have hlen := congrArg (fun w : UniqueId => w.segments.length) (Option.some.inj hs)
            simp only [UniqueId.segments_push, List.length_append, List.length_singleton] at hlen
            have hpq : p = q := by
              refine ih p hp q hq v (by omega) hv ?_
              rw [hvv]
              exact hv'
            rw [← hpq] at hyq
            obtain ⟨_, hstands⟩ := exists_stands hg hp
            exact List.inj_on_of_nodup_map hstands.nodup_ids hxp hyq (hxu.trans hyu.symm)
  obtain ⟨n, hnx⟩ := exists_node_of_holds hg hx
  have hxu := id?_of_node? hnx
  exact hn _ x hx y hy n.id rfl hxu (h.symm.trans hxu)

/-- **The texts of ids tell nodes apart** when in addition no value holds the characters that part
    two segments. -/
theorem nodup_of_spelled (hnodup : g.toList.Nodup)
    (hroots : ∀ r ∈ g.roots, ∃ s, f.id? r = some (.single s) ∧ UniqueId.Whole s.value)
    (hapart : (g.roots.map f.id?).Nodup) : ((f.identifiers g.toList).map Identifier.id).Nodup := by
  refine List.Nodup.of_map some ?_
  rw [← map_idText? fun r hr => exists_node_of_holds hg hr]
  refine hnodup.map_on ?_
  intro x hx y hy h
  have hsingle : ∀ r ∈ g.roots, ∃ s, f.id? r = some (.single s) := fun r hr =>
    (hroots r hr).imp fun _ hs => hs.1
  have hseparable : ∀ r ∈ g.roots, ∃ u, f.id? r = some u ∧ u.Separable := by
    intro r hr
    obtain ⟨s, hs, hwhole⟩ := hroots r hr
    exact ⟨_, hs, UniqueId.separable_single hwhole⟩
  obtain ⟨u, hu, husep⟩ := separable_of_spelled hspell hseparable hx
  obtain ⟨v, hv, hvsep⟩ := separable_of_spelled hspell hseparable hy
  refine eq_of_spelled hg hspell hsingle hapart hx hy ?_
  have htext : ∀ {r : NodeRef} {u : UniqueId}, f.id? r = some u → f.idText? r = some u.render := by
    intro r u hr
    obtain ⟨n, hn, rfl⟩ := Option.map_eq_some_iff.mp hr
    rw [idText?, hn]
    rfl
  rw [htext hu, htext hv] at h
  rw [hu, hv, husep.eq_of_render hvsep (Option.some.inj h)]

end

end Forest

end TestLauncher
