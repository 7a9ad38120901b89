import TestLauncher.Proofs.Forest.Links
import TestLauncher.Proofs.Forest.Rooted
import Mathlib.Data.Set.Function
import Mathlib.Data.Set.Insert

/-! # Forests that are alike

    Some nodes of one forest may be found again in another: under names that tell them
    apart, with the same descriptions, and linked to each other in the same way (`Alike`).
    What else the two forests hold does not matter.  Calls on such nodes do the same in both
    and leave them alike (`Alike.addChild`, `Alike.detach`), and trees of such nodes look the
    same, however deep one looks (`Alike.picture_eq`). -/

namespace TestLauncher

/-- The node with other names for those it is linked to. -/
def Node.renamed (φ : NodeRef → NodeRef) (n : Node) : Node :=
  { n with parent := n.parent.map φ, children := n.children.map φ }

/-- Without other names the node stays as it is. -/
theorem Node.renamed_self (n : Node) : n.renamed (fun r => r) = n := by
  have hparent : n.parent.map (fun r => r) = n.parent := Option.map_id_apply
  have hchildren : n.children.map (fun r => r) = n.children :=
    OrderedMap.ext_toList (List.map_id' _)
  rw [renamed, hparent, hchildren]

/-- A node whose links lead to given nodes only. -/
structure Node.Within (known : Set NodeRef) (n : Node) : Prop where
  parent : ∀ p, n.parent = some p → p ∈ known
  child : ∀ c ∈ n.children.values, c ∈ known

namespace Node.Within

variable {known : Set NodeRef} {n : Node}

/-- A node within known nodes is within more of them. -/
theorem mono {more : Set NodeRef} (h : n.Within known) (hsub : known ⊆ more) : n.Within more :=
  ⟨fun p hp => hsub (h.parent p hp), fun c hc => hsub (h.child c hc)⟩

/-- Only the names of known nodes matter. -/
theorem renamed_congr {φ ψ : NodeRef → NodeRef} (h : n.Within known)
    (hψ : ∀ r ∈ known, ψ r = φ r) : n.renamed ψ = n.renamed φ := by
  have hparent : n.parent.map ψ = n.parent.map φ :=
    Option.map_congr fun p hp => hψ p (h.parent p hp)
  have hchildren : n.children.map ψ = n.children.map φ := by
    refine OrderedMap.ext_toList (List.map_congr_left fun e he => ?_)
    rw [hψ e.2 (h.child e.2 (List.mem_map_of_mem he))]
  rw [renamed, renamed, hparent, hchildren]

end Node.Within

namespace Forest

/-- The known nodes of a forest are found again in another. -/
structure Alike (known : Set NodeRef) (φ : NodeRef → NodeRef) (f g : Forest) : Prop where
  injective : Set.InjOn φ known
  node : ∀ r ∈ known, ∃ n, f.node? r = some n ∧ g.node? (φ r) = some (n.renamed φ) ∧
    n.Within known

/-- The tree below a node, as deep as one looks, with the descriptions of its nodes. -/
def picture (f : Forest) (depth : Nat) (r : NodeRef) : Grove (Option Node) :=
  (Grove.tree r (f.belowFrom depth r)).map f.bare?

/-- The nodes that stand behind a forest. -/
def behind (f k : Forest) : Set NodeRef := {r | ∃ s : NodeRef, s.index < k.size ∧ s.shift f.size = r}

/-- Other names for the nodes of a forest, and for those behind it the places they have behind
another. -/
def through (φ : NodeRef → NodeRef) (f g : Forest) (r : NodeRef) : NodeRef :=
  if r.index < f.size then φ r else ⟨g.size + (r.index - f.size)⟩

/-- Behind a forest a node takes the same place behind the other. -/
theorem through_shift (φ : NodeRef → NodeRef) (f g : Forest) (r : NodeRef) :
    through φ f g (r.shift f.size) = r.shift g.size := by
  rw [through, if_neg (by simp [NodeRef.shift])]
  simp [NodeRef.shift]

/-- A node behind a forest is renamed to the node behind the other. -/
theorem renamed_through (φ : NodeRef → NodeRef) (f g : Forest) (n : Node) :
    (n.shift f.size).renamed (through φ f g) = n.shift g.size := by
  have hparent : (n.parent.map (NodeRef.shift f.size)).map (through φ f g)
      = n.parent.map (NodeRef.shift g.size) := by
    rw [Option.map_map]
    exact congrArg (Option.map · n.parent) (funext (through_shift φ f g))
  have hchildren : (n.children.map (NodeRef.shift f.size)).map (through φ f g)
      = n.children.map (NodeRef.shift g.size) := by
    refine OrderedMap.ext_toList ?_
    simp only [OrderedMap.map, List.map_map]
    refine List.map_congr_left fun e _ => ?_
    exact congrArg (Prod.mk e.1) (through_shift φ f g e.2)
  rw [Node.renamed, Node.shift, hparent, hchildren, Node.shift]

variable {known : Set NodeRef} {φ : NodeRef → NodeRef} {f f' g g' : Forest} {p c r s : NodeRef}
  {n : Node}

/-- A forest is like itself, as far as links lead from known nodes to known nodes. -/
theorem alike_refl (h : ∀ r ∈ known, ∃ n, f.node? r = some n ∧ n.Within known) :
    Alike known id f f := by
  refine ⟨Set.injOn_id known, ?_⟩
  intro r hr
  obtain ⟨n, hn, hwithin⟩ := h r hr
  exact ⟨n, hn, hn.trans (congrArg some n.renamed_self.symm), hwithin⟩

/-! ## Reading -/

namespace Alike

variable (h : Alike known φ f g)

include h

/-- Known nodes with one name are one node. -/
theorem eq_iff (hr : r ∈ known) (hs : s ∈ known) : φ r = φ s ↔ r = s :=
  ⟨fun e => h.injective hr hs e, congrArg φ⟩

/-- A link leads to a known node when the renamed link leads to its name. -/
theorem map_eq_some_iff {x : Option NodeRef} (hx : ∀ s, x = some s → s ∈ known) (hr : r ∈ known) :
    x.map φ = some (φ r) ↔ x = some r := by
  cases x with
  | none => exact iff_of_false nofun nofun
  | some s =>
      rw [Option.map_some, Option.some.injEq, Option.some.injEq]
      exact h.eq_iff (hx s rfl) hr

/-- A known node is found under its name, with its links renamed. -/
theorem node?_eq (hr : r ∈ known) : g.node? (φ r) = (f.node? r).map (Node.renamed φ) := by
  obtain ⟨n, hn, hn', -⟩ := h.node r hr
  rw [hn, hn']
  rfl

/-- A known node is there. -/
theorem index_lt (hr : r ∈ known) : r.index < f.size := by
  obtain ⟨n, hn, -⟩ := h.node r hr
  exact (f.node?_isSome_iff r).mp (by rw [hn]; rfl)

/-- So is the node of its name. -/
theorem index_lt_renamed (hr : r ∈ known) : (φ r).index < g.size := by
  obtain ⟨n, -, hn', -⟩ := h.node r hr
  exact (g.node?_isSome_iff (φ r)).mp (by rw [hn']; rfl)

/-- A known node keeps its id. -/
theorem id?_eq (hr : r ∈ known) : g.id? (φ r) = f.id? r := by
  rw [id?, id?, h.node?_eq hr, Option.map_map]
  rfl

/-- A filter sees of a known node what it sees of its likeness. -/
theorem bare?_eq (hr : r ∈ known) : g.bare? (φ r) = f.bare? r := by
  rw [bare?, bare?, h.node?_eq hr, Option.map_map]
  rfl

/-- A known node is a test when its likeness is one. -/
theorem isTest_eq (hr : r ∈ known) : g.isTest (φ r) = f.isTest r := by
  rw [isTest, isTest, h.node?_eq hr]
  cases f.node? r <;> rfl

/-- A child is found by the same id, under its name. -/
theorem child?_eq (hr : r ∈ known) (id : UniqueId) : g.child? (φ r) id = (f.child? r id).map φ := by
  rw [child?, child?, h.node?_eq hr]
  cases f.node? r with
  | none => rfl
  | some n => exact OrderedMap.get?_map ..

/-- The children of the likeness are the children under their names. -/
theorem children_eq (hr : r ∈ known) : g.children (φ r) = (f.children r).map φ := by
  rw [children, children, h.node?_eq hr]
  cases f.node? r with
  | none => rfl
  | some n => exact OrderedMap.values_map ..

/-- The children of a known node are known. -/
theorem mem_of_child (hr : r ∈ known) (hc : c ∈ f.children r) : c ∈ known := by
  obtain ⟨n, hn, -, hwithin⟩ := h.node r hr
  rw [children, hn] at hc
  exact hwithin.child c hc

/-- So is a child that is found by its id. -/
theorem mem_of_child? {id : UniqueId} (hr : r ∈ known) (hc : f.child? r id = some c) : c ∈ known :=
  h.mem_of_child hr (mem_children_iff.mpr ⟨id, hc⟩)

/-- Nodes that are found again look the same with all that is below them. -/
theorem picture_eq (hr : r ∈ known) (depth : Nat) : g.picture depth (φ r) = f.picture depth r := by
  have hbelow : ∀ depth, ∀ r ∈ known,
      (g.belowFrom depth (φ r)).map g.bare? = (f.belowFrom depth r).map f.bare? := by
    intro depth
    induction depth with
    | zero => exact fun _ _ => rfl
    | succ depth ih =>
        intro r hr
        have hrow : ∀ rs : List NodeRef, (∀ c ∈ rs, c ∈ known) →
            (g.rowFrom depth (rs.map φ)).map g.bare? = (f.rowFrom depth rs).map f.bare? := by
          intro rs hrs
          induction rs with
          | nil => rfl
          | cons c rs ihrs =>
              have hc : c ∈ known := hrs c (by simp)
              rw [List.map_cons, rowFrom_cons, rowFrom_cons, Grove.map, Grove.map, ih c hc,
                ihrs fun d hd => hrs d (by simp [hd]), h.bare?_eq hc]
        rw [belowFrom_succ, belowFrom_succ, h.children_eq hr]
        exact hrow _ fun c hc => h.mem_of_child hr hc
  rw [picture, picture, Grove.map_tree, Grove.map_tree, hbelow depth r hr, h.bare?_eq hr]

/-! ## Writing -/

/-- What happens to other nodes of the first forest does not matter. -/
theorem congr (hf : ∀ r ∈ known, f'.node? r = f.node? r) : Alike known φ f' g := by
  refine ⟨h.injective, ?_⟩
  intro r hr
  rw [hf r hr]
  exact h.node r hr

/-- A node may change in both forests as long as its links lead to known nodes. -/
theorem modify (hr : r ∈ known) {change change' : Node → Node}
    (hchange : ∀ n, n.Within known → change' (n.renamed φ) = (change n).renamed φ)
    (hwithin : ∀ n, n.Within known → (change n).Within known) :
    Alike known φ (f.modify r change) (g.modify (φ r) change') := by
  refine ⟨h.injective, ?_⟩
  intro s hs
  obtain ⟨n, hn, hn', hw⟩ := h.node s hs
  rw [node?_modify, node?_modify, hn, hn']
  by_cases he : r = s
  · rw [if_pos he, if_pos (congrArg φ he)]
    exact ⟨change n, rfl, congrArg some (hchange n hw), hwithin n hw⟩
  · rw [if_neg he, if_neg fun e => he ((h.eq_iff hr hs).mp e)]
    exact ⟨n, rfl, rfl, hw⟩

/-- A known node gets a known parent, or none. -/
theorem setParent (hc : c ∈ known) {p : Option NodeRef} (hp : ∀ q, p = some q → q ∈ known) :
    Alike known φ (f.setParent c p) (g.setParent (φ c) (p.map φ)) :=
  h.modify hc (fun _ _ => rfl) fun _ hw => ⟨hp, hw.child⟩

/-- Forgetting a child keeps forests alike. -/
theorem dropChild (hp : p ∈ known) (id : UniqueId) :
    Alike known φ (f.dropChild p id) (g.dropChild (φ p) id) := by
  refine h.modify hp (fun n _ => ?_) fun n hw => ⟨hw.parent, ?_⟩
  · rw [Node.renamed, OrderedMap.erase_map]
    rfl
  · exact fun c hc => hw.child c (OrderedMap.mem_values_erase hc)

/-- Keeping a child keeps forests alike. -/
theorem keepChild (hp : p ∈ known) (hc : c ∈ known) (id : UniqueId) :
    Alike known φ (f.keepChild p id c) (g.keepChild (φ p) id (φ c)) := by
  refine h.modify hp (fun n _ => ?_) fun n hw => ⟨hw.parent, ?_⟩
  · rw [Node.renamed, OrderedMap.insert_map]
    rfl
  · intro d hd
    rcases OrderedMap.mem_values_insert hd with rfl | hd
    · exact hc
    · exact hw.child d hd

/-- Taking a child out keeps forests alike. -/
theorem removeChild (hp : p ∈ known) (hc : c ∈ known) :
    Alike known φ (f.removeChild p c) (g.removeChild (φ p) (φ c)) := by
  obtain ⟨n, hn, hn', -⟩ := h.node c hc
  by_cases hkept : f.child? p n.id = some c
  · have hkept' : g.child? (φ p) (n.renamed φ).id = some (φ c) := by
      show g.child? (φ p) n.id = _
      rw [h.child?_eq hp, hkept]
      rfl
    rw [removeChild_kept hn hkept, removeChild_kept hn' hkept']
    exact (h.dropChild hp n.id).setParent hc nofun
  · have hkept' : ¬ g.child? (φ p) (n.renamed φ).id = some (φ c) := by
      show ¬ g.child? (φ p) n.id = _
      rw [h.child?_eq hp, h.map_eq_some_iff (fun s hs => h.mem_of_child? hp hs) hc]
      exact hkept
    have hf : f.removeChild p c = f := by
      rw [Forest.removeChild, hn]
      exact if_neg hkept
    have hg : g.removeChild (φ p) (φ c) = g := by
      rw [Forest.removeChild, hn']
      exact if_neg hkept'
    rw [hf, hg]
    exact h

/-- A known node is taken in below another in both forests. -/
theorem addChild (hp : p ∈ known) (hc : c ∈ known) (hadd : f.addChild p (some c) = .ok f') :
    ∃ g', g.addChild (φ p) (some (φ c)) = .ok g' ∧ Alike known φ f' g' := by
  obtain ⟨q, hq, hq', -⟩ := h.node p hp
  obtain ⟨n, hn, hn', hwithin⟩ := h.node c hc
  have hlink : ∀ {f g : Forest}, Alike known φ f g →
      Alike known φ (f.link p c n.id) (g.link (φ p) (φ c) n.id) := by
    intro f g hfg
    have hparent : Alike known φ (f.setParent c (some p)) (g.setParent (φ c) (some (φ p))) :=
      hfg.setParent hc fun r hr => Option.some.inj hr ▸ hp
    exact hparent.keepChild hp hc n.id
  rw [Forest.addChild] at hadd ⊢
  split at hadd
  · cases hadd
  rename_i hcp
  rw [if_neg fun e => hcp ((h.eq_iff hc hp).mp e)]
  rw [hq, hn] at hadd
  rw [hq', hn']
  dsimp only at hadd ⊢
  split at hadd
  · cases hadd
  rename_i hfree
  -- an id is free in both forests, or kept by the same node
  have hfree' : ¬ ((q.renamed φ).children.get? (n.renamed φ).id).any (· ≠ φ c) = true := by
    show ¬ ((q.children.map φ).get? n.id).any (· ≠ φ c) = true
    rw [OrderedMap.get?_map]
    cases hd : q.children.get? n.id with
    | none => exact Bool.false_ne_true
    | some d =>
        rw [hd] at hfree
        have hdc : d = c := by simpa using hfree
        simp [hdc]
  rw [if_neg hfree']
  cases hadd
  refine ⟨_, rfl, ?_⟩
  show Alike known φ (Forest.link _ p c n.id) (Forest.link _ (φ p) (φ c) n.id)
  refine hlink ?_
  rw [show (n.renamed φ).parent = n.parent.map φ from rfl]
  cases ho : n.parent with
  | none => exact h
  | some o =>
      have hok : o ∈ known := hwithin.parent o ho
      dsimp only [Option.map_some]
      by_cases hop : o = p
      · rw [if_pos hop, if_pos (congrArg φ hop)]
        exact h
      · rw [if_neg hop, if_neg fun e => hop ((h.eq_iff hok hp).mp e)]
        exact h.removeChild hok hc

/-- A known node is taken away in both forests. -/
theorem detach (hr : r ∈ known) (hd : f.detach r = .ok f') :
    ∃ g', g.detach (φ r) = .ok g' ∧ Alike known φ f' g' := by
  have hfold : ∀ (cs : List NodeRef) {f g : Forest}, (∀ c ∈ cs, c ∈ known) → Alike known φ f g →
      Alike known φ (cs.foldl (fun f c => f.removeChild r c) f)
        ((cs.map φ).foldl (fun g c => g.removeChild (φ r) c) g) := by
    intro cs
    induction cs with
    | nil => exact fun _ hfg => hfg
    | cons c cs ih =>
        intro f g hcs hfg
        exact ih (fun d hd => hcs d (by simp [hd])) (hfg.removeChild hr (hcs c (by simp)))
  obtain ⟨n, hn, hn', hwithin⟩ := h.node r hr
  rw [Forest.detach, hn] at hd
  rw [Forest.detach, hn']
  dsimp only at hd ⊢
  cases hp : n.parent with
  | none =>
      rw [hp] at hd
      cases hd
  | some p =>
      rw [hp] at hd
      have hp' : (n.renamed φ).parent = some (φ p) := by
        rw [Node.renamed, hp]
        rfl
      rw [hp']
      cases hd
      have hcut := h.removeChild (hwithin.parent p hp) hr
      refine ⟨_, rfl, ?_⟩
      rw [hcut.children_eq hr]
      exact hfold _ (fun c hc => hcut.mem_of_child hr hc) hcut

/-- Names for other nodes do not matter. -/
theorem congr_names {ψ : NodeRef → NodeRef} (hψ : ∀ r ∈ known, ψ r = φ r) :
    Alike known ψ f g := by
  refine ⟨fun r hr s hs e => h.injective hr hs (by rwa [hψ r hr, hψ s hs] at e), ?_⟩
  intro r hr
  obtain ⟨n, hn, hn', hwithin⟩ := h.node r hr
  rw [hψ r hr]
  exact ⟨n, hn, by rw [hwithin.renamed_congr hψ, hn'], hwithin⟩

/-- The nodes that stand behind both forests are found again as well. -/
theorem after {k : Forest} (hk : k.Ordered) :
    Alike (known ∪ behind f k) (through φ f g) (f.after k) (g.after k) := by
  have h' := h.congr_names (ψ := through φ f g) fun r hr => if_pos (h.index_lt hr)
  have hapart : ∀ r ∈ known, ∀ s : NodeRef, through φ f g r ≠ s.shift g.size := by
    intro r hr s e
    have hlt := h'.index_lt_renamed hr
    rw [e, NodeRef.shift] at hlt
    exact absurd hlt (by simp)
  refine ⟨?_, ?_⟩
  · rintro r (hr | ⟨r, -, rfl⟩) s (hs | ⟨s, -, rfl⟩) e
    · exact h'.injective hr hs e
    · exact absurd (e.trans (through_shift φ f g s)) (hapart r hr s)
    · exact absurd (e.symm.trans (through_shift φ f g r)) (hapart s hs r)
    · rw [through_shift, through_shift, NodeRef.shift_inj] at e
      rw [e]
  · rintro r (hr | ⟨s, hs, rfl⟩)
    · obtain ⟨n, hn, hn', hwithin⟩ := h'.node r hr
      refine ⟨n, ?_, ?_, hwithin.mono Set.subset_union_left⟩
      · rw [node?_after_old f k (h.index_lt hr), hn]
      · rw [node?_after_old g k (h'.index_lt_renamed hr), hn']
    · obtain ⟨n, hn⟩ := Option.isSome_iff_exists.mp ((k.node?_isSome_iff s).mpr hs)
      refine ⟨n.shift f.size, ?_, ?_, ?_, ?_⟩
      · rw [node?_after, hn]
        rfl
      · rw [through_shift, node?_after, hn, renamed_through]
        rfl
      · intro p hp
        obtain ⟨q, hq, rfl⟩ := Option.map_eq_some_iff.mp hp
        have hlt := hk.up s q ((parent?_of_node? hn).trans hq)
        exact Or.inr ⟨q, Nat.lt_trans hlt hs, rfl⟩
      · intro c hc
        rw [Node.shift, OrderedMap.values_map] at hc
        obtain ⟨d, hd, rfl⟩ := List.mem_map.mp hc
        have hmem : d ∈ k.children s := by
          rw [children, hn]
          exact hd
        exact Or.inr ⟨d, (hk.down s d hmem).2, rfl⟩

end Alike

end Forest

end TestLauncher
