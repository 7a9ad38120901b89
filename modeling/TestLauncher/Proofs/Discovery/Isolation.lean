import TestLauncher.Proofs.Discovery.Account
import TestLauncher.Proofs.Engine.Catalogue
import TestLauncher.Proofs.Forest.Lockstep
import Mathlib.Data.List.Pairwise

/-! # Engines that keep to themselves

    An engine keeps to itself (`Engine.Alone`) when it changes no nodes but its own and those it
    adds, and does the same wherever these and its part of the common state are the same.
    Engines are separate (`Separate`) when each keeps to itself, no two own a node together,
    and none changes what another knows.

    Then an engine that is left out of the result might as well not have been there
    (`ofRequest_isolated`).  The request is resolved a second time with the engines that
    ended up in the result, and the two resolutions go abreast (`Abreast`): the nodes of these
    engines are found again, though under other names as less is stored before them, and
    the turns of the others pass without a trace.  The trees that come out look the same, and
    nothing is written but lines for debugging. -/

namespace TestLauncher

/-- More nodes are known, and all of them are new; the others keep their names. -/
structure Further (known : Set NodeRef) (φ : NodeRef → NodeRef) (size : Nat)
    (known' : Set NodeRef) (φ' : NodeRef → NodeRef) : Prop where
  old : known ⊆ known'
  names : ∀ r ∈ known, φ' r = φ r
  fresh : ∀ r ∈ known', r ∈ known ∨ size ≤ r.index

namespace Further

variable {known known' known'' : Set NodeRef} {φ φ' φ'' : NodeRef → NodeRef} {m n : Nat}

theorem refl (known : Set NodeRef) (φ : NodeRef → NodeRef) (n : Nat) :
    Further known φ n known φ :=
  ⟨Set.Subset.refl known, fun _ _ => rfl, fun _ hr => Or.inl hr⟩

theorem trans (h : Further known φ n known' φ') (h' : Further known' φ' m known'' φ'')
    (hle : n ≤ m) : Further known φ n known'' φ'' := by
  refine ⟨h.old.trans h'.old, fun r hr => ?_, fun r hr => ?_⟩
  · rw [h'.names r (h.old hr), h.names r hr]
  · rcases h'.fresh r hr with hr | hr
    · exact h.fresh r hr
    · exact Or.inr (Nat.le_trans hle hr)

end Further

variable {κ ω ρ σ : Type}

/-- An engine that changes no nodes but its own and those it adds, and does the same wherever its
own nodes and its part of the state are the same. -/
structure Engine.Alone (own : Set NodeRef) (part : κ → σ) (e : Engine κ) : Prop where
  grows : ∀ request id s, s.1.size ≤ ((e.discover request id).on s).2.1.size
  leaves : ∀ request id s r, r.index < s.1.size → r ∉ own →
    ((e.discover request id).on s).2.1.node? r = s.1.node? r
  /-- Where its own nodes are found again in their places and it knows the same, it returns a tree
  that is alike. -/
  alike : ∀ request id {known : Set NodeRef} {φ : NodeRef → NodeRef} {s s' t : Forest × κ}
    {r : NodeRef}, s.1.Alike known φ s'.1 → own ⊆ known → (∀ x ∈ own, φ x = x) →
      part s.2 = part s'.2 → (e.discover request id).on s = (.ok (some r), t) →
      ∃ t' known' φ', (e.discover request id).on s' = (.ok (some (φ' r)), t') ∧
        t.1.Alike known' φ' t'.1 ∧ r ∈ known' ∧ Further known φ s.1.size known' φ'

/-- Engines that keep to themselves, and share neither nodes nor what they know. -/
structure Separate (own : Engine κ → Set NodeRef) (part : Engine κ → κ → σ) (f : Forest)
    (suite? : Option NodeRef) (engines : List (Engine κ)) : Prop where
  alone : ∀ e ∈ engines, e.Alone (own e) (part e)
  stored : ∀ e ∈ engines, ∀ r ∈ own e, r.index < f.size
  /-- Nodes that are linked have the same owner. -/
  linked : ∀ e ∈ engines, ∀ c p, f.parent? c = some p → (c ∈ own e ↔ p ∈ own e)
  suite : ∀ p, suite? = some p → p.index < f.size ∧ ∀ e ∈ engines, p ∉ own e
  nodes : engines.Pairwise fun e e' => ∀ r ∈ own e, r ∉ own e'
  states : engines.Pairwise fun e e' => ∀ request id s,
    part e' ((e.discover request id).on s).2.2 = part e' s.2

/-- The stored nodes that none of some engines owns. -/
def spared (own : Engine κ → Set NodeRef) (f : Forest) (dropped : Set (Engine κ)) : Set NodeRef :=
  {r | r.index < f.size ∧ ∀ e ∈ dropped, r ∉ own e}

/-- No link leads from a node that is spared to one that is not. -/
theorem Separate.alike_spared {own : Engine κ → Set NodeRef} {part : Engine κ → κ → σ}
    {f : Forest} {suite? : Option NodeRef} {engines : List (Engine κ)} {dropped : Set (Engine κ)}
    (h : Separate own part f suite? engines) (hf : f.Linked)
    (hdropped : ∀ e ∈ dropped, e ∈ engines) :
    f.Alike (spared own f dropped) id f := by
  have hstored : ∀ r n, f.node? r = some n → r.index < f.size := fun r n hr =>
    (f.node?_isSome_iff r).mp (by rw [hr]; rfl)
  refine Forest.alike_refl fun r hr => ?_
  obtain ⟨hlt, hspared⟩ := hr
  obtain ⟨n, hn⟩ := Option.isSome_iff_exists.mp ((f.node?_isSome_iff r).mpr hlt)
  refine ⟨n, hn, ?_, ?_⟩
  · intro p hp
    have hparent : f.parent? r = some p := (Forest.parent?_of_node? hn).trans hp
    refine ⟨?_, fun e he hown => hspared e he ((h.linked e (hdropped e he) r p hparent).mpr hown)⟩
    have hkept := (hf.kept_iff p n.id r).mpr ⟨Forest.id?_of_node? hn, hparent⟩
    obtain ⟨q, hq, -⟩ := Option.bind_eq_some_iff.mp hkept
    exact hstored p q hq
  · intro c hc
    have hparent : f.parent? c = some r := by
      rw [← hf.mem_children_iff, Forest.children, hn]
      exact hc
    refine ⟨?_, fun e he hown => hspared e he ((h.linked e (hdropped e he) c r hparent).mp hown)⟩
    obtain ⟨m, hm, -⟩ := Option.bind_eq_some_iff.mp hparent
    exact hstored c m hm

/-! ## Engines that own nothing -/

/-- An engine that builds the same tree wherever it builds keeps to itself, and owns nothing. -/
theorem Engine.Placeless.alone {e : Engine κ} (h : e.Placeless) :
    e.Alone (∅ : Set NodeRef) fun _ => () := by
  -- what it does to a forest is what it does to the empty one, behind that forest
  have hbehind : ∀ request id (x : κ) (s : Forest × κ), ∃ g : Forest, g.Ordered ∧
      g = ((e.discover request id).on (∅, x)).2.1 ∧
      ((e.discover request id).on s).2.1 = s.1.after g ∧
      EndAlike (fun r? r?' => (∀ r ∈ r?, r.index < g.size) ∧ r?' = r?.map (NodeRef.shift s.1.size))
        ((e.discover request id).on (∅, x)).1 ((e.discover request id).on s).1 := by
    intro request id x s
    obtain ⟨hforest, hordered, -, hend⟩ := h s.1 0 request id (∅, x) s
      (Forest.after_empty s.1).symm Forest.ordered_empty rfl
    refine ⟨_, hordered, rfl, hforest, ?_⟩
    generalize ((e.discover request id).on (∅, x)).1 = a at hend
    generalize ((e.discover request id).on s).1 = b at hend
    cases hend with
    | error f => exact .error f
    | ok hr => exact .ok ⟨fun r hr' => (hr.1 r hr').2, hr.2⟩
  refine ⟨?_, ?_, ?_⟩
  · intro request id s
    obtain ⟨g, -, -, hg, -⟩ := hbehind request id s.2 s
    rw [hg, Forest.size_after]
    exact Nat.le_add_right _ _
  · intro request id s r hr _
    obtain ⟨g, -, -, hg, -⟩ := hbehind request id s.2 s
    rw [hg, Forest.node?_after_old s.1 g hr]
  · intro request id known φ s s' t r halike _ _ _ hon
    obtain ⟨g, hordered, hg, hforest, hend⟩ := hbehind request id s.2 s
    obtain ⟨g', -, hg', hforest', hend'⟩ := hbehind request id s.2 s'
    obtain rfl : g' = g := hg'.trans hg.symm
    rcases hon' : (e.discover request id).on s' with ⟨result, t'⟩
    rw [hon] at hforest hend
    rw [hon'] at hforest' hend'
    dsimp only at hforest hend hforest' hend'
    generalize ((e.discover request id).on (∅, s.2)).1 = a at hend hend'
    cases hend with
    | @ok r₀? _ hr =>
        cases hend' with
        | @ok _ r? hr' =>
            obtain ⟨r₀, rfl, rfl⟩ := Option.map_eq_some_iff.mp hr.2.symm
            have hroot := hr.1 r₀ rfl
            refine ⟨t', known ∪ Forest.behind s.1 g', Forest.through φ s.1 s'.1, ?_, ?_, ?_, ?_⟩
            · rw [Forest.through_shift, hr'.2]
              rfl
            · rw [hforest, hforest']
              exact halike.after hordered
            · exact Or.inr ⟨r₀, hroot, rfl⟩
            · refine ⟨Set.subset_union_left, fun x hx => if_pos (halike.index_lt hx), ?_⟩
              rintro x (hx | ⟨y, -, rfl⟩)
              · exact Or.inl hx
              · exact Or.inr (Nat.le_add_right _ _)

theorem separate_of_placeless {f : Forest} {suite? : Option NodeRef} {engines : List (Engine κ)}
    (h : ∀ e ∈ engines, e.Placeless) (hsuite : ∀ p, suite? = some p → p.index < f.size) :
    Separate (fun _ => ∅) (fun _ _ => ()) f suite? engines where
  alone e he := (h e he).alone
  stored _ _ _ hr := absurd hr (Set.notMem_empty _)
  linked _ _ _ _ _ := Iff.rfl
  suite p hp := ⟨hsuite p hp, fun _ _ => Set.notMem_empty p⟩
  nodes := List.pairwise_of_forall fun _ _ => nofun
  states := List.pairwise_of_forall fun _ _ _ _ _ => rfl

namespace Resolution

/-! ## Two resolutions abreast -/

/-- Two worlds on the way, one with some engines more than the other.  The nodes of the others are
found again, those from the start in their places; and the engines whose turns are still to come
know the same in both. -/
structure Abreast (part : Engine κ → κ → σ) (base : Set NodeRef) (size : Nat)
    (known : Set NodeRef) (φ : NodeRef → NodeRef) (engines : List (Engine κ))
    (u u' : World κ ω ρ) : Prop where
  alike : u.forest.Alike known φ u'.forest
  further : Further base id size known φ
  size : size ≤ u.forest.size
  state : ∀ e ∈ engines, part e u.engines = part e u'.engines

variable {own : Engine κ → Set NodeRef} {part : Engine κ → κ → σ} {base known : Set NodeRef}
  {size : Nat} {φ : NodeRef → NodeRef} {e : Engine κ} {es : List (Engine κ)}
  {strict : Bool} {phase : Phase} {rooted : RootedRequest} {fate : Fate}
  {u u' v w w' : World κ ω ρ}

/-- A turn in which nothing is recorded leaves the world as it was, or as the engine left it. -/
theorem Turn.of_dropped (h : Turn phase strict rooted u e fate v) (hfate : fate.root? = none) :
    (v.forest, v.engines) = (u.forest, u.engines) ∨ ∃ request id,
      (v.forest, v.engines) = ((e.discover request id).on (u.forest, u.engines)).2 := by
  cases h with
  | excluded => exact Or.inl rfl
  | failed h _ | rootless h _ =>
      obtain ⟨-, id, -, hd⟩ := h
      exact Or.inr ⟨_, id, by rw [hd]; rfl⟩
  | recorded | placed => cases hfate

/-- The turn of an engine that is left out passes without a trace. -/
theorem Abreast.drop (h : Abreast part base size known φ (e :: es) u u')
    (halone : e.Alone (own e) (part e)) (hold : ∀ r ∈ own e, r.index < size)
    (hbase : ∀ r ∈ own e, r ∉ base)
    (hstates : ∀ e' ∈ es, ∀ request id s, part e' ((e.discover request id).on s).2.2 = part e' s.2)
    (hturn : Turn phase strict rooted u e fate v) (hfate : fate.root? = none) :
    Abreast part base size known φ es v u' := by
  have hstate : ∀ e' ∈ es, part e' u.engines = part e' u'.engines :=
    fun e' he' => h.state e' (by simp [he'])
  rcases hturn.of_dropped hfate with heq | ⟨request, id, heq⟩
  · injection heq with hforest hengines
    refine ⟨hforest ▸ h.alike, h.further, hforest ▸ h.size, ?_⟩
    rw [hengines]
    exact hstate
  · have hforest := congrArg Prod.fst heq
    have hengines := congrArg Prod.snd heq
    dsimp only at hforest hengines
    refine ⟨h.alike.congr ?_, h.further, ?_, ?_⟩
    · intro r hr
      rw [hforest]
      refine halone.leaves request id (u.forest, u.engines) r (h.alike.index_lt hr) ?_
      -- a known node was there at first, or is newer than what the engine owns
      intro hown
      rcases h.further.fresh r hr with hr | hr
      · exact hbase r hown hr
      · exact absurd (hold r hown) (Nat.not_lt.mpr hr)
    · rw [hforest]
      exact Nat.le_trans h.size (halone.grows request id (u.forest, u.engines))
    · intro e' he'
      rw [hengines, hstates e' he']
      exact hstate e' he'

/-- An engine that returns a root in one world returns the same tree in the other. -/
theorem Abreast.reply {root : NodeRef} {s : Forest × κ}
    (h : Abreast part base size known φ (e :: es) u u') (halone : e.Alone (own e) (part e))
    (hbase : own e ⊆ base) (hsuite : ∀ p, rooted.suite? = some p → p ∈ base)
    (hreplies : Replies rooted u e (.ok (some root)) s) :
    ∃ s' known' φ', Replies rooted u' e (.ok (some (φ' root))) s' ∧
      s.1.Alike known' φ' s'.1 ∧ root ∈ known' ∧ Further known φ size known' φ' := by
  obtain ⟨hex, id, hid, hd⟩ := hreplies
  have hid' : rootId ((rooted.suite?.bind u'.forest.node?).map Node.id) e.id = .ok id := by
    cases hs : rooted.suite? with
    | none =>
        rw [hs] at hid
        exact hid
    | some p =>
        have hp : p ∈ known := h.further.old (hsuite p hs)
        have hpid := h.alike.id?_eq hp
        rw [h.further.names p (hsuite p hs)] at hpid
        rw [hs] at hid
        rw [Option.bind_some] at hid ⊢
        rw [← hid]
        exact congrArg (fun x => rootId x e.id) hpid
  have hforest : (u.forest, u.engines).1.Alike known φ (u'.forest, u'.engines).1 := h.alike
  obtain ⟨s', known', φ', hd', halike, hroot, hfurther⟩ := halone.alike rooted.request id hforest
    (hbase.trans h.further.old) (fun x hx => h.further.names x (hbase hx)) (h.state e (by simp)) hd
  exact ⟨s', known', φ', ⟨hex, id, hid', hd'⟩, halike, hroot, hfurther.old, hfurther.names,
    fun r hr => (hfurther.fresh r hr).imp_right (Nat.le_trans h.size)⟩

/-- The turn of an engine that is recorded is taken in both. -/
theorem Abreast.record {root : NodeRef} (h : Abreast part base size known φ (e :: es) u u')
    (halone : e.Alone (own e) (part e)) (hbase : own e ⊆ base)
    (hsuite : ∀ p, rooted.suite? = some p → p ∈ base)
    (hstates : ∀ e' ∈ es, ∀ request id s, part e' ((e.discover request id).on s).2.2 = part e' s.2)
    (hturn : Turn phase strict rooted u e (.recorded root) v) :
    ∃ known' φ' v', Turn phase strict rooted u' e (.recorded (φ' root)) v' ∧
      Abreast part base size known' φ' es v v' ∧ root ∈ known' ∧
      Further known φ size known' φ' := by
  have hsame : ∀ {s s' : Forest × κ} {root' : NodeRef},
      Replies rooted u e (.ok (some root)) s → Replies rooted u' e (.ok (some root')) s' →
      size ≤ s.1.size ∧ ∀ e' ∈ es, part e' s.2 = part e' s'.2 := by
    rintro s s' root' ⟨-, id, -, hd⟩ ⟨-, id', -, hd'⟩
    have hgrows := halone.grows rooted.request id (u.forest, u.engines)
    rw [hd] at hgrows
    refine ⟨Nat.le_trans h.size hgrows, ?_⟩
    intro e' he'
    have hleft := hstates e' he' rooted.request id (u.forest, u.engines)
    have hright := hstates e' he' rooted.request id' (u'.forest, u'.engines)
    rw [hd] at hleft
    rw [hd'] at hright
    exact hleft.trans ((h.state e' (by simp [he'])).trans hright.symm)
  cases hturn with
  | recorded hreplies hs =>
      obtain ⟨s', known', φ', hreplies', halike, hroot, hfurther⟩ :=
        h.reply halone hbase hsuite hreplies
      obtain ⟨hsize, hstate⟩ := hsame hreplies hreplies'
      exact ⟨known', φ', _, .recorded hreplies' hs,
        ⟨halike, h.further.trans hfurther (Nat.le_refl size), hsize, hstate⟩, hroot, hfurther⟩
  | @placed _ p s f hreplies hs hadd =>
      obtain ⟨s', known', φ', hreplies', halike, hroot, hfurther⟩ :=
        h.reply halone hbase hsuite hreplies
      obtain ⟨hsize, hstate⟩ := hsame hreplies hreplies'
      have hfurther' := h.further.trans hfurther (Nat.le_refl size)
      have hp : p ∈ base := hsuite p hs
      obtain ⟨f', hadd', halike'⟩ := halike.addChild (hfurther'.old hp) hroot hadd
      rw [hfurther'.names p hp] at hadd'
      refine ⟨known', φ', _, .placed hreplies' hs hadd', ⟨halike', hfurther', ?_, hstate⟩, hroot,
        hfurther⟩
      show size ≤ f.size
      rw [Forest.size_addChild hadd]
      exact hsize

/-- The turns that are taken with the engines that are recorded. -/
def kept (φ : NodeRef → NodeRef) (turns : List (Engine κ × Fate)) : List (Engine κ × Fate) :=
  (recorded turns).map fun e => (e.1, .recorded (φ e.2))

/-- The engine of a turn keeps to itself, and what it owns is found again when it is recorded, and
is not when it is left out. -/
structure Keeps (own : Engine κ → Set NodeRef) (part : Engine κ → κ → σ) (base : Set NodeRef)
    (size : Nat) (e : Engine κ) (fate : Fate) : Prop where
  alone : e.Alone (own e) (part e)
  stored : ∀ r ∈ own e, r.index < size
  dropped : fate.root? = none → ∀ r ∈ own e, r ∉ base
  recorded : fate.root? ≠ none → own e ⊆ base

/-- Turns are taken in both worlds, but for those of engines that are left out. -/
theorem Turns.abreast {turns : List (Engine κ × Fate)}
    (hturns : Turns phase strict rooted u turns v)
    (hkeeps : ∀ t ∈ turns, Keeps own part base size t.1 t.2)
    (hsuite : ∀ p, rooted.suite? = some p → p ∈ base)
    (hstates : (turns.map Prod.fst).Pairwise fun e e' => ∀ request id s,
      part e' ((e.discover request id).on s).2.2 = part e' s.2)
    (h : Abreast part base size known φ (turns.map Prod.fst) u u') :
    ∃ known' φ' v', Turns phase strict rooted u' (kept φ' turns) v' ∧
      Abreast part base size known' φ' [] v v' ∧ (∀ e ∈ recorded turns, e.2 ∈ known') ∧
      Further known φ size known' φ' := by
  induction hturns generalizing known φ u' with
  | done => exact ⟨known, φ, u', .done, h, nofun, .refl known φ size⟩
  | @next u u₁ v e fate turns hturn hrest ih =>
      obtain ⟨hhead, htail⟩ := List.pairwise_cons.mp hstates
      have hkeep : Keeps own part base size e fate := hkeeps (e, fate) (by simp)
      have hkeeps' : ∀ t ∈ turns, Keeps own part base size t.1 t.2 :=
        fun t ht => hkeeps t (by simp [ht])
      cases hfate : fate.root? with
      | none =>
          have h₁ := h.drop hkeep.alone hkeep.stored (hkeep.dropped hfate) hhead hturn hfate
          have hrecorded : recorded ((e, fate) :: turns) = recorded turns := by
            simp [recorded, hfate]
          simp only [kept, hrecorded]
          exact ih hkeeps' htail h₁
      | some root =>
          obtain rfl : fate = .recorded root := by
            cases fate <;> cases hfate
            rfl
          obtain ⟨known₁, φ₁, v₁, hturn₁, h₁, hroot, hfurther₁⟩ :=
            h.record hkeep.alone (hkeep.recorded (by simp [hfate])) hsuite hhead hturn
          obtain ⟨known', φ', v', hturns', h', hknown, hfurther⟩ := ih hkeeps' htail h₁
          refine ⟨known', φ', v', ?_, h', ?_, hfurther₁.trans hfurther (Nat.le_refl size)⟩
          · rw [← hfurther.names root hroot] at hturn₁
            exact .next hturn₁ hturns'
          · intro t ht
            rcases List.mem_cons.mp ht with rfl | ht
            · exact hfurther.old hroot
            · exact hknown t ht

/-! ## A request and its result -/

theorem map_fst_kept (φ : NodeRef → NodeRef) (turns : List (Engine κ × Fate)) :
    (kept φ turns).map Prod.fst = (recorded turns).map Prod.fst := by
  rw [kept, List.map_map]
  rfl

theorem recorded_kept (φ : NodeRef → NodeRef) (turns : List (Engine κ × Fate)) :
    recorded (kept φ turns) = (recorded turns).map fun e => (e.1, φ e.2) := by
  rw [recorded, kept, List.filterMap_map, ← List.filterMap_eq_map]
  rfl

/-- The lines about engines that are recorded are for debugging. -/
theorem level_of_mem_lines_kept {turns : List (Engine κ × Fate)} {l : LogRecord}
    (hl : l ∈ lines phase (kept φ turns)) : l.level = LogLevel.debug.number := by
  obtain ⟨t, ht, hl⟩ := List.mem_flatMap.mp hl
  obtain ⟨e, -, rfl⟩ := List.mem_map.mp ht
  rw [List.mem_singleton.mp hl]
  rfl

/-- The engines that are left out. -/
def dropped (turns : List (Engine κ × Fate)) : Set (Engine κ) :=
  {e | ∃ fate, (e, fate) ∈ turns ∧ fate.root? = none}

theorem keeps_of_separate {f : Forest} {suite? : Option NodeRef} {turns : List (Engine κ × Fate)}
    (h : Separate own part f suite? (turns.map Prod.fst)) :
    ∀ t ∈ turns, Keeps own part (spared own f (dropped turns)) f.size t.1 t.2 := by
  have hsymm : Std.Symm fun t t' : Engine κ × Fate => ∀ r ∈ own t.1, r ∉ own t'.1 :=
    ⟨fun _ _ hapart r hr hr' => hapart r hr' hr⟩
  have hapart := (List.pairwise_map.mp h.nodes).forall
  rintro ⟨e, fate⟩ ht
  have he : e ∈ turns.map Prod.fst := List.mem_map_of_mem ht
  refine ⟨h.alone e he, h.stored e he, ?_, ?_⟩
  · intro hfate r hown hr
    exact hr.2 e ⟨fate, ht, hfate⟩ hown
  · intro hfate r hown
    refine ⟨h.stored e he r hown, ?_⟩
    rintro e' ⟨fate', ht', hfate'⟩ hown'
    have hne : (e, fate) ≠ (e', fate') := by
      rintro ⟨⟩
      exact hfate hfate'
    exact hapart ht ht' hne r hown hown'

/-- The resolutions start abreast, in one world. -/
theorem abreast_of_separate {turns : List (Engine κ × Fate)}
    (h : Separate own part w.forest rooted.suite? (turns.map Prod.fst)) (hlinked : w.forest.Linked) :
    Abreast part (spared own w.forest (dropped turns)) w.forest.size
      (spared own w.forest (dropped turns)) id (turns.map Prod.fst) w w := by
  have hdropped : ∀ e ∈ dropped turns, e ∈ turns.map Prod.fst := by
    rintro e ⟨fate, ht, -⟩
    exact List.mem_map_of_mem ht
  exact ⟨h.alike_spared hlinked hdropped, .refl _ _ _, Nat.le_refl _, fun _ _ => rfl⟩

variable {engines : List (Engine κ)} {filters : List NodeFilter} {r r' : Resolution κ}

/-- Trees that were sifted and pruned are sifted and pruned in the other world as well. -/
theorem thin_alike (h : v.forest.Alike known φ u.forest)
    (hfilters : ∀ filter ∈ filters, filter.Blind) (hroots : ∀ e ∈ r.roots, e.2 ∈ known)
    (hroots' : r'.roots = r.roots.map fun e => (e.1, φ e.2))
    (hsift : (sift filters r).on v = (.ok (), w)) (hprune : (prune r).on w = (.ok (), w')) :
    ∃ u₁ u', (sift filters r').on u = (.ok (), u₁) ∧ (prune r').on u₁ = (.ok (), u') ∧
      w'.forest.Alike known φ u'.forest ∧ u.journal.Removals u'.journal := by
  have hknown : ∀ x ∈ r.roots.map Prod.snd, x ∈ known := by
    intro x hx
    obtain ⟨e, he, rfl⟩ := List.mem_map.mp hx
    exact hroots e he
  have hmap : r'.roots.map Prod.snd = (r.roots.map Prod.snd).map φ := by
    rw [hroots', List.map_map, List.map_map]
    rfl
  obtain ⟨filter, hcompose, hthin⟩ := sift_eq_ok hsift
  have hblind : NodeFilter.Blind filter := by
    intro rule hrule
    obtain ⟨part, hpart, hleaf⟩ := Filter.mem_leaves_compose hcompose hrule
    exact hfilters part hpart rule hleaf
  obtain ⟨g, hg, h₁⟩ := h.forM_thinBelow hblind.includes hknown hthin
  rw [← hmap] at hg
  obtain ⟨u₁, hsift', rfl⟩ := sift_ok hcompose hg
  obtain ⟨g', hg', h'⟩ := h₁.forM_thinBelow Forest.blind_isTest hknown (prune_eq_ok hprune)
  rw [← hmap] at hg'
  obtain ⟨u', hprune', rfl⟩ := prune_ok hg'
  refine ⟨u₁, u', hsift', hprune', h', ?_⟩
  rw [journal_prune hprune']
  exact removals_sift hsift'

/-- **An engine that is left out might as well not have been there.**  When a request was resolved,
    with engines that are separate and filters that are blind, it is resolved as well with the
    engines that ended up in the result alone.  They end up in the result in the same order, their
    trees look the same, and so do all trees below the node of a suite; and what is written
    is for debugging only. -/
theorem ofRequest_isolated (hengines : Separate own part w.forest rooted.suite? engines)
    (hlinked : w.forest.Linked) (hfilters : ∀ filter ∈ rooted.request.nodeFilters, filter.Blind)
    (h : (ofRequest engines strict phase rooted).on w = (.ok r, w')) :
    ∃ r' v', (ofRequest r.engines strict phase rooted).on w = (.ok r', v') ∧
      r'.engines = r.engines ∧
      (∀ depth, r'.roots.map (fun e => v'.forest.picture depth e.2)
        = r.roots.map fun e => w'.forest.picture depth e.2) ∧
      (∀ p, rooted.suite? = some p → ∀ depth,
        (v'.forest.children p).map (v'.forest.picture depth)
          = (w'.forest.children p).map (w'.forest.picture depth)) ∧
      ∃ written : List LogRecord, (∀ l ∈ written, l.level = LogLevel.debug.number) ∧
        v'.journal = written.foldl Journal.write w.journal := by
  obtain ⟨w₁, w₂, hfold, hsift, hprune⟩ := ofRequest_eq_ok_iff.mp h
  obtain ⟨turns, hturns, rfl, rfl⟩ := exists_turns (r := start rooted w) rfl hfold
  have hsuite : ∀ p, rooted.suite? = some p → p ∈ spared own w.forest (dropped turns) := by
    intro p hp
    obtain ⟨hlt, hown⟩ := hengines.suite p hp
    exact ⟨hlt, fun e ⟨fate, he, _⟩ => hown e (List.mem_map_of_mem he)⟩
  obtain ⟨known, φ, u, hturns', habreast, hknown, -⟩ :=
    hturns.abreast (keeps_of_separate hengines) hsuite hengines.states
      (abreast_of_separate hengines hlinked)
  have hroots : ((start rooted w).notingAll turns).roots = recorded turns := List.nil_append _
  have hroots' : ((start rooted w).notingAll (kept φ turns)).roots
      = (recorded turns).map fun e => (e.1, φ e.2) :=
    (List.nil_append _).trans (recorded_kept φ turns)
  obtain ⟨u₁, u', hsift', hprune', halike', hremovals⟩ :=
    thin_alike habreast.alike hfilters hknown hroots' hsift hprune
  have hengines' : ((start rooted w).notingAll turns).engines = (kept φ turns).map Prod.fst := by
    rw [engines, hroots, map_fst_kept]
  have hfold' := hturns'.on_addEngines (r := start rooted w) rfl
  refine ⟨(start rooted w).notingAll (kept φ turns), u', ?_, ?_, ?_, ?_, ?_⟩
  · rw [hengines']
    exact ofRequest_eq_ok_iff.mpr ⟨u, u₁, hfold', hsift', hprune'⟩
  · rw [engines, engines, hroots, hroots', List.map_map]
    rfl
  · intro depth
    rw [hroots, hroots', List.map_map]
    exact List.map_congr_left fun e he => halike'.picture_eq (hknown e he) depth
  · intro p hp depth
    have hpk : p ∈ known := habreast.further.old (hsuite p hp)
    have hname : φ p = p := habreast.further.names p (hsuite p hp)
    have hchildren := halike'.children_eq hpk
    rw [hname] at hchildren
    rw [hchildren, List.map_map]
    exact List.map_congr_left fun c hc =>
      halike'.picture_eq (halike'.mem_of_child hpk hc) depth
  · obtain ⟨removed, hremoved, hjournal⟩ := hremovals
    refine ⟨lines phase (kept φ turns) ++ removed, ?_, ?_⟩
    · intro l hl
      rcases List.mem_append.mp hl with hl | hl
      · exact level_of_mem_lines_kept hl
      · obtain ⟨n, v, rfl⟩ := hremoved l hl
        rfl
    · rw [List.foldl_append, ← hturns'.journal, hjournal]

/-- An engine that is excluded, one that fails, one that finds tests, and one without a root. -/
def company : List (Engine Diaries) :=
  [Catalogue.engine { Catalogue.sample with id := "skipped" } 0,
    Catalogue.engine { id := "failing", failDiscover? := some (.raised .runtime none) } 1,
    Catalogue.sample.engine 2,
    Catalogue.engine { id := "empty", rootless := true } 3]

/-- The fast tests of a class, below the node of a suite. -/
def fastInSuite : RootedRequest where
  request := { DiscoveryRequest.sample with
    engineFilters := withoutSkipped.request.engineFilters }
  suite? := some ⟨0⟩

/-- The sample world with the node of a suite. -/
def sampleSuite : World Diaries Unit Unit := { World.sample with forest := oneSuite.forest }

/-- Of the four engines one ends up in the result, and its tree below the suite is the same without
the others; but with them there were a warning and an error. -/
theorem ofRequest_isolated_company :
    ∃ r w' r' v', (ofRequest company false .discovery fastInSuite).on sampleSuite = (.ok r, w') ∧
      (ofRequest r.engines false .discovery fastInSuite).on sampleSuite = (.ok r', v') ∧
      r.engines.map Engine.id = ["E"] ∧ r'.engines = r.engines ∧
      (v'.forest.children ⟨0⟩).map (v'.forest.picture 3)
        = (w'.forest.children ⟨0⟩).map (w'.forest.picture 3) ∧
      w'.journal.records.map LogRecord.level = [10, 10, 30, 10, 10, 40, 10, 10] ∧
      ∃ written : List LogRecord, (∀ l ∈ written, l.level = LogLevel.debug.number) ∧
        v'.journal = written.foldl Journal.write ∅ := by
  have hplaceless : ∀ e ∈ company, e.Placeless := by
    intro e he
    simp only [company, List.mem_cons, List.not_mem_nil, or_false] at he
    rcases he with rfl | rfl | rfl | rfl <;> exact Catalogue.engine_placeless _ _
  have hsuite : ∀ p, fastInSuite.suite? = some p → p.index < sampleSuite.forest.size := by
    rintro p ⟨⟩
    exact Nat.zero_lt_one
  have hlinked : sampleSuite.forest.Linked := Forest.linked_empty.add rfl rfl
  have hfilters : ∀ filter ∈ fastInSuite.request.nodeFilters, filter.Blind := by
    intro filter hfilter rule hrule
    rw [List.mem_singleton.mp hfilter] at hrule
    cases List.mem_singleton.mp hrule
  have hon : (match (ofRequest company false .discovery fastInSuite).on sampleSuite with
    | (.ok r, w') => decide (r.engines.map Engine.id = ["E"]) &&
        decide (w'.journal.records.map LogRecord.level = [10, 10, 30, 10, 10, 40, 10, 10])
    | (.error _, _) => false) = true := by decide +kernel
  rcases hrun : (ofRequest company false .discovery fastInSuite).on sampleSuite with ⟨result, w'⟩
  rw [hrun] at hon
  cases result with
  | error f => cases hon
  | ok r =>
      rw [Bool.and_eq_true, decide_eq_true_eq, decide_eq_true_eq] at hon
      obtain ⟨r', v', hrun', hengines, -, hchildren, hwritten⟩ :=
        ofRequest_isolated (separate_of_placeless hplaceless hsuite) hlinked hfilters hrun
      exact ⟨r, w', r', v', rfl, hrun', hon.1, hengines, hchildren ⟨0⟩ rfl 3, hon.2, hwritten⟩

end Resolution

end TestLauncher
