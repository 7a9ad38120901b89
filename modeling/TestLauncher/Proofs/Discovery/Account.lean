import TestLauncher.Proofs.Discovery.Turns

/-! # What becomes of each engine

    A roll call takes the steps of the resolution and notes each engine as it is asked.  So
    every engine is accounted for (`ofRequest_accounts`): the first one that ends the
    resolution is the last one asked, and its fault comes out; when there is none, every
    engine had its turn, and all that no filter excludes were asked once. -/

namespace TestLauncher

namespace Resolution

variable {κ : Type}

/-- The engines that were asked. -/
def asked (turns : List (Engine κ × Fate)) : List (Engine κ) :=
  (turns.filter fun t => t.2.asked).map Prod.fst

theorem asked_cons (e : Engine κ) (fate : Fate) (turns : List (Engine κ × Fate)) :
    asked ((e, fate) :: turns) = asked [(e, fate)] ++ asked turns := by
  rw [asked, asked, asked, ← List.map_append, ← List.filter_append, List.singleton_append]

end Resolution

/-! ## Roll calls -/

/-- Steps on the world that note the engines that are asked to discover. -/
abbrev RollCall (κ ω ρ : Type) := Steps (World κ ω ρ × List (Engine κ))

namespace RollCall

variable {κ ω ρ α β : Type}

/-- Notes an engine. -/
def note (engine : Engine κ) : RollCall κ ω ρ Unit := modify fun s => (s.1, s.2 ++ [engine])

/-- The root an engine discovers; the engine is noted when it is asked. -/
def discoverRoot (strict : Bool) (engine : Engine κ) (rooted : RootedRequest) :
    RollCall κ ω ρ (Option NodeRef) := do
  let f := (← get).1.forest
  let id ← Steps.ofExcept
    (Resolution.rootId ((rooted.suite?.bind f.node?).map Node.id) engine.id)
  note engine
  match ← (Resolution.guarded engine "discover"
      (Run.byEngine (engine.discover rooted.request id))).first with
  | none => return none
  | some (some root) => return some root
  | some none =>
    let violation := Fault.missingRoot engine.id
    if strict then throw violation
    (Run.log (LogLevel.error.record Forest.logger violation.message)).first
    return none

/-- The resolution with what one more engine discovers. -/
def addEngine (phase : Phase) (strict : Bool) (rooted : RootedRequest) (r : Resolution κ)
    (engine : Engine κ) : RollCall κ ω ρ (Resolution κ) := do
  if ← Steps.ofExcept (Resolution.excludes rooted.request.engineFilters engine.id) then
    Steps.first <| Run.log <| LogLevel.debug.record Forest.logger <|
      "Test discovery for engine '" ++ engine.id ++
        "' was skipped due to an engine filter in phase '" ++ phase.word ++ "'."
    return r
  else
    Steps.first <| Run.log <| LogLevel.debug.record Forest.logger <|
      "Discovering tests during launcher " ++ phase.word ++ " phase in engine '" ++
        engine.id ++ "'."
    match ← discoverRoot strict engine rooted with
    | none => return r
    | some root => (Resolution.addRoot r engine root).first

/-- Resolves a request with some engines. -/
def ofRequest (engines : List (Engine κ)) (strict : Bool) (phase : Phase)
    (rooted : RootedRequest) : RollCall κ ω ρ (Resolution κ) := do
  let f := (← get).1.forest
  let r ← engines.foldlM (addEngine phase strict rooted)
    { suite? := rooted.suite?, suiteIdentifier? := rooted.suite?.bind f.identifier? }
  (Resolution.sift rooted.request.nodeFilters r).first
  (Resolution.prune r).first
  return r

/-- In a world a roll call takes the given steps, and notes the given engines. -/
def Notes (c : RollCall κ ω ρ α) (d : Run κ ω ρ α) (w : World κ ω ρ)
    (called : List (Engine κ)) : Prop :=
  ∀ es, c.on (w, es) = ((d.on w).1, (d.on w).2, es ++ called)

section

variable {c : RollCall κ ω ρ α} {d : Run κ ω ρ α} {w w' : World κ ω ρ}
  {called called' : List (Engine κ)}

/-- Steps that are only taken note nothing. -/
theorem notes_first (d : Run κ ω ρ α) (w : World κ ω ρ) : Notes d.first d w [] := by
  intro es
  rw [Steps.on_first, List.append_nil]

theorem notes_ofExcept (result : Except Fault α) (w : World κ ω ρ) :
    Notes (Steps.ofExcept result) (Steps.ofExcept result) w [] := by
  intro es
  rw [Steps.on_ofExcept, Steps.on_ofExcept, List.append_nil]

theorem Notes.bind_ok {a : α} {k : α → RollCall κ ω ρ β} {k' : α → Run κ ω ρ β}
    (h : Notes c d w called) (hd : d.on w = (.ok a, w')) (hk : Notes (k a) (k' a) w' called') :
    Notes (c >>= k) (d >>= k') w (called ++ called') := by
  intro es
  have hc := h es
  rw [hd] at hc
  rw [Steps.on_bind_ok hc, Steps.on_bind_ok hd, hk, List.append_assoc]

theorem Notes.bind_error {f : Fault} (k : α → RollCall κ ω ρ β) (k' : α → Run κ ω ρ β)
    (h : Notes c d w called) (hd : d.on w = (.error f, w')) :
    Notes (c >>= k) (d >>= k') w called := by
  intro es
  have hc := h es
  rw [hd] at hc
  rw [Steps.on_bind_error hc, Steps.on_bind_error hd]

end

variable {strict : Bool} {phase : Phase} {rooted : RootedRequest} {engine : Engine κ}
  {r : Resolution κ} {w : World κ ω ρ}

/-- An engine that can be given an id is asked. -/
theorem notes_discoverRoot {id : UniqueId}
    (hid : Resolution.rootId ((rooted.suite?.bind w.forest.node?).map Node.id) engine.id
      = .ok id) :
    Notes (discoverRoot strict engine rooted) (Resolution.discoverRoot strict engine rooted) w
      [engine] := by
  intro es
  rw [discoverRoot, Resolution.discoverRoot, Steps.on_bind_ok (Steps.on_get _),
    Steps.on_bind_ok (Steps.on_get _)]
  dsimp only
  rw [hid, Steps.on_bind_ok (Steps.on_ofExcept _ _), Steps.on_bind_ok (Steps.on_ofExcept _ _)]
  have hnote : (note engine : RollCall κ ω ρ Unit).on (w, es) = (.ok (), w, es ++ [engine]) := rfl
  rw [Steps.on_bind_ok hnote]
  rcases hg : (Resolution.guarded engine "discover"
    (Run.byEngine (engine.discover rooted.request id))).on w with ⟨result, w₁⟩
  have hfirst := notes_first (Resolution.guarded engine "discover"
    (Run.byEngine (engine.discover rooted.request id))) w (es ++ [engine])
  rw [hg, List.append_nil] at hfirst
  cases result with
  | error f => rw [Steps.on_bind_error hfirst, Steps.on_bind_error hg]
  | ok found =>
      rw [Steps.on_bind_ok hfirst, Steps.on_bind_ok hg]
      rcases found with _ | _ | root
      · rfl
      · cases strict <;> rfl
      · rfl

/-- An engine that no filter excludes is asked. -/
theorem notes_addEngine {id : UniqueId}
    (hex : Resolution.excludes rooted.request.engineFilters engine.id = .ok false)
    (hid : Resolution.rootId ((rooted.suite?.bind w.forest.node?).map Node.id) engine.id
      = .ok id) :
    Notes (addEngine phase strict rooted r engine)
      (Resolution.addEngine phase strict rooted r engine) w [engine] := by
  rw [addEngine, Resolution.addEngine, hex]
  refine (notes_ofExcept (.ok false) w).bind_ok (Steps.on_ofExcept _ w) ?_
  rw [if_neg Bool.false_ne_true, if_neg Bool.false_ne_true]
  refine (notes_first _ w).bind_ok (Resolution.on_log _) ?_
  generalize hw : ({ w with journal := w.journal.write _ } : World κ ω ρ) = w₁
  have hid₁ : Resolution.rootId ((rooted.suite?.bind w₁.forest.node?).map Node.id) engine.id
      = .ok id := by
    rw [← hw]
    exact hid
  have hroot : Notes (discoverRoot strict engine rooted)
      (Resolution.discoverRoot strict engine rooted) w₁ [engine] := notes_discoverRoot hid₁
  rcases hd : (Resolution.discoverRoot strict engine rooted).on w₁ with ⟨result, w₂⟩
  cases result with
  | error f => exact hroot.bind_error _ _ hd
  | ok root? =>
      rw [← List.append_nil [engine]]
      refine hroot.bind_ok hd ?_
      cases root? with
      | none => exact notes_ofExcept (.ok r) w₂
      | some root => exact notes_first _ w₂

theorem notes_addEngine_excluded
    (hex : Resolution.excludes rooted.request.engineFilters engine.id = .ok true) :
    Notes (addEngine phase strict rooted r engine)
      (Resolution.addEngine phase strict rooted r engine) w [] := by
  rw [addEngine, Resolution.addEngine, hex]
  refine (notes_ofExcept (.ok true) w).bind_ok (Steps.on_ofExcept _ w) ?_
  exact (notes_first _ w).bind_ok (Resolution.on_log _) (notes_ofExcept (.ok r) _)

end RollCall

/-! ## Accounts -/

namespace Resolution

variable {κ ω ρ : Type} {strict : Bool} {phase : Phase} {rooted : RootedRequest}
  {engine : Engine κ} {engines : List (Engine κ)} {r : Resolution κ} {w : World κ ω ρ} {f : Fault}

/-- The engines asked in a turn are noted. -/
theorem Turn.notes {fate : Fate} {u : World κ ω ρ} (h : Turn phase strict rooted w engine fate u) :
    RollCall.Notes (RollCall.addEngine phase strict rooted r engine)
      (addEngine phase strict rooted r engine) w (asked [(engine, fate)]) := by
  cases h with
  | excluded hex => exact RollCall.notes_addEngine_excluded hex
  | failed h _ | rootless h _ | recorded h _ | placed h _ _ =>
      obtain ⟨hex, id, hid, -⟩ := h
      exact RollCall.notes_addEngine hex hid

theorem Ends.notes (h : Ends strict rooted w engine f) :
    RollCall.Notes (RollCall.addEngine phase strict rooted r engine)
      (addEngine phase strict rooted r engine) w [engine] := by
  cases h with
  | escaped h _ | strict h _ | refused h _ _ =>
      obtain ⟨hex, id, hid, -⟩ := h
      exact RollCall.notes_addEngine hex hid

/-- **The turn of an engine.**  It ends the resolution with a fault, or has one of the four fates. -/
theorem addEngine_accounts (phase : Phase) (strict : Bool)
    (hblank : Text.isBlank engine.id = false)
    (hfilters : ∀ filter ∈ rooted.request.engineFilters, filter.Unfailing)
    (hs : r.suite? = rooted.suite?) (w : World κ ω ρ) :
    (∃ f, Ends strict rooted w engine f ∧
      ((addEngine phase strict rooted r engine).on w).1 = .error f ∧
      RollCall.Notes (RollCall.addEngine phase strict rooted r engine)
        (addEngine phase strict rooted r engine) w [engine]) ∨
    ∃ fate u, Turn phase strict rooted w engine fate u ∧
      (addEngine phase strict rooted r engine).on w = (.ok (r.noting engine fate), u) ∧
      RollCall.Notes (RollCall.addEngine phase strict rooted r engine)
        (addEngine phase strict rooted r engine) w (asked [(engine, fate)]) := by
  obtain ⟨excluded, hex⟩ := excludes_ok hfilters engine.id
  obtain ⟨id, hid⟩ := rootId_ok hblank ((rooted.suite?.bind w.forest.node?).map Node.id)
  cases excluded with
  | true =>
      have hturn : Turn phase strict rooted w engine .excluded _ := .excluded hex
      exact Or.inr ⟨_, _, hturn, hturn.on_addEngine hs, hturn.notes⟩
  | false =>
      obtain ⟨result, s, hreplies⟩ := exists_replies hex hid
      rcases hreplies.ends_or_turn phase strict with ⟨f, hends⟩ | ⟨fate, u, hturn⟩
      · exact Or.inl ⟨f, hends, hends.on_addEngine hs, hends.notes⟩
      · exact Or.inr ⟨fate, u, hturn, hturn.on_addEngine hs, hturn.notes⟩

/-- Turns end with the resolution in which they are recorded, or with an engine that ends it. -/
theorem addEngines_account (phase : Phase) (strict : Bool)
    (hids : ∀ e ∈ engines, Text.isBlank e.id = false)
    (hfilters : ∀ filter ∈ rooted.request.engineFilters, filter.Unfailing)
    (hs : r.suite? = rooted.suite?) (w : World κ ω ρ) :
    ∃ turns u, Turns phase strict rooted w turns u ∧
      ((∃ e after f, engines = turns.map Prod.fst ++ e :: after ∧ Ends strict rooted u e f ∧
          ((engines.foldlM (addEngine phase strict rooted) r).on w).1 = .error f ∧
          RollCall.Notes (engines.foldlM (RollCall.addEngine phase strict rooted) r)
            (engines.foldlM (addEngine phase strict rooted) r) w (asked turns ++ [e])) ∨
        (turns.map Prod.fst = engines ∧
          (engines.foldlM (addEngine phase strict rooted) r).on w = (.ok (r.notingAll turns), u) ∧
          RollCall.Notes (engines.foldlM (RollCall.addEngine phase strict rooted) r)
            (engines.foldlM (addEngine phase strict rooted) r) w (asked turns))) := by
  induction engines generalizing r w with
  | nil =>
      refine ⟨[], w, .done, Or.inr ⟨rfl, ?_, RollCall.notes_ofExcept (.ok r) w⟩⟩
      rw [notingAll, recorded, List.filterMap_nil, List.append_nil]
      rfl
  | cons e es ih =>
      rcases addEngine_accounts phase strict (hids e (by simp)) hfilters hs w with
        ⟨f, hends, hon, hnotes⟩ | ⟨fate, u, hturn, hon, hnotes⟩
      · refine ⟨[], w, .done, Or.inl ⟨e, es, f, rfl, hends, ?_, ?_⟩⟩
        · rw [List.foldlM_cons]
          exact Steps.on_bind_fails hon _
        · rw [List.foldlM_cons, List.foldlM_cons]
          exact hnotes.bind_error _ _ (Prod.ext hon rfl)
      · obtain ⟨turns, u', hturns, hrest⟩ :=
          ih (r := r.noting e fate) (fun e' he' => hids e' (by simp [he'])) hs u
        refine ⟨(e, fate) :: turns, u', .next hturn hturns, ?_⟩
        rw [List.foldlM_cons, List.foldlM_cons, Steps.on_bind_ok hon, asked_cons, notingAll_cons]
        rcases hrest with ⟨e', after, f, hes, hends, hfold, hcalls⟩ | ⟨hes, hfold, hcalls⟩
        · refine Or.inl ⟨e', after, f, ?_, hends, hfold, ?_⟩
          · rw [hes]
            rfl
          · rw [List.append_assoc]
            exact hnotes.bind_ok hon hcalls
        · refine Or.inr ⟨?_, hfold, hnotes.bind_ok hon hcalls⟩
          rw [List.map_cons, hes]

/-- **Every engine is accounted for.**  Engines have their turns up to the first that ends the
    resolution, which is the last one asked, and whose fault comes out.  When none does, and
    the trees can be walked, all have their turns, the resolution holds what was recorded, and
    the journal the lines of the turns, and then lines about nodes that were taken away. -/
theorem ofRequest_accounts (hids : ∀ e ∈ engines, Text.isBlank e.id = false)
    (hengine : ∀ filter ∈ rooted.request.engineFilters, filter.Unfailing)
    (hnode : ∀ filter ∈ rooted.request.nodeFilters, filter.Unfailing)
    (htrees : ∀ r u, (engines.foldlM (addEngine phase strict rooted) (start rooted w)).on w
      = (.ok r, u) → u.forest.Linked ∧ ∀ e ∈ r.roots, ∃ k, u.forest.Deep k e.2) :
    ∃ turns u, Turns phase strict rooted w turns u ∧
      ((∃ e after f, engines = turns.map Prod.fst ++ e :: after ∧ Ends strict rooted u e f ∧
          ((ofRequest engines strict phase rooted).on w).1 = .error f ∧
          RollCall.Notes (RollCall.ofRequest engines strict phase rooted)
            (ofRequest engines strict phase rooted) w (asked turns ++ [e])) ∨
        (turns.map Prod.fst = engines ∧
          ∃ r w', (ofRequest engines strict phase rooted).on w = (.ok r, w') ∧
            r.roots = recorded turns ∧
            ((lines phase turns).foldl Journal.write w.journal).Removals w'.journal ∧
            RollCall.Notes (RollCall.ofRequest engines strict phase rooted)
              (ofRequest engines strict phase rooted) w (asked turns))) := by
  obtain ⟨turns, u, hturns, hrest⟩ :=
    addEngines_account (r := start rooted w) phase strict hids hengine rfl w
  refine ⟨turns, u, hturns, ?_⟩
  have hget : ∀ es, (get : RollCall κ ω ρ _).on (w, es) = (.ok (w, es), (w, es)) := fun _ => rfl
  rcases hrest with ⟨e, after, f, hes, hends, hfold, hcalls⟩ | ⟨hes, hfold, hcalls⟩
  · refine Or.inl ⟨e, after, f, hes, hends, ?_, ?_⟩
    · rw [ofRequest, Steps.on_bind_ok (Steps.on_get w)]
      exact Steps.on_bind_fails hfold _
    · intro es
      rw [RollCall.ofRequest, ofRequest, Steps.on_bind_ok (hget es), Steps.on_bind_ok (Steps.on_get w)]
      exact hcalls.bind_error _ _ (Prod.ext hfold rfl) es
  · obtain ⟨hlinked, hdeep⟩ := htrees _ u hfold
    obtain ⟨u₁, w', hsift, hprune, hremovals⟩ := thin_recorded_ok hnode hlinked hdeep
    refine Or.inr ⟨hes, (start rooted w).notingAll turns, w', ?_, List.nil_append _, ?_, ?_⟩
    · exact ofRequest_eq_ok_iff.mpr ⟨u, u₁, hfold, hsift, hprune⟩
    · rw [← hturns.journal]
      exact hremovals
    · intro es
      rw [RollCall.ofRequest, ofRequest, Steps.on_bind_ok (hget es), Steps.on_bind_ok (Steps.on_get w)]
      rw [← List.append_nil (asked turns)]
      exact hcalls.bind_ok hfold ((RollCall.notes_first _ u).bind_ok hsift
        ((RollCall.notes_first _ u₁).bind_ok hprune (RollCall.notes_ofExcept (.ok _) w'))) es

/-! ## Runs -/

/-- An engine that returns a root with the given id and nothing below it. -/
def lone (engineId : String) : Engine Unit where
  id := engineId
  discover _ id := do return some (← (Forest.plant (Node.make (some id) engineId)).first)
  execute _ _ := .done ()

/-- An engine whose discovery ends without a tree. -/
def barren (engineId : String) (result : Except Fault (Option NodeRef)) : Engine Unit where
  id := engineId
  discover _ _ := Steps.ofExcept result
  execute _ _ := .done ()

/-- Four engines, one for each fate. -/
def quartet : List (Engine Unit) :=
  [lone "kept", lone "skipped", barren "failing" (.error (.raised .runtime (some "no tests"))),
    barren "empty" (.ok none)]

/-- Everything but what one engine has. -/
def withoutSkipped : RootedRequest where
  request := { engineFilters := [.rule (.ids ⟨StringSet.ofList ["skipped"], .excluding⟩)] }

/-- A world with the node of a suite. -/
def oneSuite : World Unit Unit Unit where
  forest := ((∅ : Forest).add
    { id := .single ⟨"suite", "S", by decide, by decide, by decide⟩, name := "S" }).2
  engines := ()
  listeners := ()
  resolver := ()

/-- Of the four engines three are asked, and one is recorded. -/
theorem ofRequest_accounts_quartet :
    ∃ turns r w', turns.map Prod.fst = quartet ∧
      (ofRequest quartet false .discovery withoutSkipped).on oneSuite = (.ok r, w') ∧
      r.roots = recorded turns ∧ r.engines.map Engine.id = ["kept"] ∧
      RollCall.Notes (RollCall.ofRequest quartet false .discovery withoutSkipped)
        (ofRequest quartet false .discovery withoutSkipped) oneSuite (asked turns) := by
  have hids : ∀ e ∈ quartet, Text.isBlank e.id = false := by decide +kernel
  have hengine : ∀ filter ∈ withoutSkipped.request.engineFilters, filter.Unfailing := by
    intro filter hfilter rule hrule engineId
    rw [List.mem_singleton.mp hfilter] at hrule
    rw [List.mem_singleton.mp hrule]
    exact ⟨_, rfl⟩
  have hfold : (match (quartet.foldlM (addEngine .discovery false withoutSkipped)
      (start withoutSkipped oneSuite)).on oneSuite with
    | (.ok r, u) => u.forest.nodes.all (fun n => n.parent.isNone && n.children.values.isEmpty) &&
        r.roots.all (fun e => (u.forest.node? e.2).isSome)
    | (.error _, _) => false) = true := by decide +kernel
  have htrees : ∀ r u, (quartet.foldlM (addEngine .discovery false withoutSkipped)
      (start withoutSkipped oneSuite)).on oneSuite = (.ok r, u) →
        u.forest.Linked ∧ ∀ e ∈ r.roots, ∃ k, u.forest.Deep k e.2 := by
    intro r u hon
    rw [hon, Bool.and_eq_true] at hfold
    have hbare : ∀ x n, u.forest.node? x = some n → n.parent = none ∧ n.children.values = [] := by
      intro x n hx
      have hn := Array.all_eq_true_iff_forall_mem.mp hfold.1 n (Array.mem_of_getElem? hx)
      simpa using hn
    refine ⟨Forest.linked_of_unlinked hbare, ?_⟩
    intro e he
    obtain ⟨n, hn⟩ := Option.isSome_iff_exists.mp (List.all_eq_true.mp hfold.2 e he)
    exact ⟨0, .top hn (hbare _ _ hn).1⟩
  have hends : (match (ofRequest quartet false .discovery withoutSkipped).on oneSuite with
    | (.ok r, _) => decide (r.engines.map Engine.id = ["kept"])
    | (.error _, _) => false) = true := by decide +kernel
  obtain ⟨turns, u, -, ⟨e, after, f, -, -, hon, -⟩ | ⟨hall, r, w', hon, hroots, -, hnotes⟩⟩ :=
    ofRequest_accounts hids hengine (fun filter hfilter => absurd hfilter List.not_mem_nil) htrees
  · rcases h : (ofRequest quartet false .discovery withoutSkipped).on oneSuite with ⟨result, w'⟩
    rw [h] at hon hends
    cases hon
    cases hends
  · rw [hon] at hends
    exact ⟨turns, r, w', hall, hon, hroots, of_decide_eq_true hends, hnotes⟩

/-- Plants two nodes, and puts each below the other. -/
def growLoop (id : UniqueId) : Growing NodeRef := do
  let classId ← Steps.ofExcept (id.append "class" "C")
  let root ← Forest.plant (Node.make (some id) "loop")
  let child ← Forest.plant (Node.make (some classId) "C")
  Forest.attach root child
  Forest.attach child root
  return root

/-- An engine that returns a root on a cycle. -/
def loop : Engine Unit where
  id := "loop"
  discover _ id := do return some (← (growLoop id).first)
  execute _ _ := .done ()

/-- Whether an engine returns a root, and with the id it is given. -/
def returnsRoot (e : Engine Unit) (rooted : RootedRequest) (w : World Unit Unit Unit) : Bool :=
  match rootId ((rooted.suite?.bind w.forest.node?).map Node.id) e.id with
  | .error _ => false
  | .ok id =>
    match (e.discover rooted.request id).on (w.forest, w.engines) with
    | (.ok (some root), s) => decide (s.1.id? root = some id)
    | _ => false

/-- No engine fails, and none returns a root with another id.  Yet the second of two engines with
one id ends the resolution as the node of the suite refuses its root, and an engine whose root
stands on a cycle ends it as the tree is sifted. -/
theorem ofRequest_refused_endless :
    (∀ e ∈ [lone "E", lone "E", loop], Text.isBlank e.id = false ∧
      returnsRoot e ⟨{}, some ⟨0⟩⟩ oneSuite = true ∧ returnsRoot e ⟨{}, none⟩ oneSuite = true) ∧
    Except.fault? ((ofRequest [lone "E", lone "E"] false .discovery ⟨{}, some ⟨0⟩⟩).on oneSuite).1
      = some (.refused (.sharedChildId "[suite:S]" "[suite:S]/[engine:E]")) ∧
    Except.fault? ((ofRequest [loop] false .discovery ⟨{}, none⟩).on oneSuite).1
      = some .endlessDescent := by
  decide +kernel

end Resolution

end TestLauncher
