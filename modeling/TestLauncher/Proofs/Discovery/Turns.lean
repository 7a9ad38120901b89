import TestLauncher.Proofs.Discovery.Progress
import TestLauncher.Proofs.Forest.Loosening

/-! # The turns of engines

    Resolving a request takes the engines in turn.  A turn (`Turn`) makes one of four things
    of an engine: a filter excludes it, it fails and the fault is held, it returns no root, or
    its root is recorded; each writes its own lines.  An engine may also end the resolution
    (`Ends`): with a fault that is not held, with no root where contracts are strict, or with
    a root that the node of the suite refuses.

    An engine that is asked does one or the other (`Replies.ends_or_turn`), and the steps of
    the resolution do what these relations say (`Turn.on_addEngine`, `Ends.on_addEngine`); so
    engines were taken in exactly when they had their turns (`exists_turns`,
    `Turns.on_addEngines`).  Afterwards the trees are sifted and pruned, which writes lines about
    nodes that are taken away and no others (`removals_sift`, `journal_prune`). -/

namespace TestLauncher

/-- A filter on engines whose rules do not fail. -/
def EngineFilter.Unfailing (filter : EngineFilter) : Prop :=
  ∀ rule ∈ filter.leaves, ∀ engineId, ∃ v, rule.judge engineId = .ok v

namespace Resolution

variable {κ ω ρ : Type}

/-! ## Turns -/

/-- What a turn makes of an engine. -/
inductive Fate where
  /-- A filter excludes it. -/
  | excluded
  /-- It fails with a fault that is held. -/
  | failed (f : Fault)
  /-- It returns no root. -/
  | rootless
  | recorded (root : NodeRef)

/-- The root that is recorded. -/
def Fate.root? : Fate → Option NodeRef
  | recorded root => some root
  | _ => none

/-- Whether the engine was asked. -/
def Fate.asked : Fate → Bool
  | excluded => false
  | _ => true

/-- The line about an engine that is asked. -/
def askingRecord (phase : Phase) (engineId : String) : LogRecord :=
  LogLevel.debug.record Forest.logger <|
    "Discovering tests during launcher " ++ phase.word ++ " phase in engine '" ++ engineId ++ "'."

/-- The lines of a turn. -/
def Fate.lines (phase : Phase) (engineId : String) : Fate → List LogRecord
  | excluded => [LogLevel.debug.record Forest.logger <|
      "Test discovery for engine '" ++ engineId ++
        "' was skipped due to an engine filter in phase '" ++ phase.word ++ "'."]
  | failed f => [askingRecord phase engineId, LogLevel.warning.record Forest.logger
      ("Engine with ID '" ++ engineId ++ "' failed to " ++ "discover" ++ " tests: " ++ f.message) (some f)]
  | rootless => [askingRecord phase engineId,
      LogLevel.error.record Forest.logger (Fault.missingRoot engineId).message]
  | recorded _ => [askingRecord phase engineId]

/-- The world with other things in the hands of the engines, and with more lines. -/
def turned (w : World κ ω ρ) (s : Forest × κ) (lines : List LogRecord) : World κ ω ρ :=
  { w with forest := s.1, engines := s.2, journal := lines.foldl Journal.write w.journal }

/-- No filter excludes an engine, and asked to discover it comes to the given end. -/
def Replies (rooted : RootedRequest) (w : World κ ω ρ) (engine : Engine κ)
    (result : Except Fault (Option NodeRef)) (s : Forest × κ) : Prop :=
  excludes rooted.request.engineFilters engine.id = .ok false ∧
    ∃ id, rootId ((rooted.suite?.bind w.forest.node?).map Node.id) engine.id = .ok id ∧
      (engine.discover rooted.request id).on (w.forest, w.engines) = (result, s)

/-- The turn of an engine, and the world it leaves. -/
inductive Turn (phase : Phase) (strict : Bool) (rooted : RootedRequest) (w : World κ ω ρ)
    (engine : Engine κ) : Fate → World κ ω ρ → Prop where
  | excluded (h : excludes rooted.request.engineFilters engine.id = .ok true) :
      Turn phase strict rooted w engine .excluded
        (turned w (w.forest, w.engines) (Fate.excluded.lines phase engine.id))
  | failed {f : Fault} {s : Forest × κ} (h : Replies rooted w engine (.error f) s)
      (hf : f.escapes = false) :
      Turn phase strict rooted w engine (.failed f)
        (turned w s ((Fate.failed f).lines phase engine.id))
  | rootless {s : Forest × κ} (h : Replies rooted w engine (.ok none) s) (hs : strict = false) :
      Turn phase strict rooted w engine .rootless
        (turned w s (Fate.rootless.lines phase engine.id))
  /-- Without a suite the root stays where it is. -/
  | recorded {root : NodeRef} {s : Forest × κ} (h : Replies rooted w engine (.ok (some root)) s)
      (hs : rooted.suite? = none) :
      Turn phase strict rooted w engine (.recorded root)
        (turned w s ((Fate.recorded root).lines phase engine.id))
  /-- With a suite it goes below the node of the suite. -/
  | placed {root p : NodeRef} {s : Forest × κ} {f : Forest}
      (h : Replies rooted w engine (.ok (some root)) s) (hs : rooted.suite? = some p)
      (hadd : s.1.addChild p (some root) = .ok f) :
      Turn phase strict rooted w engine (.recorded root)
        (turned w (f, s.2) ((Fate.recorded root).lines phase engine.id))

/-- An engine ends the resolution with a fault. -/
inductive Ends (strict : Bool) (rooted : RootedRequest) (w : World κ ω ρ) (engine : Engine κ) :
    Fault → Prop where
  | escaped {f : Fault} {s : Forest × κ} (h : Replies rooted w engine (.error f) s)
      (hf : f.escapes = true) : Ends strict rooted w engine f
  | strict {s : Forest × κ} (h : Replies rooted w engine (.ok none) s) (hs : strict = true) :
      Ends strict rooted w engine (.missingRoot engine.id)
  | refused {root p : NodeRef} {s : Forest × κ} {f : Fault}
      (h : Replies rooted w engine (.ok (some root)) s) (hs : rooted.suite? = some p)
      (hadd : s.1.addChild p (some root) = .error f) : Ends strict rooted w engine f

/-- Turns one after the other. -/
inductive Turns (phase : Phase) (strict : Bool) (rooted : RootedRequest) :
    World κ ω ρ → List (Engine κ × Fate) → World κ ω ρ → Prop where
  | done {w : World κ ω ρ} : Turns phase strict rooted w [] w
  | next {w u w' : World κ ω ρ} {engine : Engine κ} {fate : Fate}
      {turns : List (Engine κ × Fate)} (h : Turn phase strict rooted w engine fate u)
      (hrest : Turns phase strict rooted u turns w') :
      Turns phase strict rooted w ((engine, fate) :: turns) w'

/-- The roots that were recorded, with their engines. -/
def recorded (turns : List (Engine κ × Fate)) : List (Engine κ × NodeRef) :=
  turns.filterMap fun t => t.2.root?.map fun root => (t.1, root)

/-- The lines of turns. -/
def lines (phase : Phase) (turns : List (Engine κ × Fate)) : List LogRecord :=
  turns.flatMap fun t => t.2.lines phase t.1.id

end Resolution

/-! ## One engine -/

namespace Resolution

variable {κ ω ρ : Type} {strict : Bool} {phase : Phase} {rooted : RootedRequest}
  {engine : Engine κ} {r : Resolution κ} {w w' : World κ ω ρ} {s : Forest × κ} {f : Fault}

/-- Filters that do not fail give an answer about each engine. -/
theorem excludes_ok {filters : List EngineFilter} (h : ∀ filter ∈ filters, filter.Unfailing)
    (engineId : String) : ∃ excluded, excludes filters engineId = .ok excluded := by
  induction filters with
  | nil => exact ⟨false, rfl⟩
  | cons filter filters ih =>
      obtain ⟨v, hv⟩ := Filter.apply_ok filter fun rule hrule =>
        h filter (by simp) rule hrule engineId
      obtain ⟨excluded, hrest⟩ := ih fun g hg => h g (by simp [hg])
      rw [excludes] at hrest ⊢
      rw [List.anyM_cons, EngineFilter.verdict, hv]
      cases hincluded : v.included with
      | false => exact ⟨true, by simp [bind, Except.bind, hincluded]; rfl⟩
      | true =>
          refine ⟨excluded, ?_⟩
          simp only [bind, Except.bind, hincluded]
          exact hrest

/-- An id that is not blank makes an id for a root. -/
theorem rootId_ok {engineId : String} (h : Text.isBlank engineId = false)
    (suite? : Option UniqueId) : ∃ id, rootId suite? engineId = .ok id := by
  obtain ⟨t, ht⟩ : ∃ t, Segment.make Segment.engineType engineId = .ok t :=
    Segment.make_ok (by decide) (by decide) h
  cases suite? with
  | none => exact ⟨.single t, by rw [rootId, UniqueId.forEngine, UniqueId.root, ht]; rfl⟩
  | some u => exact ⟨u.push t, by rw [rootId, UniqueId.append, ht]; rfl⟩

/-- The lines of one turn after the other are kept in order. -/
theorem turned_turned (w : World κ ω ρ) (s s' : Forest × κ) (ls ls' : List LogRecord) :
    turned (turned w s ls) s' ls' = turned w s' (ls ++ ls') := by
  rw [turned, turned, turned, List.foldl_append]

/-- What an engine does is done to the forest and to its own state. -/
theorem on_byEngine {α : Type} {steps : Steps (Forest × κ) α} {result : Except Fault α}
    (h : steps.on (w.forest, w.engines) = (result, s)) :
    (Run.byEngine steps : Run κ ω ρ α).on w = (result, turned w s []) := by
  have hview : steps.on (Run.engineView w) = (result, s) := h
  rw [Run.byEngine, Steps.on_within, hview]
  rfl

section

variable {id : UniqueId}
  (hid : rootId ((rooted.suite?.bind w.forest.node?).map Node.id) engine.id = .ok id)

include hid

/-- An engine that fails to discover has no root, and a warning tells why. -/
theorem on_discoverRoot_failed
    (h : (engine.discover rooted.request id).on (w.forest, w.engines) = (.error f, s))
    (hf : f.escapes = false) :
    (discoverRoot strict engine rooted).on w
      = (.ok none, turned w s [LogLevel.warning.record Forest.logger ("Engine with ID '" ++
          engine.id ++ "' failed to " ++ "discover" ++ " tests: " ++ f.message) (some f)]) := by
  rw [discoverRoot, Steps.on_bind_ok (Steps.on_get w)]
  dsimp only
  rw [hid, Steps.on_bind_ok (Steps.on_ofExcept _ w),
    Steps.on_bind_ok (on_guarded_held (on_byEngine h) hf)]
  rfl

/-- A fault that nothing contains ends the resolution. -/
theorem on_discoverRoot_escaped
    (h : (engine.discover rooted.request id).on (w.forest, w.engines) = (.error f, s))
    (hf : f.escapes = true) : ((discoverRoot strict engine rooted).on w).1 = .error f := by
  rw [discoverRoot, Steps.on_bind_ok (Steps.on_get w)]
  dsimp only
  rw [hid, Steps.on_bind_ok (Steps.on_ofExcept _ w)]
  exact Steps.on_bind_fails (on_guarded_escapes (on_byEngine h) hf) _

/-- An engine without a root is left out, and an error is logged. -/
theorem on_discoverRoot_rootless
    (h : (engine.discover rooted.request id).on (w.forest, w.engines) = (.ok none, s)) :
    (discoverRoot false engine rooted).on w
      = (.ok none, turned w s [LogLevel.error.record Forest.logger
          (Fault.missingRoot engine.id).message]) := by
  rw [discoverRoot, Steps.on_bind_ok (Steps.on_get w)]
  dsimp only
  rw [hid, Steps.on_bind_ok (Steps.on_ofExcept _ w),
    Steps.on_bind_ok (on_guarded_ok (on_byEngine h))]
  rfl

/-- In a strict launcher an engine without a root ends the resolution. -/
theorem on_discoverRoot_strict
    (h : (engine.discover rooted.request id).on (w.forest, w.engines) = (.ok none, s)) :
    ((discoverRoot true engine rooted).on w).1 = .error (.missingRoot engine.id) := by
  rw [discoverRoot, Steps.on_bind_ok (Steps.on_get w)]
  dsimp only
  rw [hid, Steps.on_bind_ok (Steps.on_ofExcept _ w),
    Steps.on_bind_ok (on_guarded_ok (on_byEngine h))]
  rfl

/-- The root that an engine returns is passed on. -/
theorem on_discoverRoot_ok {root : NodeRef}
    (h : (engine.discover rooted.request id).on (w.forest, w.engines) = (.ok (some root), s)) :
    (discoverRoot strict engine rooted).on w = (.ok (some root), turned w s []) := by
  rw [discoverRoot, Steps.on_bind_ok (Steps.on_get w)]
  dsimp only
  rw [hid, Steps.on_bind_ok (Steps.on_ofExcept _ w),
    Steps.on_bind_ok (on_guarded_ok (on_byEngine h))]
  rfl

end

/-- The resolution with what a turn records. -/
def noting (r : Resolution κ) (engine : Engine κ) (fate : Fate) : Resolution κ :=
  { r with roots := r.roots ++ (fate.root?.map fun root => (engine, root)).toList }

/-- A turn without a root records nothing. -/
theorem noting_of_none {fate : Fate} (h : fate.root? = none) (r : Resolution κ)
    (engine : Engine κ) : r.noting engine fate = r := by
  simp [noting, h]

/-- Without a suite a root is just recorded. -/
theorem on_addRoot_none (hs : r.suite? = none) (root : NodeRef) :
    (addRoot r engine root : Run κ ω ρ (Resolution κ)).on w
      = (.ok (r.noting engine (.recorded root)), w) := by
  cases r
  cases hs
  rfl

/-- With a suite a root is recorded and attached to the suite. -/
theorem on_addRoot_ok {p root : NodeRef} {g : Forest} (hs : r.suite? = some p)
    (h : w.forest.addChild p (some root) = .ok g) :
    (addRoot r engine root : Run κ ω ρ (Resolution κ)).on w
      = (.ok (r.noting engine (.recorded root)), turned w (g, w.engines) []) := by
  have hattach : (Run.onForest (Forest.attach p root).first : Run κ ω ρ Unit).on w
      = (.ok (), turned w (g, w.engines) []) := by
    rw [Run.onForest, Steps.on_within, Steps.on_first, Forest.on_attach, h]
    rfl
  cases r
  cases hs
  exact (Steps.on_bind_ok hattach _).trans rfl

/-- A root that cannot be attached ends the resolution. -/
theorem on_addRoot_error {p root : NodeRef} (hs : r.suite? = some p)
    (h : w.forest.addChild p (some root) = .error f) :
    ((addRoot r engine root : Run κ ω ρ (Resolution κ)).on w).1 = .error f := by
  have hattach : ((Run.onForest (Forest.attach p root).first : Run κ ω ρ Unit).on w).1
      = .error f := by
    rw [Run.onForest, Steps.on_within, Steps.on_first, Forest.on_attach, h]
  rw [addRoot, hs]
  exact Steps.on_bind_fails hattach _

/-- An engine that no filter excludes is asked after a line about it. -/
theorem on_addEngine_asked (hex : excludes rooted.request.engineFilters engine.id = .ok false) :
    (addEngine phase strict rooted r engine).on w
      = ((do
          match ← discoverRoot strict engine rooted with
          | none => return r
          | some root => addRoot r engine root : Run κ ω ρ (Resolution κ)).on
            (turned w (w.forest, w.engines) [askingRecord phase engine.id])) := by
  rw [addEngine, hex, Steps.on_bind_ok (Steps.on_ofExcept _ w), if_neg Bool.false_ne_true,
    Steps.on_bind_ok (on_log _)]
  rfl

/-- Lines in the journal change no reply. -/
theorem Replies.after_lines {result : Except Fault (Option NodeRef)}
    (h : Replies rooted w engine result s) (ls : List LogRecord) :
    Replies rooted (turned w (w.forest, w.engines) ls) engine result s := h

/-- An engine has its turn. -/
theorem Turn.on_addEngine {fate : Fate} {u : World κ ω ρ}
    (h : Turn phase strict rooted w engine fate u) (hs : r.suite? = rooted.suite?) :
    (addEngine phase strict rooted r engine).on w = (.ok (r.noting engine fate), u) := by
  cases h with
  | excluded hex =>
      rw [addEngine, hex, Steps.on_bind_ok (Steps.on_ofExcept _ w), if_pos rfl,
        Steps.on_bind_ok (on_log _), noting_of_none rfl]
      rfl
  | failed h hf =>
      obtain ⟨hex, id, hid, hd⟩ := h.after_lines [askingRecord phase engine.id]
      rw [on_addEngine_asked hex, Steps.on_bind_ok (on_discoverRoot_failed hid hd hf),
        turned_turned, noting_of_none rfl]
      rfl
  | rootless h hstrict =>
      obtain ⟨hex, id, hid, hd⟩ := h.after_lines [askingRecord phase engine.id]
      subst hstrict
      rw [on_addEngine_asked hex, Steps.on_bind_ok (on_discoverRoot_rootless hid hd),
        turned_turned, noting_of_none rfl]
      rfl
  | recorded h hsuite =>
      obtain ⟨hex, id, hid, hd⟩ := h.after_lines [askingRecord phase engine.id]
      rw [on_addEngine_asked hex, Steps.on_bind_ok (on_discoverRoot_ok hid hd), turned_turned]
      exact on_addRoot_none (hs.trans hsuite) _
  | placed h hsuite hadd =>
      obtain ⟨hex, id, hid, hd⟩ := h.after_lines [askingRecord phase engine.id]
      rw [on_addEngine_asked hex, Steps.on_bind_ok (on_discoverRoot_ok hid hd), turned_turned]
      refine (on_addRoot_ok (hs.trans hsuite) hadd).trans ?_
      rw [turned_turned]
      rfl

/-- An engine ends the resolution. -/
theorem Ends.on_addEngine (h : Ends strict rooted w engine f) (hs : r.suite? = rooted.suite?) :
    ((addEngine phase strict rooted r engine).on w).1 = .error f := by
  cases h with
  | escaped h hf =>
      obtain ⟨hex, id, hid, hd⟩ := h.after_lines [askingRecord phase engine.id]
      rw [on_addEngine_asked hex]
      exact Steps.on_bind_fails (on_discoverRoot_escaped hid hd hf) _
  | strict h hstrict =>
      obtain ⟨hex, id, hid, hd⟩ := h.after_lines [askingRecord phase engine.id]
      subst hstrict
      rw [on_addEngine_asked hex]
      exact Steps.on_bind_fails (on_discoverRoot_strict hid hd) _
  | refused h hsuite hadd =>
      obtain ⟨hex, id, hid, hd⟩ := h.after_lines [askingRecord phase engine.id]
      rw [on_addEngine_asked hex, Steps.on_bind_ok (on_discoverRoot_ok hid hd)]
      exact on_addRoot_error (hs.trans hsuite) hadd

/-- An engine that replies ends the resolution, or has its turn. -/
theorem Replies.ends_or_turn {result : Except Fault (Option NodeRef)}
    (h : Replies rooted w engine result s) (phase : Phase) (strict : Bool) :
    (∃ f, Ends strict rooted w engine f) ∨ ∃ fate u, Turn phase strict rooted w engine fate u := by
  rcases result with f | _ | root
  · cases hf : f.escapes with
    | true => exact Or.inl ⟨f, .escaped h hf⟩
    | false => exact Or.inr ⟨_, _, .failed h hf⟩
  · cases strict with
    | true => exact Or.inl ⟨_, .strict h rfl⟩
    | false => exact Or.inr ⟨_, _, .rootless h rfl⟩
  · cases hsuite : rooted.suite? with
    | none => exact Or.inr ⟨_, _, .recorded h hsuite⟩
    | some p =>
        cases hadd : s.1.addChild p (some root) with
        | error f => exact Or.inl ⟨f, .refused h hsuite hadd⟩
        | ok g => exact Or.inr ⟨_, _, .placed h hsuite hadd⟩

/-- An engine that no filter excludes and that can be given an id replies. -/
theorem exists_replies {id : UniqueId}
    (hex : excludes rooted.request.engineFilters engine.id = .ok false)
    (hid : rootId ((rooted.suite?.bind w.forest.node?).map Node.id) engine.id = .ok id) :
    ∃ result s, Replies rooted w engine result s :=
  ⟨_, _, hex, id, hid, rfl⟩

/-- An engine that did not end the resolution had its turn. -/
theorem exists_turn {r' : Resolution κ} (hs : r.suite? = rooted.suite?)
    (h : (addEngine phase strict rooted r engine).on w = (.ok r', w')) :
    ∃ fate, Turn phase strict rooted w engine fate w' ∧ r' = r.noting engine fate := by
  obtain ⟨excluded, w₀, hex, hrest⟩ := Steps.on_bind_eq_ok h
  rw [Steps.on_ofExcept] at hex
  injection hex with hex hw₀
  subst hw₀
  have hturn : ∃ fate u, Turn phase strict rooted w engine fate u := by
    cases excluded with
    | true => exact ⟨_, _, .excluded hex⟩
    | false =>
        rw [if_neg Bool.false_ne_true] at hrest
        obtain ⟨_, w₁, hlog, hrest⟩ := Steps.on_bind_eq_ok hrest
        obtain ⟨root?, w₂, hdiscover, -⟩ := Steps.on_bind_eq_ok hrest
        obtain ⟨w₃, _, hget, hdiscover⟩ := Steps.on_bind_eq_ok hdiscover
        obtain ⟨id, _, hid, -⟩ := Steps.on_bind_eq_ok hdiscover
        rw [on_log] at hlog
        cases hlog
        cases hget
        rw [Steps.on_ofExcept] at hid
        obtain ⟨result, s, hreplies⟩ := exists_replies (w := w) hex (congrArg Prod.fst hid)
        rcases hreplies.ends_or_turn phase strict with ⟨f, hends⟩ | hturn
        · have herror : ((addEngine phase strict rooted r engine).on w).1 = .error f :=
            hends.on_addEngine hs
          rw [h] at herror
          cases herror
        · exact hturn
  obtain ⟨fate, u, hturn⟩ := hturn
  have hon := hturn.on_addEngine hs
  rw [h] at hon
  cases hon
  exact ⟨fate, hturn, rfl⟩

/-! ## All engines -/

variable {engines : List (Engine κ)} {filters : List NodeFilter}

/-- The resolution with what turns record. -/
def notingAll (r : Resolution κ) (turns : List (Engine κ × Fate)) : Resolution κ :=
  { r with roots := r.roots ++ recorded turns }

theorem notingAll_cons (r : Resolution κ) (e : Engine κ) (fate : Fate)
    (turns : List (Engine κ × Fate)) :
    r.notingAll ((e, fate) :: turns) = (r.noting e fate).notingAll turns := by
  cases fate <;> simp [notingAll, noting, recorded, Fate.root?]

/-- Engines that did not end the resolution had their turns. -/
theorem exists_turns {r' : Resolution κ} (hs : r.suite? = rooted.suite?)
    (h : (engines.foldlM (addEngine phase strict rooted) r).on w = (.ok r', w')) :
    ∃ turns, Turns phase strict rooted w turns w' ∧ turns.map Prod.fst = engines ∧
      r' = r.notingAll turns := by
  induction engines generalizing r w with
  | nil =>
      cases h
      exact ⟨[], .done, rfl, by simp [notingAll, recorded]⟩
  | cons e es ih =>
      rw [List.foldlM_cons] at h
      obtain ⟨r₁, u, he, h⟩ := Steps.on_bind_eq_ok h
      obtain ⟨fate, hturn, rfl⟩ := exists_turn hs he
      obtain ⟨turns, hturns, hes, rfl⟩ := ih (r := r.noting e fate) hs h
      exact ⟨(e, fate) :: turns, .next hturn hturns, by rw [List.map_cons, hes],
        (notingAll_cons r e fate turns).symm⟩

/-- Engines have their turns. -/
theorem Turns.on_addEngines {turns : List (Engine κ × Fate)}
    (h : Turns phase strict rooted w turns w') (hs : r.suite? = rooted.suite?) :
    ((turns.map Prod.fst).foldlM (addEngine phase strict rooted) r).on w
      = (.ok (r.notingAll turns), w') := by
  induction h generalizing r with
  | done =>
      rw [notingAll, recorded, List.filterMap_nil, List.append_nil]
      rfl
  | @next w u w' engine fate turns hturn _ ih =>
      rw [List.map_cons, List.foldlM_cons, Steps.on_bind_ok (hturn.on_addEngine hs),
        notingAll_cons]
      exact ih (r := r.noting engine fate) hs

/-- The journal after turns. -/
theorem Turns.journal {turns : List (Engine κ × Fate)} {u : World κ ω ρ}
    (h : Turns phase strict rooted w turns u) :
    u.journal = (lines phase turns).foldl Journal.write w.journal := by
  induction h with
  | done => rfl
  | next hturn _ ih =>
      rw [ih, lines, lines, List.flatMap_cons, List.foldl_append]
      cases hturn <;> rfl

end Resolution

/-! ## What is taken away -/

/-- The second journal is the first with lines about nodes that were taken away. -/
def Journal.Removals (j j' : Journal) : Prop :=
  ∃ removed : List LogRecord, (∀ l ∈ removed, ∃ n v, l = Forest.removalRecord n v) ∧
    j' = removed.foldl Journal.write j

/-- A journal is itself with no lines about removals. -/
theorem Journal.Removals.refl (j : Journal) : j.Removals j := ⟨[], by simp, rfl⟩

/-- Lines about removals after such lines are lines about removals. -/
theorem Journal.Removals.trans {j j' j'' : Journal} (h : j.Removals j') (h' : j'.Removals j'') :
    j.Removals j'' := by
  obtain ⟨ls, hls, rfl⟩ := h
  obtain ⟨ls', hls', rfl⟩ := h'
  refine ⟨ls ++ ls', ?_, by rw [List.foldl_append]⟩
  intro l hl
  exact (List.mem_append.mp hl).elim (hls l) (hls' l)

/-- Sifting a node logs at most its removal. -/
theorem Forest.removals_siftNode {filter : NodeFilter} {root r : NodeRef}
    {s t : Forest × Journal} (h : (siftNode filter root r).on s = (.ok (), t)) :
    s.2.Removals t.2 := by
  obtain ⟨f, j⟩ := s
  rw [siftNode, Steps.on_bind_ok (Steps.on_get _)] at h
  dsimp only at h
  cases hr : f.node? r with
  | none =>
      rw [hr] at h
      cases h
      exact .refl j
  | some n =>
      rw [hr] at h
      dsimp only at h
      split at h
      · cases h
        exact .refl j
      · obtain ⟨v, s₁, hv, h⟩ := Steps.on_bind_eq_ok h
        rw [Steps.on_ofExcept] at hv
        injection hv with _ hs₁
        subst hs₁
        split at h
        · cases h
          exact .refl j
        · obtain ⟨u, s₂, hset, h⟩ := Steps.on_bind_eq_ok h
          cases hset
          rw [Steps.on_first] at h
          cases congrArg Prod.snd h
          exact ⟨[removalRecord n v], by simp, rfl⟩

/-- Sifting writes no other lines. -/
theorem Forest.removals_sift {filter : NodeFilter} {root : NodeRef} {s t : Forest × Journal}
    (h : (sift filter root).on s = (.ok (), t)) : s.2.Removals t.2 :=
  visitPostOrder_preserves (P := fun t => s.2.Removals t.2) (fun _ => rfl)
    (fun _ _ _ hs hon => hs.trans (removals_siftNode hon)) (.refl s.2) h

namespace Resolution

variable {κ ω ρ : Type} {strict : Bool} {phase : Phase} {rooted : RootedRequest}
  {engines : List (Engine κ)} {filters : List NodeFilter} {r : Resolution κ} {w w' : World κ ω ρ}

/-- A sieve logs removals only. -/
theorem removals_sift (h : (sift filters r).on w = (.ok (), w')) :
    w.journal.Removals w'.journal := by
  obtain ⟨filter, w₁, hcompose, h⟩ := Steps.on_bind_eq_ok h
  rw [Steps.on_ofExcept] at hcompose
  injection hcompose with _ hw₁
  subst hw₁
  refine Steps.forM_preserves (P := fun u => w.journal.Removals u.journal) ?_ (.refl _) h
  intro e _ u v hu hon
  rw [Run.onForest, Steps.on_within] at hon
  injection hon with hok hv
  rw [← hv]
  exact hu.trans (Forest.removals_sift (Prod.ext hok rfl))

/-- Pruning writes nothing. -/
theorem journal_prune (h : (prune r).on w = (.ok (), w')) : w'.journal = w.journal := by
  refine Steps.forM_preserves (P := fun u => u.journal = w.journal) ?_ rfl h
  intro e _ u v hu hon
  rw [Run.onForest, Steps.on_within, Steps.on_first] at hon
  injection hon with _ hv
  rw [← hv]
  exact hu

/-- Sifting does to the forest what thinning does. -/
theorem sift_ok {filter : NodeFilter} {g : Forest}
    (hcompose : Filter.compose (filters.map some) = .ok filter)
    (hthin : ((r.roots.map Prod.snd).forM (Forest.thinBelow (Forest.includes filter))).on w.forest
      = (.ok (), g)) : ∃ w', (sift filters r).on w = (.ok (), w') ∧ w'.forest = g := by
  obtain ⟨j, hsift⟩ := on_forM_onForest (c := fun e : Engine κ × NodeRef => Forest.sift filter e.2)
    (fun e => Forest.sift_follows filter e.2) r.roots w
  rw [hthin] at hsift
  refine ⟨{ w with forest := g, journal := j }, ?_, rfl⟩
  rw [sift, hcompose]
  exact hsift

/-- Pruning does not fail, and leaves the branches with tests. -/
theorem prune_ok {g : Forest}
    (hthin : ((r.roots.map Prod.snd).forM
      (Forest.thinBelow fun f r => .ok (f.isTest r))).on w.forest = (.ok (), g)) :
    ∃ w', (prune r).on w = (.ok (), w') ∧ w'.forest = g := by
  obtain ⟨j, hprune⟩ := on_forM_onForest
    (c := fun e : Engine κ × NodeRef => (Forest.prune e.2).first)
    (fun e => prune_follows e.2) r.roots w
  rw [hthin] at hprune
  exact ⟨{ w with forest := g, journal := j }, hprune, rfl⟩

/-- Sifting and pruning come to an end where links agree and no root stands on a cycle. -/
theorem thin_recorded_ok (hfilters : ∀ filter ∈ filters, filter.Unfailing)
    (hlinked : w.forest.Linked) (hdeep : ∀ e ∈ r.roots, ∃ k, w.forest.Deep k e.2) :
    ∃ u w', (sift filters r).on w = (.ok (), u) ∧ (prune r).on u = (.ok (), w') ∧
      w.journal.Removals w'.journal := by
  obtain ⟨filter, hcompose⟩ : ∃ filter, Filter.compose (filters.map some) = .ok filter :=
    ⟨_, Filter.compose_some _⟩
  have hroots : ∀ x ∈ r.roots.map Prod.snd, ∃ k, w.forest.Deep k x := by
    intro x hx
    obtain ⟨e, he, rfl⟩ := List.mem_map.mp hx
    exact hdeep e he
  obtain ⟨g, hthin, hlinked', hloose⟩ :=
    hlinked.forM_thinBelow (compose_unfailing hfilters hcompose).includes_ok hroots
  obtain ⟨u, hsift, rfl⟩ := sift_ok hcompose hthin
  obtain ⟨g', hthin', -⟩ : ∃ g', ((r.roots.map Prod.snd).forM
      (Forest.thinBelow fun f r => .ok (f.isTest r))).on u.forest = (.ok (), g') ∧ g'.Linked ∧
        u.forest.Loosened g' :=
    hlinked'.forM_thinBelow (fun _ _ => ⟨_, rfl⟩)
      fun x hx => (hroots x hx).elim fun _ hk => hloose.deep hk
  obtain ⟨w', hprune, -⟩ := prune_ok hthin'
  refine ⟨u, w', hsift, hprune, ?_⟩
  rw [journal_prune hprune]
  exact removals_sift hsift

end Resolution

end TestLauncher
