import TestLauncher.DiscoveryRequest

/-! # What a builder keeps

    A builder takes what it is given piece by piece, and a call ends at the first piece it
    refuses: an absent item, or an entry with a blank key.  Nothing is taken back then, and
    the next call goes on from there.  So a call adds to the builder what stands before the
    piece it refuses (`Call.perform_on`), and calls in a row, each made whatever became of
    those before, add all of that (`attempt_on`).

    Of the items that is one list after the other.  The parameters are a map: under a key
    the entry written last counts, but the key stays where it was written first, and where
    there is a default it stays in the place of the default. -/

namespace TestLauncher

namespace RequestBuilder

/-- A call to a builder. -/
inductive Call where
  | select (items : List (Option Selector))
  | filterEngines (items : List (Option EngineFilter))
  | filterNodes (items : List (Option NodeFilter))
  | setParameter (key value : String)
  | setParameters (values : OrderedMap String String)

/-- The items before the first absent one. -/
def present {α : Type} (items : List (Option α)) : List α :=
  (items.takeWhile Option.isSome).filterMap id

/-- The entries before the first one with a blank key. -/
def named (entries : List (String × String)) : List (String × String) :=
  entries.takeWhile fun e => !Text.isBlank e.1

namespace Call

/-- What a call does. -/
def perform : Call → Building Unit
  | select items => RequestBuilder.select items
  | filterEngines items => RequestBuilder.filterEngines items
  | filterNodes items => RequestBuilder.filterNodes items
  | setParameter key value => RequestBuilder.setParameter key value
  | setParameters values => RequestBuilder.setParameters values

/-- Whether there is nothing to refuse: no item is absent, and no key is blank. -/
def complete : Call → Bool
  | select items => items.all Option.isSome
  | filterEngines items => items.all Option.isSome
  | filterNodes items => items.all Option.isSome
  | setParameter key _ => !Text.isBlank key
  | setParameters values => values.toList.all fun e => !Text.isBlank e.1

/-- What a call says when it refuses something. -/
def refusal : Call → Refusal
  | select _ => .stated "selectors must not contain None"
  | filterEngines _ => .stated "engine filters must not contain None"
  | filterNodes _ => .stated "post-discovery filters must not contain None"
  | setParameter _ _ => .blankParameterKey
  | setParameters _ => .blankParameterKey

/-- How a call ends. -/
def result (c : Call) : Except Fault Unit :=
  if c.complete then .ok () else .error (.refused c.refusal)

/-- The selectors a call adds. -/
def selectors : Call → List Selector
  | select items => present items
  | _ => []

/-- The filters on engines a call adds. -/
def engineFilters : Call → List EngineFilter
  | filterEngines items => present items
  | _ => []

/-- The filters on nodes a call adds. -/
def nodeFilters : Call → List NodeFilter
  | filterNodes items => present items
  | _ => []

/-- The entries a call writes. -/
def entries : Call → List (String × String)
  | setParameter key value => named [(key, value)]
  | setParameters values => named values.toList
  | _ => []

end Call

/-- Calls made one after the other, each whatever became of those before: how they end. -/
def attempt (calls : List Call) : Building (List (Except Fault Unit)) :=
  calls.mapM fun c => c.perform.outcome

/-- The builder with all that calls add. -/
def extended (b : RequestBuilder) (calls : List Call) : RequestBuilder where
  selectors := b.selectors ++ calls.flatMap Call.selectors
  engineFilters := b.engineFilters ++ calls.flatMap Call.engineFilters
  nodeFilters := b.nodeFilters ++ calls.flatMap Call.nodeFilters
  parameters := b.parameters.insertAll (calls.flatMap Call.entries)
  defaults := b.defaults

theorem extended_nil (b : RequestBuilder) : b.extended [] = b := by
  simp only [extended, List.flatMap_nil, List.append_nil]
  rfl

theorem extended_append (b : RequestBuilder) (cs ds : List Call) :
    b.extended (cs ++ ds) = (b.extended cs).extended ds := by
  simp only [extended, List.flatMap_append, List.append_assoc, OrderedMap.insertAll_append]

/-! ## One call -/

section

variable {α σ : Type} {b : RequestBuilder}

/-- Adding one piece after the other is adding them all. -/
theorem foldl_add (add : σ → List α → σ) (hnil : ∀ s, add s [] = s)
    (happend : ∀ s xs ys, add (add s xs) ys = add s (xs ++ ys)) (xs : List α) (s : σ) :
    xs.foldl (fun s x => add s [x]) s = add s xs := by
  induction xs generalizing s with
  | nil => exact (hnil s).symm
  | cons x xs ih => rw [List.foldl_cons, ih, happend, List.singleton_append]

/-- Items are added up to the first absent one, which is refused. -/
theorem on_addAll (add : RequestBuilder → List α → RequestBuilder) (hnil : ∀ b, add b [] = b)
    (happend : ∀ b xs ys, add (add b xs) ys = add b (xs ++ ys)) (message : String)
    (items : List (Option α)) :
    (addAll message (fun a b => add b [a]) items).on b =
      (if items.all Option.isSome then .ok () else .error (.refused (.stated message)),
        add b (present items)) := by
  rw [← foldl_add add hnil happend, present, List.foldl_filterMap]
  refine Steps.on_forM_takeWhile (fun item b h => ?_) fun item b h => ?_
  · cases item with
    | none => cases h
    | some a => rfl
  · cases item with
    | none => rfl
    | some a => cases h

/-- Entries are written up to the first one with a blank key, which is refused. -/
theorem on_setEach (es : List (String × String)) :
    (es.forM fun e => setParameter e.1 e.2).on b =
      (if es.all fun e => !Text.isBlank e.1 then .ok () else .error (.refused .blankParameterKey),
        { b with parameters := b.parameters.insertAll (named es) }) := by
  rw [← foldl_add (fun (b : RequestBuilder) es =>
    { b with parameters := b.parameters.insertAll es }) (fun _ => rfl)
    fun b xs ys => by simp only [OrderedMap.insertAll_append]]
  refine Steps.on_forM_takeWhile (fun e b h => ?_) fun e b h => ?_
  · rw [setParameter, if_neg (by simpa using h)]
    rfl
  · rw [setParameter, if_pos (by simpa using h)]
    rfl

/-- To set a parameter is to set each of one. -/
theorem on_setParameter (key value : String) :
    (setParameter key value).on b = ([(key, value)].forM fun e => setParameter e.1 e.2).on b := by
  show _ = (setParameter key value >>= fun _ => pure ()).on b
  rw [Steps.on_bind]
  rcases (setParameter key value).on b with ⟨_ | _, _⟩ <;> rfl

end

theorem extended_singleton (c : Call) (b : RequestBuilder) :
    b.extended [c] =
      { selectors := b.selectors ++ c.selectors
        engineFilters := b.engineFilters ++ c.engineFilters
        nodeFilters := b.nodeFilters ++ c.nodeFilters
        parameters := b.parameters.insertAll c.entries
        defaults := b.defaults } := by
  simp only [extended, List.flatMap_singleton]

/-- A call adds what stands before the piece it refuses, and fails when there is one. -/
theorem Call.perform_on (c : Call) (b : RequestBuilder) :
    c.perform.on b = (c.result, b.extended [c]) := by
  rw [extended_singleton]
  cases c with
  | select items =>
      refine (on_addAll (fun b xs => { b with selectors := b.selectors ++ xs }) ?_ ?_ _ _).trans ?_
      · exact fun b => by rw [List.append_nil]
      · exact fun b xs ys => by rw [List.append_assoc]
      · simp only [engineFilters, nodeFilters, List.append_nil]
        rfl
  | filterEngines items =>
      refine (on_addAll (fun b xs => { b with engineFilters := b.engineFilters ++ xs }) ?_ ?_
        _ _).trans ?_
      · exact fun b => by rw [List.append_nil]
      · exact fun b xs ys => by rw [List.append_assoc]
      · simp only [selectors, nodeFilters, List.append_nil]
        rfl
  | filterNodes items =>
      refine (on_addAll (fun b xs => { b with nodeFilters := b.nodeFilters ++ xs }) ?_ ?_
        _ _).trans ?_
      · exact fun b => by rw [List.append_nil]
      · exact fun b xs ys => by rw [List.append_assoc]
      · simp only [selectors, engineFilters, List.append_nil]
        rfl
  | setParameter key value =>
      refine ((on_setParameter key value).trans (on_setEach _)).trans ?_
      simp only [selectors, engineFilters, nodeFilters, List.append_nil]
      rw [List.all_cons, List.all_nil, Bool.and_true]
      rfl
  | setParameters values =>
      refine (on_setEach values.toList).trans ?_
      simp only [selectors, engineFilters, nodeFilters, List.append_nil]
      rfl

/-! ## Calls in a row -/

/-- Every call adds what it adds alone, whatever became of the others. -/
theorem attempt_on (calls : List Call) (b : RequestBuilder) :
    (attempt calls).on b = (.ok (calls.map Call.result), b.extended calls) := by
  induction calls generalizing b with
  | nil => rw [extended_nil]; rfl
  | cons c cs ih =>
      have hc : c.perform.outcome.on b = (.ok c.result, b.extended [c]) := by
        rw [Steps.on_outcome, Call.perform_on]
      rw [attempt, List.mapM_cons, Steps.on_bind_ok hc]
      refine (Steps.on_bind_ok (ih (b.extended [c])) _).trans ?_
      rw [← extended_append]
      rfl

/-- A builder keeps what preceded a failure.  After any calls the request that is built has, of
each call, the items before the first absent one; under every key the value that was written last,
of those before the first blank key of their call, or else the default; and the keys in the order
of the defaults, and then in the order in which they were written first. -/
theorem keeps_what_precedes (defaults : OrderedMap String String) (calls : List Call) :
    ∃ b, (attempt calls).on { defaults := defaults } = (.ok (calls.map Call.result), b) ∧
      b.build.selectors = calls.flatMap Call.selectors ∧
      b.build.engineFilters = calls.flatMap Call.engineFilters ∧
      b.build.nodeFilters = calls.flatMap Call.nodeFilters ∧
      (∀ key, b.build.parameters.asMap.get? key =
        (OrderedMap.lookup key (calls.flatMap Call.entries).reverse).or (defaults.get? key)) ∧
      b.build.parameters.asMap.keys = defaults.keys ++
        ((calls.flatMap Call.entries).map Prod.fst).eraseDups.filter
          fun key => key ∉ defaults.keys := by
  -- what was set is the map of all that was written, from nothing
  have hset : (extended { defaults := defaults } calls).parameters
      = OrderedMap.ofList (calls.flatMap Call.entries) := rfl
  refine ⟨_, attempt_on calls _, rfl, rfl, rfl, fun key => ?_, ?_⟩
  · rw [Parameters.get?_asMap, build, hset, OrderedMap.get?_ofList]
    rfl
  · rw [Parameters.asMap, OrderedMap.keys_overlay, build, hset, OrderedMap.keys_ofList]
    rfl

example :
    ((attempt [.setParameter "local" "1",
        .setParameters (.ofList [("shared", "y"), (" ", "0"), ("late", "2")]),
        .setParameter "local" "3"]).on
      { defaults := .ofList [("shared", "x"), ("quiet", "no")] }).2.build.parameters.asMap.toList
      = [("shared", "y"), ("quiet", "no"), ("local", "3")] := by
  decide

end RequestBuilder

end TestLauncher
