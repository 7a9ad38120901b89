import TestLauncher.Fault

/-! # Steps on a state

    `Steps σ α` changes a state of type `σ` and ends with a value or a fault.  A fault
    does not undo what was done before it: the state stays as the last step left it. -/

namespace TestLauncher

/-- Steps on a state that end with a value or a fault. -/
abbrev Steps (σ : Type) := ExceptT Fault (StateM σ)

namespace Steps

variable {σ τ α : Type}

/-- How steps end from a state, and the state they leave. -/
def on (steps : Steps σ α) (s : σ) : Except Fault α × σ := StateT.run (ExceptT.run steps) s

/-- How steps end, without failing. -/
def outcome (steps : Steps σ α) : Steps σ (Except Fault α) :=
  ExceptT.mk (Except.ok <$> ExceptT.run steps)

/-- Changes nothing, and ends with the value or the fault given. -/
def ofExcept (result : Except Fault α) : Steps σ α := ExceptT.mk (pure result)

/-- Steps on a part of the state. -/
def within (part : σ → τ) (update : τ → σ → σ) (steps : Steps τ α) : Steps σ α :=
  ExceptT.mk fun s =>
    let (result, t) := steps.on (part s)
    (result, update t s)

/-- Steps on the first of two parts. -/
def first (steps : Steps σ α) : Steps (σ × τ) α := steps.within Prod.fst fun s p => (s, p.2)

@[simp] theorem on_pure (a : α) (s : σ) : (pure a : Steps σ α).on s = (.ok a, s) := rfl

@[simp] theorem on_throw (f : Fault) (s : σ) : (throw f : Steps σ α).on s = (.error f, s) := rfl

@[simp] theorem on_ofExcept (result : Except Fault α) (s : σ) :
    (ofExcept result : Steps σ α).on s = (result, s) := rfl

@[simp] theorem on_outcome (steps : Steps σ α) (s : σ) :
    (outcome steps).on s = (.ok (steps.on s).1, (steps.on s).2) := rfl

@[simp] theorem on_within (part : σ → τ) (update : τ → σ → σ) (steps : Steps τ α) (s : σ) :
    (within part update steps).on s =
      ((steps.on (part s)).1, update (steps.on (part s)).2 s) := rfl

@[simp] theorem on_first (steps : Steps σ α) (p : σ × τ) :
    (first steps : Steps (σ × τ) α).on p = ((steps.on p.1).1, ((steps.on p.1).2, p.2)) := rfl

/-- Steps go on with the value of those before them, unless these end with a fault. -/
theorem on_bind {β : Type} (steps : Steps σ α) (next : α → Steps σ β) (s : σ) :
    (steps >>= next).on s =
      match steps.on s with
      | (.ok a, s) => (next a).on s
      | (.error f, s) => (.error f, s) := by
  show ((ExceptT.run steps >>= ExceptT.bindCont next : StateM σ _) s) = _
  simp only [bind, StateT.bind, on, StateT.run]
  rcases h : (ExceptT.run steps) s with ⟨r, t⟩
  cases r <;> rfl

theorem ofExcept_ok_bind {β : Type} (a : α) (next : α → Steps σ β) :
    (ofExcept (.ok a) >>= next) = next a := rfl

theorem ofExcept_error_bind {β : Type} (f : Fault) (next : α → Steps σ β) :
    (ofExcept (.error f) >>= next) = ofExcept (.error f) := rfl

@[simp] theorem on_get (s : σ) : (get : Steps σ σ).on s = (.ok s, s) := rfl

@[simp] theorem on_set (s t : σ) : (set t : Steps σ PUnit).on s = (.ok ⟨⟩, t) := rfl

@[simp] theorem on_modify (change : σ → σ) (s : σ) :
    (modify change : Steps σ PUnit).on s = (.ok ⟨⟩, change s) := rfl

@[simp] theorem on_modifyGet (change : σ → α × σ) (s : σ) :
    (modifyGet change : Steps σ α).on s = (.ok (change s).1, (change s).2) := rfl

section

variable {β : Type} {steps : Steps σ α} {s t : σ}

/-- After steps that succeed the next are taken from where they leave off. -/
theorem on_bind_ok {a : α} (h : steps.on s = (.ok a, t)) (next : α → Steps σ β) :
    (steps >>= next).on s = (next a).on t := by
  rw [on_bind, h]

/-- After steps that end with a fault nothing else is done. -/
theorem on_bind_error {f : Fault} (h : steps.on s = (.error f, t)) (next : α → Steps σ β) :
    (steps >>= next).on s = (.error f, t) := by
  rw [on_bind, h]

/-- Steps that fail are not followed by any. -/
theorem on_bind_fails {f : Fault} (h : (steps.on s).1 = .error f) (next : α → Steps σ β) :
    ((steps >>= next).on s).1 = .error f := by
  rcases hs : steps.on s with ⟨result, t⟩
  rw [hs] at h
  subst h
  rw [on_bind_error hs]

/-- Steps in a row succeed when each part does, one in the state the other leaves. -/
theorem on_bind_eq_ok {next : α → Steps σ β} {b : β} {u : σ}
    (h : (steps >>= next).on s = (.ok b, u)) :
    ∃ a t, steps.on s = (.ok a, t) ∧ (next a).on t = (.ok b, u) := by
  rw [on_bind] at h
  rcases hs : steps.on s with ⟨result, t⟩
  rw [hs] at h
  cases result with
  | error f => cases h
  | ok a => exact ⟨a, t, rfl, h⟩

/-- What each round of a loop preserves holds when the loop is done. -/
theorem forM_preserves {P : σ → Prop} {as : List β} {c : β → Steps σ Unit}
    (hstep : ∀ a ∈ as, ∀ s t, P s → (c a).on s = (.ok (), t) → P t) (hs : P s)
    (h : (as.forM c).on s = (.ok (), t)) : P t := by
  induction as generalizing s with
  | nil =>
      cases h
      exact hs
  | cons a as ih =>
      obtain ⟨u, s₁, ha, h⟩ := on_bind_eq_ok h
      exact ih (fun b hb => hstep b (by simp [hb])) (hstep a (by simp) s s₁ hs ha) h

/-- A loop does nothing when none of its rounds does. -/
theorem forM_idle {as : List β} {c : β → Steps σ Unit}
    (h : ∀ a ∈ as, (c a).on s = (.ok (), s)) : (as.forM c).on s = (.ok (), s) := by
  induction as with
  | nil => rfl
  | cons a as ih => exact (on_bind_ok (h a (by simp)) _).trans (ih fun b hb => h b (by simp [hb]))

/-- A loop that goes on over some elements, and fails at any other, goes through those before the
first other one. -/
theorem on_forM_takeWhile {as : List β} {c : β → Steps σ Unit} {p : β → Bool} {g : σ → β → σ}
    {f : Fault} (hgo : ∀ a s, p a = true → (c a).on s = (.ok (), g s a))
    (hstop : ∀ a s, p a = false → (c a).on s = (.error f, s)) :
    (as.forM c).on s = (if as.all p then .ok () else .error f, (as.takeWhile p).foldl g s) := by
  induction as generalizing s with
  | nil => rfl
  | cons a as ih =>
      rw [List.all_cons, List.takeWhile_cons]
      cases ha : p a with
      | true => exact (on_bind_ok (hgo a s ha) _).trans ih
      | false => exact on_bind_error (hstop a s ha) _

/-- A loop that is done went through each round, from a state that the rounds before left. -/
theorem exists_of_mem_forM {P : σ → Prop} {as : List β} {c : β → Steps σ Unit} {a : β}
    (hstep : ∀ a ∈ as, ∀ s t, P s → (c a).on s = (.ok (), t) → P t) (hs : P s)
    (h : (as.forM c).on s = (.ok (), t)) (ha : a ∈ as) :
    ∃ s₁ s₂, P s₁ ∧ (c a).on s₁ = (.ok (), s₂) := by
  induction as generalizing s with
  | nil => exact absurd ha List.not_mem_nil
  | cons b as ih =>
      obtain ⟨u, s₁, hb, h⟩ := on_bind_eq_ok h
      rcases List.mem_cons.mp ha with rfl | ha
      · exact ⟨s, s₁, hs, hb⟩
      · exact ih (fun b hb => hstep b (by simp [hb])) (hstep b (by simp) s s₁ hs hb) h ha

/-- A loop that is done is done as well where each round follows its own. -/
theorem forM_lockstep {τ γ : Type} {R : σ → τ → Prop} {as : List β} {φ : β → γ}
    {c : β → Steps σ Unit} {d : γ → Steps τ Unit} {x : τ}
    (hstep : ∀ a ∈ as, ∀ s t x, R s x → (c a).on s = (.ok (), t) →
      ∃ y, (d (φ a)).on x = (.ok (), y) ∧ R t y)
    (hs : R s x) (h : (as.forM c).on s = (.ok (), t)) :
    ∃ y, ((as.map φ).forM d).on x = (.ok (), y) ∧ R t y := by
  induction as generalizing s x with
  | nil =>
      cases h
      exact ⟨x, rfl, hs⟩
  | cons a as ih =>
      obtain ⟨u, s₁, ha, h⟩ := on_bind_eq_ok h
      obtain ⟨x₁, hx₁, hs₁⟩ := hstep a (by simp) s s₁ x hs ha
      obtain ⟨y, hy, ht⟩ := ih (fun b hb => hstep b (by simp [hb])) hs₁ h
      exact ⟨y, (on_bind_ok hx₁ _).trans hy, ht⟩

/-- A loop is done when each round succeeds wherever it begins. -/
theorem foldlM_ok {c : β → α → Steps σ β} {as : List α}
    (h : ∀ a ∈ as, ∀ b s, ∃ b' t, (c b a).on s = (.ok b', t)) (b : β) (s : σ) :
    ∃ b' t, (as.foldlM c b).on s = (.ok b', t) := by
  induction as generalizing b s with
  | nil => exact ⟨b, s, rfl⟩
  | cons a as ih =>
      obtain ⟨b₁, s₁, h₁⟩ := h a (by simp) b s
      obtain ⟨b', t, hrest⟩ := ih (fun a' ha' => h a' (by simp [ha'])) b₁ s₁
      exact ⟨b', t, by rw [List.foldlM_cons, on_bind_ok h₁, hrest]⟩

/-- What steps for each element end with comes from one of them. -/
theorem exists_of_mem_mapM {c : α → Steps σ β} {as : List α} {bs : List β} {b : β}
    (h : (as.mapM c).on s = (.ok bs, t)) (hb : b ∈ bs) :
    ∃ a ∈ as, ∃ s₁ s₂, (c a).on s₁ = (.ok b, s₂) := by
  induction as generalizing s bs with
  | nil =>
      cases h
      exact absurd hb List.not_mem_nil
  | cons a as ih =>
      rw [List.mapM_cons] at h
      obtain ⟨b', s₁, hb', h⟩ := on_bind_eq_ok h
      obtain ⟨bs', s₂, hbs, h⟩ := on_bind_eq_ok h
      cases h
      rcases List.mem_cons.mp hb with rfl | hb
      · exact ⟨a, by simp, s, s₁, hb'⟩
      · obtain ⟨a', ha', hmem⟩ := ih hbs hb
        exact ⟨a', by simp [ha'], hmem⟩

/-- A changed value changes neither the faults nor the state that is left. -/
theorem on_map (g : α → β) (steps : Steps σ α) (s : σ) :
    (g <$> steps).on s = ((steps.on s).1.map g, (steps.on s).2) := by
  rw [map_eq_pure_bind, on_bind]
  rcases steps.on s with ⟨result, t⟩
  cases result <;> rfl

end

end Steps

end TestLauncher
