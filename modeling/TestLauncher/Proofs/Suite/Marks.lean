import TestLauncher.Proofs.Discovery.Expansion
import TestLauncher.Suite.Modules

/-! # Marks that are accepted

    A mark is checked when it is put on a class: what it selects, and what it includes and
    excludes.  The name it shows is not.  The suite is named after the class, with a dot in
    it, so that name is never blank, and the one place where a suite with an accepted mark
    can be refused a node is the name it shows (`Declares.node_cases`): a mark may give
    white space for it, or none on a class whose own name is white space (`ShowsBlank`). -/

namespace TestLauncher

theorem isBlank_className (module qualifiedName : String) :
    Text.isBlank (className module qualifiedName) = false := by
  rw [Bool.eq_false_iff, Text.isBlank, className]
  intro h
  have hdot : '.' ∈ (module ++ "." ++ qualifiedName).toList := by simp
  have hblank := List.all_eq_true.mp h '.' hdot
  exact absurd hblank (by decide)

namespace SuiteMark

variable {m : SuiteMark} {c : Content} {owner qualifiedName ownName : String}
  {d : SuiteDeclaration}

/-- A mark gives white space as the name to show, or nothing on a class whose own name is blank. -/
def ShowsBlank (m : SuiteMark) (ownName : String) : Prop :=
  (∃ text, m.displayName = some text ∧ text ≠ "" ∧ Text.isBlank text = true) ∨
    (m.displayName = none ∨ m.displayName = some "") ∧ Text.isBlank ownName = true

theorem displayName_of_content (h : m.content = .ok c) : c.displayName = m.displayName := by
  obtain ⟨selectors, -, h⟩ := bind_eq_ok h
  obtain ⟨engineFilters, -, h⟩ := bind_eq_ok h
  obtain ⟨nodeFilters, -, h⟩ := bind_eq_ok h
  cases h
  rfl

theorem isBlank_displayName_iff (h : m.content = .ok c) :
    Text.isBlank (c.declaration owner qualifiedName ownName).displayName = true ↔
      m.ShowsBlank ownName := by
  rw [Content.declaration, ShowsBlank, displayName_of_content h]
  cases hc : m.displayName with
  | none => simp
  | some text =>
      by_cases ht : text = ""
      · subst ht
        simp [Option.filter]
      · simp [Option.filter, ht]

/-- A suite is that of a class with an accepted mark. -/
def Declares (owner qualifiedName : String) (d : SuiteDeclaration) : Prop :=
  ∃ (m : SuiteMark) (c : Content) (outer ownName : String), m.content = .ok c ∧
    qualifiedName = outer ++ ownName ∧ d = c.declaration owner qualifiedName ownName

theorem Declares.name (h : Declares owner qualifiedName d) :
    d.name = className owner qualifiedName := by
  obtain ⟨m, c, outer, ownName, -, -, rfl⟩ := h
  rfl

/-- **An accepted mark makes a node possible, but for the name it shows.** -/
theorem Declares.node_cases (h : Declares owner qualifiedName d) :
    Text.isBlank d.displayName = false ∧ (∃ n, d.node = .ok n) ∨
      Text.isBlank d.displayName = true ∧ d.node = .error (.refused .blankDisplayName) := by
  have hname : Text.isBlank d.name = false := by
    rw [h.name]
    exact isBlank_className ..
  rcases d.node_cases with ⟨hfit, id, -, hnode⟩ | ⟨fault, hunfit, hnode⟩
  · exact Or.inl ⟨hfit.2, _, hnode⟩
  · cases hunfit with
    | name hblank =>
        rw [hname] at hblank
        cases hblank
    | displayName _ hblank => exact Or.inr ⟨hblank, hnode⟩

/-- A class with an accepted mark has a suite node unless it shows a blank name. -/
theorem node_ok_iff (h : m.content = .ok c) {outer : String} :
    (∃ n, (c.declaration owner (outer ++ ownName) ownName).node = .ok n) ↔
      ¬ m.ShowsBlank ownName := by
  have hblank : Text.isBlank (c.declaration owner (outer ++ ownName) ownName).displayName = true ↔
      m.ShowsBlank ownName := isBlank_displayName_iff h
  rw [← hblank]
  have hdeclares : Declares owner (outer ++ ownName)
      (c.declaration owner (outer ++ ownName) ownName) := ⟨m, c, outer, ownName, h, rfl, rfl⟩
  rcases hdeclares.node_cases with ⟨hshown, hnode⟩ | ⟨hblank, hnode⟩
  · exact iff_of_true hnode (by rw [hshown]; exact Bool.false_ne_true)
  · refine iff_of_false ?_ (not_not_intro hblank)
    rintro ⟨n, hn⟩
    rw [hnode] at hn
    cases hn

end SuiteMark

/-- The suites in a member, and in its attributes, are those of accepted marks. -/
inductive Member.Marked : Member → Prop where
  | value (v : Scalar) : Marked (.value v)
  | ofClass {owner qualifiedName : String} {suite? : Option SuiteDeclaration}
      {attributes : List (String × Member)}
      (hsuite : ∀ d, suite? = some d → SuiteMark.Declares owner qualifiedName d)
      (hattributes : ∀ e ∈ attributes, Marked e.2) :
      Marked (.ofClass owner qualifiedName suite? attributes)

/-- The suites in the members of a module are those of accepted marks. -/
def MarkedScope (scope : Namespace) : Prop := ∀ e ∈ scope.toList, e.2.Marked

end TestLauncher
