/-! # Kinds of node

    A node is a container, a test, or both at once. -/

namespace TestLauncher

/-- What a node stands for. -/
inductive NodeKind where
  | container
  | test
  | containerAndTest
deriving DecidableEq, Repr, Inhabited

namespace NodeKind

/-- Whether the node may hold others. -/
def isContainer : NodeKind → Bool
  | container => true
  | test => false
  | containerAndTest => true

/-- Whether the node is a test. -/
def isTest : NodeKind → Bool
  | container => false
  | test => true
  | containerAndTest => true

/-- The word for a kind. -/
def word : NodeKind → String
  | container => "container"
  | test => "test"
  | containerAndTest => "container_and_test"

/-- The word for a kind in capital letters. -/
def capitals : NodeKind → String
  | container => "CONTAINER"
  | test => "TEST"
  | containerAndTest => "CONTAINER_AND_TEST"

/-- The kind a word stands for. -/
def ofWord? (word : String) : Option NodeKind :=
  [container, test, containerAndTest].find? fun k => k.word = word

@[simp] theorem ofWord?_word (k : NodeKind) : ofWord? k.word = some k := by
  cases k <;> decide

end NodeKind

end TestLauncher
