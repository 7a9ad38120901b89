import TestLauncher.Text.Blank
import TestLauncher.Text.WordChar
import TestLauncher.Text.DecimalDigit

/-! # Regular expressions

    A pattern is a regular expression with two switches, one for the case of letters and
    one for whether the dot stands for a line break as well.  Groups leave no trace: only
    the set of matched texts is of interest. -/

namespace TestLauncher.Pattern

/-- The named classes of characters. -/
inductive CharClass where
  | digit
  | space
  | word
deriving DecidableEq, Repr

/-- Whether a character is in a named class. -/
def CharClass.contains : CharClass → Char → Bool
  | digit, c => Text.isDecimalDigit c
  | space, c => Text.isBlankChar c
  | word, c => Text.isWordChar c

/-- A member of a character set: a closed range, or a named class or its complement. -/
inductive SetItem where
  | range (low high : Char)
  | ofClass (cls : CharClass) (negated : Bool)
deriving DecidableEq, Repr

/-- A set of characters, or the complement of one. -/
structure CharSet where
  items : List SetItem
  negated : Bool := false
deriving DecidableEq, Repr

/-- A condition on the place in the text. -/
inductive Anchor where
  | start
  /-- At the end, or before a line break that ends the text. -/
  | lineEnd
  | stop
  | boundary
  | noBoundary
deriving DecidableEq, Repr

/-- Regular expressions. -/
inductive Regex where
  | empty
  | oneOf (set : CharSet)
  | dot
  | anchor (a : Anchor)
  | seq (r s : Regex)
  | alt (r s : Regex)
  | loop (r : Regex) (least : Nat) (most : Option Nat)
deriving DecidableEq, Repr

/-- The set of one character. -/
def CharSet.single (c : Char) : CharSet := ⟨[.range c c], false⟩

/-- The letter that a character counts as when case does not matter: capital letters, and the
four other characters whose lower case is one of the letters i, k and s. -/
def foldCase (c : Char) : Char :=
  if c = '\u0130' ∨ c = '\u0131' then 'i'
  else if c = '\u017f' then 's'
  else if c = '\u212a' then 'k'
  else c.toLower

/-- The characters that count as the same letter. -/
def caseVariants (c : Char) : List Char :=
  let f := foldCase c
  [c, f, f.toUpper] ++
    (if f = 'i' then ['\u0130', '\u0131'] else []) ++
    (if f = 's' then ['\u017f'] else []) ++
    (if f = 'k' then ['\u212a'] else [])

/-- Whether a character is among the characters of an item. -/
def SetItem.contains (ignoreCase : Bool) (c : Char) : SetItem → Bool
  | range low high =>
    if ignoreCase then (caseVariants c).any fun d => low ≤ d && d ≤ high
    else low ≤ c && c ≤ high
  | ofClass cls negated => cls.contains c != negated

/-- Whether a character is in a set. -/
def CharSet.contains (ignoreCase : Bool) (s : CharSet) (c : Char) : Bool :=
  s.items.any (SetItem.contains ignoreCase c) != s.negated

end TestLauncher.Pattern
