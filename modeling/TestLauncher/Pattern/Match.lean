import TestLauncher.Pattern.Parser

/-! # Matching

    `Regex.ends` lists the places where a match that begins at a given place may end.  A
    pattern matches a text when a match from its start may end at its end.  Repetition
    needs no more rounds than the text has characters, and one: from then on a round that
    takes nothing can be left out or repeated. -/

namespace TestLauncher.Pattern

/-- Whether the character at a place, if there is one, is a word character. -/
def wordAt (text : Array Char) (i : Nat) : Bool := (text[i]?).any Text.isWordChar

/-- Whether a word character stands on exactly one side of a place. -/
def isBoundary (text : Array Char) (i : Nat) : Bool :=
  (0 < i && wordAt text (i - 1)) != wordAt text i

/-- Whether an anchor holds at a place. -/
def Anchor.holds (text : Array Char) (i : Nat) : Anchor → Bool
  | start => i = 0
  | lineEnd => i = text.size || (i + 1 = text.size && text[i]? = some '\n')
  | stop => i = text.size
  | boundary => !text.isEmpty && isBoundary text i
  | noBoundary => !text.isEmpty && !isBoundary text i

/-- The sets of places reached by no round, one round, two rounds and so on. -/
def rounds (step : Nat → List Nat) : Nat → List Nat → List (List Nat)
  | 0, places => [places]
  | n + 1, places => places :: rounds step n (places.flatMap step).eraseDups

/-- The places where a match that begins at a place may end. -/
def Regex.ends (ignoreCase dotAll : Bool) (text : Array Char) : Regex → Nat → List Nat
  | empty, i => [i]
  | oneOf set, i => if (text[i]?).any (set.contains ignoreCase) then [i + 1] else []
  | dot, i => if (text[i]?).any fun c => dotAll || c ≠ '\n' then [i + 1] else []
  | anchor a, i => if a.holds text i then [i] else []
  | seq r s, i =>
    ((r.ends ignoreCase dotAll text i).flatMap fun j => s.ends ignoreCase dotAll text j).eraseDups
  | alt r s, i => (r.ends ignoreCase dotAll text i ++ s.ends ignoreCase dotAll text i).eraseDups
  | loop r least most, i =>
    let enough := text.size + 1
    let most := min (most.getD enough) enough
    let least := min least enough
    ((rounds (fun j => r.ends ignoreCase dotAll text j) most [i]).drop least).flatten.eraseDups

end TestLauncher.Pattern

namespace TestLauncher.Pattern

/-- Whether a pattern matches a text as a whole. -/
def fits (p : Pattern) (s : String) : Bool :=
  let text := s.toList.toArray
  (p.regex.ends p.ignoreCase p.dotAll text 0).contains text.size

end TestLauncher.Pattern
