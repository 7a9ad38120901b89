/-! # Sets of characters as ranges

    A character property is a list of closed ranges of code points, ascending and
    apart.  `Ranges.contains` asks whether a code point lies in one of them;
    `Ranges.WellFormed` is the shape every table of this library has. -/

namespace TestLauncher.Text

/-- Closed ranges of code points. -/
abbrev Ranges := List (Nat × Nat)

namespace Ranges

/-- Whether a code point lies in one of the ranges. -/
def contains (rs : Ranges) (n : Nat) : Bool :=
  rs.any fun r => r.1 ≤ n && n ≤ r.2

/-- Each range is not reversed, and ends before the next one starts. -/
def WellFormed : Ranges → Bool
  | [] => true
  | [r] => r.1 ≤ r.2
  | r :: s :: rest => r.1 ≤ r.2 && r.2 < s.1 && WellFormed (s :: rest)

/-- The number of code points covered. -/
def count (rs : Ranges) : Nat :=
  rs.foldl (fun n r => n + (r.2 + 1 - r.1)) 0

@[simp] theorem contains_nil (n : Nat) : contains [] n = false := rfl

@[simp] theorem contains_cons (r : Nat × Nat) (rs : Ranges) (n : Nat) :
    contains (r :: rs) n = ((r.1 ≤ n && n ≤ r.2) || contains rs n) := rfl

end Ranges

end TestLauncher.Text
