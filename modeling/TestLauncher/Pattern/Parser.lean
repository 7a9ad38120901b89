import TestLauncher.Fault
import TestLauncher.Pattern.Syntax

/-! # Reading regular expressions

    A pattern is read in one pass.  A quantifier must follow something that can be
    repeated: neither nothing, nor an anchor, nor another quantifier.  A brace that does
    not open a quantifier stands for itself.  Switches are read at the very start only.

    What is read is a part of the language of patterns that is common elsewhere: characters
    and their escapes, the dot, sets, groups with or without a number, alternatives, greedy
    and lazy quantifiers, anchors, and the switches for the case of letters and for the dot.
    The rest is refused as malformed: looking ahead or behind, groups with a name or a
    condition, references back to a group, octal and named escapes, quantifiers that give
    nothing back, comments, and all other switches. -/

namespace TestLauncher.Pattern

/-- Refuses a pattern. -/
def malformed {α : Type} : Except Fault α := .error .malformedPattern

/-- The value of a hexadecimal digit. -/
def hexValue? (c : Char) : Option Nat :=
  if '0' ≤ c ∧ c ≤ '9' then some (c.toNat - 0x30)
  else if 'a' ≤ c ∧ c ≤ 'f' then some (c.toNat - 0x57)
  else if 'A' ≤ c ∧ c ≤ 'F' then some (c.toNat - 0x37)
  else none

/-- The character with a code of exactly the given number of hexadecimal digits. -/
def readCode (width : Nat) (cs : List Char) : Except Fault (Char × List Char) :=
  let ds := cs.take width
  match ds.mapM hexValue? with
  | some vs =>
    let n := vs.foldl (fun n v => 16 * n + v) 0
    if ds.length = width ∧ n < 0x110000 then .ok (Char.ofNat n, cs.drop width) else malformed
  | none => malformed

/-- What a letter behind a backslash stands for in and outside sets. -/
inductive Escape where
  | char (c : Char)
  | ofClass (cls : CharClass) (negated : Bool)
  | anchor (a : Anchor)

/-- Reads what follows a backslash.  Within a set the letter b is the backspace, and there are
no anchors. -/
def readEscape (inSet : Bool) : List Char → Except Fault (Escape × List Char)
  | [] => malformed
  | 'd' :: cs => .ok (.ofClass .digit false, cs)
  | 'D' :: cs => .ok (.ofClass .digit true, cs)
  | 's' :: cs => .ok (.ofClass .space false, cs)
  | 'S' :: cs => .ok (.ofClass .space true, cs)
  | 'w' :: cs => .ok (.ofClass .word false, cs)
  | 'W' :: cs => .ok (.ofClass .word true, cs)
  | 'a' :: cs => .ok (.char '\x07', cs)
  | 'f' :: cs => .ok (.char '\x0c', cs)
  | 'n' :: cs => .ok (.char '\n', cs)
  | 'r' :: cs => .ok (.char '\r', cs)
  | 't' :: cs => .ok (.char '\t', cs)
  | 'v' :: cs => .ok (.char '\x0b', cs)
  | 'x' :: cs => (readCode 2 cs).map fun r => (.char r.1, r.2)
  | 'u' :: cs => (readCode 4 cs).map fun r => (.char r.1, r.2)
  | 'U' :: cs => (readCode 8 cs).map fun r => (.char r.1, r.2)
  | 'b' :: cs => .ok (if inSet then .char '\x08' else .anchor .boundary, cs)
  | 'B' :: cs => if inSet then malformed else .ok (.anchor .noBoundary, cs)
  | 'A' :: cs => if inSet then malformed else .ok (.anchor .start, cs)
  | 'Z' :: cs => if inSet then malformed else .ok (.anchor .stop, cs)
  | c :: cs => if c.isAlphanum then malformed else .ok (.char c, cs)

/-- Reads one member of a set, where a range may begin or end. -/
def readSetMember : List Char → Except Fault (Escape × List Char)
  | [] => malformed
  | '\\' :: cs => readEscape true cs
  | c :: cs => .ok (.char c, cs)

/-- The item for a member that stands alone. -/
def Escape.item : Escape → SetItem
  | char c => .range c c
  | ofClass cls negated => .ofClass cls negated
  | anchor _ => .range '\x00' '\x00'

/-- Reads the members of a set up to the closing bracket; a bracket that comes first is a
member. -/
def readSet : Nat → List SetItem → List Char → Except Fault (List SetItem × List Char)
  | 0, _, _ => malformed
  | fuel + 1, items, cs =>
    match cs, items with
    | ']' :: rest, _ :: _ => .ok (items.reverse, rest)
    | _, _ => do
      let (first, rest) ← readSetMember cs
      match rest with
      | '-' :: ']' :: rest => .ok ((.range '-' '-' :: first.item :: items).reverse, rest)
      | '-' :: rest =>
        let (second, rest) ← readSetMember rest
        match first, second with
        | .char low, .char high =>
          if high < low then malformed else readSet fuel (.range low high :: items) rest
        | _, _ => malformed
      | _ => readSet fuel (first.item :: items) rest

/-- Reads a decimal number, if a digit stands first. -/
def readNumber? (cs : List Char) : Option Nat × List Char :=
  let ds := cs.takeWhile Char.isDigit
  (if ds.isEmpty then none else some (ds.foldl (fun n c => 10 * n + (c.toNat - 0x30)) 0),
    cs.dropWhile Char.isDigit)

/-- Reads the bounds of a quantifier behind its opening brace, or finds that there is none. -/
def readBounds? (cs : List Char) : Option ((Nat × Option Nat) × List Char) :=
  match cs with
  | '}' :: _ => none
  | _ =>
    let (low?, rest) := readNumber? cs
    match rest with
    | ',' :: rest =>
      let (high?, rest) := readNumber? rest
      match rest with
      | '}' :: rest => some ((low?.getD 0, high?), rest)
      | _ => none
    | '}' :: rest => some ((low?.getD 0, low?), rest)
    | _ => none

/-- Reads a quantifier, if one stands first. -/
def readQuantifier? (cs : List Char) : Option ((Nat × Option Nat) × List Char) :=
  match cs with
  | '*' :: rest => some ((0, none), rest)
  | '+' :: rest => some ((1, none), rest)
  | '?' :: rest => some ((0, some 1), rest)
  | '{' :: rest => readBounds? rest
  | _ => none

/-- What has been read of a sequence, and whether its last item can be repeated. -/
structure Sequence where
  /-- The items before the last one. -/
  done : Regex := .empty
  /-- The last item, unless there is none or it cannot be repeated. -/
  last : Option Regex := none

/-- The sequence as a regular expression. -/
def Sequence.regex (q : Sequence) : Regex :=
  match q.last with
  | none => q.done
  | some r => .seq q.done r

/-- The sequence with one more item, which may be repeated. -/
def Sequence.push (q : Sequence) (r : Regex) : Sequence := ⟨q.regex, some r⟩

/-- The sequence with one more item, which may not be repeated. -/
def Sequence.seal (q : Sequence) (r : Regex) : Sequence := ⟨.seq q.regex r, none⟩

mutual

/-- Reads alternatives up to a closing parenthesis or the end. -/
def readAlternatives : Nat → List Char → Except Fault (Regex × List Char)
  | 0, _ => malformed
  | fuel + 1, cs => do
    let (r, rest) ← readSequence fuel {} cs
    match rest with
    | '|' :: rest =>
      let (s, rest) ← readAlternatives fuel rest
      return (.alt r s, rest)
    | _ => return (r, rest)

/-- Reads a sequence up to a bar, a closing parenthesis or the end. -/
def readSequence : Nat → Sequence → List Char → Except Fault (Regex × List Char)
  | 0, _, _ => malformed
  | fuel + 1, q, cs =>
    match readQuantifier? cs with
    | some ((least, most), rest) =>
      if most.any (· < least) then malformed
      else
        match q.last with
        | none => malformed
        | some r =>
          let rest :=
            match rest with
            | '?' :: more => more
            | _ => rest
          readSequence fuel (Sequence.seal ⟨q.done, none⟩ (.loop r least most)) rest
    | none =>
      match cs with
      | [] => .ok (q.regex, [])
      | '|' :: _ => .ok (q.regex, cs)
      | ')' :: _ => .ok (q.regex, cs)
      | '.' :: rest => readSequence fuel (q.push .dot) rest
      | '^' :: rest => readSequence fuel (q.seal (.anchor .start)) rest
      | '$' :: rest => readSequence fuel (q.seal (.anchor .lineEnd)) rest
      | '[' :: '^' :: rest => do
        let (items, rest) ← readSet (rest.length + 1) [] rest
        readSequence fuel (q.push (.oneOf ⟨items, true⟩)) rest
      | '[' :: rest => do
        let (items, rest) ← readSet (rest.length + 1) [] rest
        readSequence fuel (q.push (.oneOf ⟨items, false⟩)) rest
      | '\\' :: rest => do
        let (e, rest) ← readEscape false rest
        match e with
        | .char c => readSequence fuel (q.push (.oneOf (.single c))) rest
        | .ofClass cls negated =>
          readSequence fuel (q.push (.oneOf ⟨[.ofClass cls negated], false⟩)) rest
        | .anchor a => readSequence fuel (q.seal (.anchor a)) rest
      | '(' :: '?' :: ':' :: rest => readGroup fuel q rest
      | '(' :: '?' :: _ => malformed
      | '(' :: rest => readGroup fuel q rest
      | c :: rest => readSequence fuel (q.push (.oneOf (.single c))) rest

/-- Reads a group behind its opening parenthesis, and goes on with the sequence. -/
def readGroup : Nat → Sequence → List Char → Except Fault (Regex × List Char)
  | 0, _, _ => malformed
  | fuel + 1, q, cs => do
    let (r, rest) ← readAlternatives fuel cs
    match rest with
    | ')' :: rest => readSequence fuel (q.push r) rest
    | _ => malformed

end

end TestLauncher.Pattern

namespace TestLauncher

/-- A compiled pattern, with the text it was read from. -/
structure Pattern where
  text : String
  ignoreCase : Bool
  dotAll : Bool
  regex : Pattern.Regex
deriving DecidableEq

namespace Pattern

/-- The switches at the start of a pattern: for the case of letters, and for the dot. -/
def readSwitches : List Char → Bool × Bool × List Char
  | '(' :: '?' :: 'i' :: ')' :: rest => let (_, s, rest) := readSwitches rest; (true, s, rest)
  | '(' :: '?' :: 's' :: ')' :: rest => let (i, _, rest) := readSwitches rest; (i, true, rest)
  | '(' :: '?' :: 'i' :: 's' :: ')' :: rest =>
    let (_, _, rest) := readSwitches rest; (true, true, rest)
  | '(' :: '?' :: 's' :: 'i' :: ')' :: rest =>
    let (_, _, rest) := readSwitches rest; (true, true, rest)
  | rest => (false, false, rest)

/-- Reads a pattern. -/
def compile (text : String) : Except Fault Pattern := do
  let (ignoreCase, dotAll, cs) := readSwitches text.toList
  let (regex, rest) ← readAlternatives (3 * cs.length + 3) cs
  if rest.isEmpty then return { text, ignoreCase, dotAll, regex } else malformed

end Pattern

end TestLauncher
