import TestLauncher.Text.Printable

/-! # Quoted text

    A quoted text stands between single quotes, or between double quotes when it
    holds a single quote and no double one.  The quote in use and the backslash get
    a backslash; tab, newline and carriage return have letters; every other
    character that is not printable is written by its code in lower-case
    hexadecimal, in the shortest of the widths two, four and eight. -/

namespace TestLauncher.Text

/-- The hexadecimal digit of a number below sixteen. -/
def hexDigit (n : Nat) : Char :=
  if n < 10 then Char.ofNat (0x30 + n) else Char.ofNat (0x57 + n)

/-- The last `width` hexadecimal digits of a number. -/
def hexDigits : Nat → Nat → List Char
  | 0, _ => []
  | width + 1, n => hexDigits width (n / 16) ++ [hexDigit (n % 16)]

/-- The quote that surrounds a text. -/
def quoteMark (cs : List Char) : Char :=
  if cs.contains '\x27' && !cs.contains '"' then '"' else '\x27'

/-- The characters written for one character between the given quotes. -/
def escapeChar (mark c : Char) : List Char :=
  if c = mark ∨ c = '\\' then ['\\', c]
  else if c = '\t' then ['\\', 't']
  else if c = '\n' then ['\\', 'n']
  else if c = '\r' then ['\\', 'r']
  else if isPrintable c then [c]
  else if c.toNat < 0x100 then '\\' :: 'x' :: hexDigits 2 c.toNat
  else if c.toNat < 0x10000 then '\\' :: 'u' :: hexDigits 4 c.toNat
  else '\\' :: 'U' :: hexDigits 8 c.toNat

/-- The text between quotes, with the characters that need it escaped. -/
def quote (s : String) : String :=
  let mark := quoteMark s.toList
  String.ofList (mark :: s.toList.flatMap (escapeChar mark) ++ [mark])

/-- The quoted text, or the word for an absent one. -/
def quote? : Option String → String
  | none => "None"
  | some s => quote s

/-- Written items between square brackets. -/
def bracketed (items : List String) : String :=
  "[" ++ String.intercalate ", " items ++ "]"

/-- The quoted texts between square brackets. -/
def quoteList (texts : List String) : String :=
  bracketed (texts.map quote)

/-- Quoted keys and values between braces. -/
def quotePairs (entries : List (String × String)) : String :=
  "\x7b" ++ String.intercalate ", " (entries.map fun e => quote e.1 ++ ": " ++ quote e.2) ++ "\x7d"

end TestLauncher.Text
