import TestLauncher.Collection.OrderedMap

/-! # JSON texts

    A strict reader: a text is one value with white space around it.  Texts in it keep
    their characters only if every surrogate has its partner; a text with a lone one is
    read, but has no characters. -/

namespace TestLauncher

/-- A value written in JSON. -/
inductive JsonValue where
  | null
  | boolean (b : Bool)
  | number
  /-- A text, unless it holds a lone surrogate. -/
  | text (s : Option String)
  | array (items : List JsonValue)
  /-- The entries as they stand, a key perhaps more than once. -/
  | object (entries : List (Option String × JsonValue))

namespace JsonValue

/-- Whether a character may stand between the parts of a value. -/
def isSpace (c : Char) : Bool := c = ' ' ∨ c = '\t' ∨ c = '\n' ∨ c = '\r'

/-- The characters after white space. -/
def skipSpace (cs : List Char) : List Char := cs.dropWhile isSpace

/-- The value of a hexadecimal digit. -/
def hexDigit? (c : Char) : Option Nat :=
  if c.isDigit then some (c.toNat - 48)
  else if 'a' ≤ c ∧ c ≤ 'f' then some (c.toNat - 87)
  else if 'A' ≤ c ∧ c ≤ 'F' then some (c.toNat - 55)
  else none

/-- The code unit written with four hexadecimal digits, and what follows. -/
def readUnit? : List Char → Option (Nat × List Char)
  | a :: b :: c :: d :: rest => do
    return (((← hexDigit? a) * 16 + (← hexDigit? b)) * 256 +
      (← hexDigit? c) * 16 + (← hexDigit? d), rest)
  | _ => none

/-- The character written by one escaped letter. -/
def escaped? : Char → Option Char
  | '"' => some '"'
  | '\\' => some '\\'
  | '/' => some '/'
  | 'b' => some '\x08'
  | 'f' => some '\x0c'
  | 'n' => some '\n'
  | 'r' => some '\r'
  | 't' => some '\t'
  | _ => none

/-- The code point that two surrogates stand for. -/
def joinSurrogates (high low : Nat) : Nat := 0x10000 + (high - 0xD800) * 0x400 + (low - 0xDC00)

/-- The code units of a text up to its closing quote, and what follows; the first argument bounds
the number of steps. -/
def readUnits? : Nat → List Char → Option (List Nat × List Char)
  | 0, _ => none
  | _ + 1, '"' :: rest => some ([], rest)
  | n + 1, '\\' :: 'u' :: rest => do
    let (unit, rest) ← readUnit? rest
    let (units, rest) ← readUnits? n rest
    return (unit :: units, rest)
  | n + 1, '\\' :: c :: rest => do
    let c ← escaped? c
    let (units, rest) ← readUnits? n rest
    return (c.toNat :: units, rest)
  | n + 1, c :: rest => do
    if c.toNat < 32 then none
    let (units, rest) ← readUnits? n rest
    return (c.toNat :: units, rest)
  | _, [] => none

/-- Whether a code unit is the first of two surrogates. -/
def isHigh (unit : Nat) : Bool := 0xD800 ≤ unit && unit < 0xDC00

/-- Whether a code unit is the second of two surrogates. -/
def isLow (unit : Nat) : Bool := 0xDC00 ≤ unit && unit < 0xE000

/-- The characters of code units, unless a surrogate stands alone. -/
def charsOf? : List Nat → Option (List Char)
  | [] => some []
  | [unit] => if isHigh unit || isLow unit then none else some [Char.ofNat unit]
  | high :: low :: rest =>
    if isHigh high then
      if isLow low then (charsOf? rest).map (Char.ofNat (joinSurrogates high low) :: ·) else none
    else if isLow high then none
    else (charsOf? (low :: rest)).map (Char.ofNat high :: ·)

/-- A text after its opening quote, and what follows. -/
def readText? (cs : List Char) : Option (Option String × List Char) := do
  let (units, rest) ← readUnits? (cs.length + 1) cs
  return ((charsOf? units).map String.ofList, rest)

/-- The digits in front, if there are any, and what follows. -/
def readDigits? (cs : List Char) : Option (List Char × List Char) :=
  match cs.takeWhile Char.isDigit with
  | [] => none
  | digits => some (digits, cs.dropWhile Char.isDigit)

/-- What follows a fraction, if one stands in front. -/
def skipFraction : List Char → List Char
  | '.' :: rest => ((readDigits? rest).map Prod.snd).getD ('.' :: rest)
  | cs => cs

/-- What follows an exponent, if one stands in front. -/
def skipExponent (cs : List Char) : List Char :=
  match cs with
  | e :: rest =>
    if e = 'e' ∨ e = 'E' then
      let digits := match rest with
        | '+' :: more => more
        | '-' :: more => more
        | more => more
      ((readDigits? digits).map Prod.snd).getD cs
    else cs
  | [] => []

/-- What follows a number without sign, if one stands in front. -/
def skipNumber? (cs : List Char) : Option (List Char) :=
  match readDigits? cs with
  | none => none
  | some ('0' :: _, _) => some (skipExponent (skipFraction (cs.drop 1)))
  | some (_, rest) => some (skipExponent (skipFraction rest))

/-- The words that are values. -/
def words : List (List Char × JsonValue) :=
  [("null".toList, .null), ("true".toList, .boolean true), ("false".toList, .boolean false),
    ("NaN".toList, .number), ("Infinity".toList, .number), ("-Infinity".toList, .number)]

/-- A word or a number, and what follows. -/
def readPlain? (cs : List Char) : Option (JsonValue × List Char) :=
  match words.find? fun w => w.1.isPrefixOf cs with
  | some (word, v) => some (v, cs.drop word.length)
  | none =>
    let digits := match cs with
      | '-' :: rest => rest
      | _ => cs
    (skipNumber? digits).map fun rest => (.number, rest)

mutual

/-- A value, and what follows; the first argument bounds the number of steps. -/
def readValue? : Nat → List Char → Option (JsonValue × List Char)
  | 0, _ => none
  | _ + 1, '"' :: rest => do
    let (s, rest) ← readText? rest
    return (.text s, rest)
  | n + 1, '[' :: rest =>
    match skipSpace rest with
    | ']' :: rest => some (.array [], rest)
    | rest => do
      let (items, rest) ← readItems? n rest
      return (.array items, rest)
  | n + 1, '\x7b' :: rest =>
    match skipSpace rest with
    | '\x7d' :: rest => some (.object [], rest)
    | rest => do
      let (entries, rest) ← readEntries? n rest
      return (.object entries, rest)
  | _ + 1, cs => readPlain? cs

/-- The items of an array up to its end, and what follows. -/
def readItems? : Nat → List Char → Option (List JsonValue × List Char)
  | 0, _ => none
  | n + 1, cs => do
    let (item, rest) ← readValue? n cs
    match skipSpace rest with
    | ']' :: rest => return ([item], rest)
    | ',' :: rest =>
      let (items, rest) ← readItems? n (skipSpace rest)
      return (item :: items, rest)
    | _ => none

/-- The entries of an object up to its end, and what follows. -/
def readEntries? : Nat → List Char → Option (List (Option String × JsonValue) × List Char)
  | 0, _ => none
  | n + 1, '"' :: rest => do
    let (key, rest) ← readText? rest
    match skipSpace rest with
    | ':' :: rest =>
      let (value, rest) ← readValue? n (skipSpace rest)
      match skipSpace rest with
      | '\x7d' :: rest => return ([(key, value)], rest)
      | ',' :: rest =>
        let (entries, rest) ← readEntries? n (skipSpace rest)
        return ((key, value) :: entries, rest)
      | _ => none
    | _ => none
  | _ + 1, _ => none

end

/-- The value a text is, if it is one. -/
def read? (text : String) : Option JsonValue :=
  let cs := skipSpace text.toList
  match readValue? (cs.length + 1) cs with
  | some (v, rest) => if (skipSpace rest).isEmpty then some v else none
  | none => none

/-- The texts under keys that an object of texts stands for; of several entries under one key the
last one counts. -/
def texts? : JsonValue → Option (List (String × String))
  | object entries => (OrderedMap.ofList entries).toList.mapM fun
    | (some key, text (some s)) => some (key, s)
    | _ => none
  | _ => none

/-- Entries of one object over those of another; a value that is no object replaces the other. -/
def overlay : JsonValue → JsonValue → JsonValue
  | object below, object above => object (below ++ above)
  | _, above => above

end JsonValue

end TestLauncher
