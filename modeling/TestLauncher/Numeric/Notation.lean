import TestLauncher.Numeric.Shortest

/-! # Numbers as text

    A floating-point number is written with the fewest digits that read back:
    positionally while its leading digit stands between the fourth place after the point
    and the sixteenth before it, else with a signed exponent of at least two digits.
    With a fixed number of places the exact value is rounded, a half going to the even
    neighbour.  Reading accepts plain decimals, exponents and the words for infinity and
    for no number. -/

namespace TestLauncher.Numeric

/-- The digits of a natural number in base ten. -/
def digitsOf (n : Nat) : List Char := Nat.toDigits 10 n

/-- Digits with zeros in front up to a width. -/
def padZeros (width : Nat) (cs : List Char) : List Char :=
  List.replicate (width - cs.length) '0' ++ cs

/-- Writes a positive decimal, by the place of its leading digit. -/
def Decimal.layout (d : Decimal) : List Char :=
  let ds := digitsOf d.digits
  -- how many digits stand before the point
  let before : Int := ds.length + d.exponent
  if 16 < before ∨ before < -3 then
    let mantissa :=
      match ds with
      | [] => []
      | [c] => [c]
      | c :: rest => c :: '.' :: rest
    let exponent := before - 1
    mantissa ++ 'e' :: (if exponent < 0 then '-' else '+') :: padZeros 2 (digitsOf exponent.natAbs)
  else if before ≤ 0 then
    '0' :: '.' :: List.replicate (-before).toNat '0' ++ ds
  else if (ds.length : Int) ≤ before then
    ds ++ List.replicate (before.toNat - ds.length) '0' ++ ['.', '0']
  else
    ds.take before.toNat ++ '.' :: ds.drop before.toNat

/-- Whether the sign bit is set. -/
def isNegative (x : Float) : Bool := x.toBits >>> 63 == 1

/-- Writes a number, giving the words for the values without digits and the text of a
finite magnitude. -/
def withSign (x : Float) (finite : Binary → List Char) : String :=
  if x.isNaN then "nan"
  else
    let sign := if isNegative x then ['-'] else []
    let body := if x.isInf then ['i', 'n', 'f'] else finite (Binary.ofBits x.toBits)
    String.ofList (sign ++ body)

/-- A floating-point number with the fewest digits that read back. -/
def showFloat (x : Float) : String :=
  withSign x fun b => if b.mantissa = 0 then ['0', '.', '0'] else b.shortest.layout

/-- A floating-point number with a fixed positive number of places. -/
def showFixed (places : Nat) (x : Float) : String :=
  withSign x fun b =>
    let cs := padZeros (places + 1) (digitsOf (b.roundScaled places))
    cs.take (cs.length - places) ++ '.' :: cs.drop (cs.length - places)

/-- The value of digits in base ten. -/
def valueOf (cs : List Char) : Nat :=
  cs.foldl (fun n c => 10 * n + (c.toNat - 0x30)) 0

/-- Reads an exponent: digits after an optional sign. -/
def readExponent? (cs : List Char) : Option Int :=
  let (negative, ds) :=
    match cs with
    | '-' :: rest => (true, rest)
    | '+' :: rest => (false, rest)
    | rest => (false, rest)
  if ds.isEmpty || !ds.all Char.isDigit then none
  else some (if negative then -(valueOf ds : Int) else valueOf ds)

/-- Reads an unsigned decimal with an optional point and exponent. -/
def readDecimal? (cs : List Char) : Option Decimal :=
  let whole := cs.takeWhile Char.isDigit
  let afterWhole := cs.dropWhile Char.isDigit
  let (fraction, rest) :=
    match afterWhole with
    | '.' :: more => (more.takeWhile Char.isDigit, more.dropWhile Char.isDigit)
    | more => ([], more)
  let digits := whole ++ fraction
  if digits.isEmpty then none
  else
    let finish (e : Int) : Decimal := ⟨valueOf digits, e - fraction.length⟩
    match rest with
    | [] => some (finish 0)
    | 'e' :: more => (readExponent? more).map finish
    | 'E' :: more => (readExponent? more).map finish
    | _ => none

/-- The nearest floating-point number to a decimal. -/
def Decimal.toFloat (d : Decimal) : Float :=
  Float.ofScientific d.digits (decide (d.exponent < 0)) d.exponent.natAbs

/-- Reads a floating-point number. -/
def readFloat? (text : String) : Option Float :=
  let (negative, cs) :=
    match text.toList with
    | '-' :: rest => (true, rest)
    | '+' :: rest => (false, rest)
    | rest => (false, rest)
  let magnitude? :=
    match String.ofList (cs.map Char.toLower) with
    | "nan" => some (0.0 / 0.0)
    | "inf" => some (1.0 / 0.0)
    | "infinity" => some (1.0 / 0.0)
    | _ => (readDecimal? cs).map Decimal.toFloat
  magnitude?.map fun x => if negative then -x else x

end TestLauncher.Numeric
