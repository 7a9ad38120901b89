/-! # Binary floating-point magnitudes

    A finite value is a natural number times a power of two.  The reals that round to it
    form an interval from halfway to the value below to halfway to the value above, and
    hold their ends exactly when the natural number is even; `readsBack` asks whether a
    decimal lies in it.  All comparisons are exact. -/

namespace TestLauncher.Numeric

/-- A finite magnitude: a natural number times a power of two. -/
structure Binary where
  mantissa : Nat
  exponent : Int
  /-- The value below is only half as far away as the value above. -/
  narrowBelow : Bool
deriving DecidableEq, Repr

/-- A decimal: a natural number times a power of ten. -/
structure Decimal where
  digits : Nat
  exponent : Int
deriving DecidableEq, Repr

/-- A power of two. -/
def powerOfTwo (n : Nat) : Nat := Nat.pow 2 n

/-- A power of ten. -/
def powerOfTen (n : Nat) : Nat := Nat.pow 10 n

/-- The magnitude with the given bits, which are not those of an infinity or of no number. -/
def Binary.ofBits (bits : UInt64) : Binary :=
  let e := ((bits >>> 52) &&& 0x7FF).toNat
  let f := (bits &&& 0xFFFFFFFFFFFFF).toNat
  if e = 0 then ⟨f, -1074, false⟩ else ⟨powerOfTwo 52 + f, (e : Int) - 1075, f = 0 && 1 < e⟩

/-- Compares a natural number times a power of ten with one times a power of two. -/
def compareScaled (a : Nat) (i : Int) (n : Nat) (j : Int) : Ordering :=
  compare (a * powerOfTen i.toNat * powerOfTwo (-j).toNat)
    (n * powerOfTwo j.toNat * powerOfTen (-i).toNat)

/-- Whether a decimal is among the reals that round to the value. -/
def Binary.readsBack (x : Binary) (d : Decimal) : Bool :=
  let low := if x.narrowBelow then 4 * x.mantissa - 1 else 4 * x.mantissa - 2
  let high := 4 * x.mantissa + 2
  let closed := x.mantissa % 2 = 0
  let atLow := compareScaled d.digits d.exponent low (x.exponent - 2)
  let atHigh := compareScaled d.digits d.exponent high (x.exponent - 2)
  (atLow = .gt || (closed && atLow = .eq)) && (atHigh = .lt || (closed && atHigh = .eq))

/-- The value on the grid of a power of ten, rounded down. -/
def Binary.floorOn (x : Binary) (grid : Int) : Nat :=
  (x.mantissa * powerOfTwo x.exponent.toNat * powerOfTen (-grid).toNat)
    / (powerOfTwo (-x.exponent).toNat * powerOfTen grid.toNat)

/-- A quotient rounded to the nearest natural number, the even one of two equally near. -/
def roundDiv (num den : Nat) : Nat :=
  match compare (2 * (num % den)) den with
  | .lt => num / den
  | .gt => num / den + 1
  | .eq => if num / den % 2 = 0 then num / den else num / den + 1

/-- The value times a power of ten, rounded to the nearest natural number. -/
def Binary.roundScaled (x : Binary) (places : Nat) : Nat :=
  roundDiv (x.mantissa * powerOfTwo x.exponent.toNat * powerOfTen places)
    (powerOfTwo (-x.exponent).toNat)

end TestLauncher.Numeric
