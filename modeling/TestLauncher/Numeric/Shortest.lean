import TestLauncher.Numeric.Binary64

/-! # The fewest digits that read back

    `shortest` picks, among the decimals that round to a value, one with the fewest
    digits, and of those the nearest, the even one of two equally near.  For each number
    of digits it tries the two neighbours of the value on that grid. -/

namespace TestLauncher.Numeric

/-- The least power of ten above a positive value, searched upwards from an estimate below. -/
def scaleFrom (x : Binary) : Nat → Int → Int
  | 0, k => k
  | fuel + 1, k =>
    if compareScaled 1 k x.mantissa x.exponent = .gt then k else scaleFrom x fuel (k + 1)

/-- The least exponent of ten whose power lies above a positive value. -/
def Binary.scale (x : Binary) : Int :=
  let bits := (x.mantissa.log2 : Int) + x.exponent
  scaleFrom x 4 (bits * 30103 / 100000 - 1)

/-- The best decimal on the grid of a power of ten, if one there reads back. -/
def Binary.onGrid? (x : Binary) (grid : Int) : Option Decimal :=
  let below := x.floorOn grid
  let low : Decimal := ⟨below, grid⟩
  let high : Decimal := ⟨below + 1, grid⟩
  match x.readsBack low, x.readsBack high with
  | true, false => some low
  | false, true => some high
  | false, false => none
  | true, true =>
    -- twice the value against the sum of the two neighbours
    match compareScaled (2 * below + 1) grid (2 * x.mantissa) x.exponent with
    | .gt => some low
    | .lt => some high
    | .eq => if below % 2 = 0 then some low else some high

/-- The decimal with the trailing zeros of its digits moved into the exponent. -/
def Decimal.strip (d : Decimal) : Nat → Decimal
  | 0 => d
  | fuel + 1 =>
    if d.digits ≠ 0 ∧ d.digits % 10 = 0 then Decimal.strip ⟨d.digits / 10, d.exponent + 1⟩ fuel
    else d

/-- A decimal with the fewest digits among those that round to a positive value. -/
def Binary.shortest (x : Binary) : Decimal :=
  let scale := x.scale
  match (List.range 17).findSome? fun n => x.onGrid? (scale - (n + 1 : Nat)) with
  | some d => d.strip 20
  | none =>
    ⟨x.mantissa * powerOfTwo x.exponent.toNat * Nat.pow 5 (-x.exponent).toNat, min x.exponent 0⟩

end TestLauncher.Numeric
