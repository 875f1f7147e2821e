import PageScript.Number.Double

/-! The shortest decimal that reads back as a given double. Among decimals of
the least possible number of digits the nearest one is taken, and of two
equally near ones the one with an even last digit. -/
namespace PageScript.Shortest

/-- A positive number as `digits * 10 ^ exponent`. -/
structure Decimal where
  digits : Nat
  exponent : Int
  deriving Repr, DecidableEq

/-- The numbers that round to a double, in units of a quarter of its last
place: from `4 * significand - below` to `4 * significand + 2`, both ends
included exactly when the significand is even. Each unit is `unit / base`. -/
structure Interval where
  significand : Nat
  below : Nat
  unit : Nat
  base : Nat
  deriving Repr, DecidableEq

/-- The gap below a power of two is half the gap above it, except at the bottom
of the range. -/
def interval (significand : Nat) (exponent : Int) : Interval :=
  let below := if significand = Nat.pow 2 52 ∧ -1074 < exponent then 1 else 2
  let shift := exponent - 2
  ⟨significand, below, Nat.pow 2 shift.toNat, Nat.pow 2 (-shift).toNat⟩

/-- The interval rescaled by `10 ^ (-e)`. -/
def Interval.overTen (i : Interval) (e : Int) : Interval :=
  { i with unit := i.unit * Nat.pow 10 (-e).toNat, base := i.base * Nat.pow 10 e.toNat }

/-- The double itself, times `base`. -/
def Interval.centre (i : Interval) : Nat :=
  4 * i.significand * i.unit

/-- Whether the whole number `c` lies in the interval. -/
def Interval.holds (i : Interval) (c : Nat) : Bool :=
  let low := (4 * i.significand - i.below) * i.unit
  let high := (4 * i.significand + 2) * i.unit
  let x := c * i.base
  if i.significand % 2 = 0 then decide (low ≤ x) && decide (x ≤ high)
  else decide (low < x) && decide (x < high)

/-- The greatest `p` with `10 ^ p` at most the number. The guess from the
binary order is off by at most one. -/
def decimalOrder (i : Interval) : Int :=
  let guess := Double.binaryOrder i.centre i.base * 30103 / 100000
  let reaches (p : Int) : Bool :=
    let scaled := i.overTen p
    decide (scaled.base ≤ scaled.centre)
  if !reaches guess then guess - 1
  else if reaches (guess + 1) then guess + 1
  else guess

/-- The whole number nearest to the centre that lies in the interval, if one of
the two neighbours of the centre does. -/
def Interval.nearest? (i : Interval) : Option Nat :=
  let lower := i.centre / i.base
  let upper := lower + 1
  match i.holds lower, i.holds upper with
  | true, false => some lower
  | false, true => some upper
  | false, false => none
  | true, true =>
    let left := i.centre - lower * i.base
    let right := upper * i.base - i.centre
    if left < right then some lower
    else if right < left then some upper
    else if lower % 2 = 0 then some lower else some upper

/-- Try ever more digits, `used` so far; seventeen always suffice, so the last
case is not reached from `used = 1`. -/
def search (i : Interval) (order : Int) (used : Nat) : Nat → Decimal
  | 0 => ⟨0, 0⟩
  | left + 1 =>
    let exponent := order + 1 - used
    match (i.overTen exponent).nearest? with
    | some c => ⟨c, exponent⟩
    | none => search i order (used + 1) left

/-- Move trailing zeros of the digits into the exponent. -/
def Decimal.strip (d : Decimal) : Nat → Decimal
  | 0 => d
  | left + 1 =>
    if d.digits % 10 = 0 then Decimal.strip ⟨d.digits / 10, d.exponent + 1⟩ left else d

/-- The shortest decimal of the positive number
`significand * 2 ^ exponent`. -/
def decimal (significand : Nat) (exponent : Int) : Decimal :=
  let i := interval significand exponent
  (search i (decimalOrder i) 1 17).strip 17

end PageScript.Shortest
