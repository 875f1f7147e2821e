/-! Doubles as exact numbers. A finite double is a sign, a significand and a
power of two; the nearest double of a ratio of naturals is found in exact
arithmetic, a half going to the even neighbour. -/
namespace PageScript.Double

/-- A finite double: the number is `significand * 2 ^ exponent`, negated when
`negative` holds. Both zeros have significand zero. -/
structure Finite where
  negative : Bool
  significand : Nat
  exponent : Int
  deriving Repr, DecidableEq

/-- The exact number of a double, or `none` for the infinities and
not-a-number. -/
def finite? (x : Float) : Option Finite :=
  let bits := x.toBits.toNat
  let negative := decide (Nat.pow 2 63 ≤ bits)
  let biased : Nat := bits / Nat.pow 2 52 % 2048
  let fraction := bits % Nat.pow 2 52
  if biased = 2047 then none
  else if biased = 0 then some ⟨negative, fraction, -1074⟩
  else some ⟨negative, fraction + Nat.pow 2 52, (biased : Int) - 1075⟩

/-- `num / den` to the nearest natural number, a half going to the even one. -/
def roundDiv (num den : Nat) : Nat :=
  let quotient := num / den
  let twice := 2 * (num % den)
  if twice < den then quotient
  else if den < twice then quotient + 1
  else if quotient % 2 = 0 then quotient else quotient + 1

/-- `num / den` scaled by the power of two `2 ^ (-e)`, as numerator and
denominator. -/
def scale (num den : Nat) (e : Int) : Nat × Nat :=
  if 0 ≤ e then (num, den * Nat.pow 2 e.toNat) else (num * Nat.pow 2 (-e).toNat, den)

/-- The greatest `k` with `2 ^ k ≤ num / den`, for positive `num` and `den`. -/
def binaryOrder (num den : Nat) : Int :=
  let guess := (num.log2 : Int) - (den.log2 : Int)
  let scaled := scale num den guess
  if scaled.2 ≤ scaled.1 then guess else guess - 1

/-- The bit pattern of the double with this significand, below or at `2 ^ 53`,
and this exponent. A significand of `2 ^ 53` carries into the exponent, and
what is too large becomes an infinity. -/
def pattern (significand : Nat) (exponent : Int) : Nat :=
  if significand < Nat.pow 2 52 then significand
  else min ((exponent + 1075).toNat * Nat.pow 2 52 + (significand - Nat.pow 2 52))
    (2047 * Nat.pow 2 52)

/-- The double nearest to `num / den`, or to its negation. Ratios beyond the
largest double become an infinity. The denominator is taken to be positive. -/
def ofRatio (negative : Bool) (num den : Nat) : Float :=
  let signBit := if negative then Nat.pow 2 63 else 0
  if num = 0 then Float.ofBits (UInt64.ofNat signBit)
  else
    let exponent := max (binaryOrder num den - 52) (-1074)
    let scaled := scale num den exponent
    Float.ofBits (UInt64.ofNat (signBit + pattern (roundDiv scaled.1 scaled.2) exponent))

/-- The double nearest to `digits * 10 ^ exponent`, or to its negation. -/
def ofDecimal (negative : Bool) (digits : Nat) (exponent : Int) : Float :=
  if 0 ≤ exponent then ofRatio negative (digits * Nat.pow 10 exponent.toNat) 1
  else ofRatio negative digits (Nat.pow 10 (-exponent).toNat)

/-- The double nearest to an integer, or `none` when it is beyond all
doubles. -/
def ofInt? (n : Int) : Option Float :=
  let x := ofRatio (decide (n < 0)) n.natAbs 1
  if x.isInf then none else some x

/-- The double nearest to `a / b` for a nonzero `b`, or `none` when it is
beyond all doubles. A zero result keeps the sign of the quotient of signs. -/
def ofQuotient? (a b : Int) : Option Float :=
  let x := ofRatio (decide (a < 0) != decide (b < 0)) a.natAbs b.natAbs
  if x.isInf then none else some x

/-- How an integer compares with a double, by their exact values; `none` for
not-a-number. -/
def compareInt (n : Int) (x : Float) : Option Ordering :=
  match finite? x with
  | some f =>
    let m : Int := if f.negative then -(f.significand : Int) else f.significand
    if 0 ≤ f.exponent then some (compare n (m * Nat.pow 2 f.exponent.toNat))
    else some (compare (n * Nat.pow 2 (-f.exponent).toNat) m)
  | none => if x.isNaN then none else if 0 < x then some .lt else some .gt

/-- How two doubles compare; `none` when one is not-a-number. -/
def compareFloat (x y : Float) : Option Ordering :=
  if x < y then some .lt else if y < x then some .gt else if x == y then some .eq else none

end PageScript.Double
