import PageScript.Number.Shortest

/-! The written form of numbers: integers in decimal up to a fixed number of
digits, doubles by their shortest decimal. -/
namespace PageScript

/-- Integers of more digits than this are neither read nor written. -/
def digitLimit : Nat := 4300

/-- Why a whole number cannot be read or written. -/
inductive NumeralFault where
  | unreadable (digits : Nat)
  | unwritable
  deriving Repr, DecidableEq

def NumeralFault.message : NumeralFault → String
  | .unreadable digits =>
    s!"Exceeds the limit ({digitLimit} digits) for integer string conversion: value has {digits} digits; " ++
      "use sys.set_int_max_str_digits() to increase the limit"
  | .unwritable =>
    s!"Exceeds the limit ({digitLimit} digits) for integer string conversion; " ++
      "use sys.set_int_max_str_digits() to increase the limit"

/-- An integer in decimal, with a sign only when negative. -/
def writeInt (n : Int) : Except NumeralFault String :=
  let digits := toString n.natAbs
  if digitLimit < digits.length then .error .unwritable
  else .ok (if n < 0 then "-" ++ digits else digits)

/-- Where positional writing of doubles begins and ends, and how the exponent
is written outside it. Every double has a point or an exponent. -/
structure DoubleFormat where
  firstPositional : Int
  pastPositional : Int
  exponentWidth : Nat

/-- Positional from 1e-4 up to, and without, 1e16; exponents carry a sign and
at least two digits. -/
def doubleFormat : DoubleFormat := ⟨-4, 16, 2⟩

def zeros (count : Nat) : String := String.ofList (List.replicate count '0')

/-- The decimal written without an exponent; `point` digits stand before the
point. -/
def positional (digits : String) (point : Int) : String :=
  if point ≤ 0 then "0." ++ zeros (-point).toNat ++ digits
  else
    let whole := point.toNat
    if digits.length ≤ whole then digits ++ zeros (whole - digits.length) ++ ".0"
    else String.ofList (digits.toList.take whole) ++ "." ++ String.ofList (digits.toList.drop whole)

/-- The decimal written with one digit before the point and an exponent. -/
def scientific (format : DoubleFormat) (digits : String) (exponent : Int) : String :=
  let sign := if exponent < 0 then "-" else "+"
  let size := toString exponent.natAbs
  let padded := zeros (format.exponentWidth - size.length) ++ size
  match digits.toList with
  | [] => ""
  | [d] => String.ofList [d] ++ "e" ++ sign ++ padded
  | d :: rest => String.ofList (d :: '.' :: rest) ++ "e" ++ sign ++ padded

/-- A double in its shortest decimal form. -/
def writeDouble (x : Float) : String :=
  match Double.finite? x with
  | none => if x.isNaN then "nan" else if 0 < x then "inf" else "-inf"
  | some f =>
    let sign := if f.negative then "-" else ""
    if f.significand = 0 then sign ++ "0.0"
    else
      let d := Shortest.decimal f.significand f.exponent
      let digits := toString d.digits
      let point := d.exponent + digits.length
      let exponent := point - 1
      if doubleFormat.firstPositional ≤ exponent ∧ exponent < doubleFormat.pastPositional then
        sign ++ positional digits point
      else sign ++ scientific doubleFormat digits exponent

end PageScript
