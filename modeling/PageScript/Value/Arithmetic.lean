import PageScript.Value.Basic

/-! The operators on values. Numbers mix freely: a truth value counts as an
integer, integers are unbounded, and an integer that meets a double is first
rounded to one. Comparisons use exact values. -/
namespace PageScript

/-- Why an operator has no result. The texts are kinds of values. -/
inductive ArithmeticFault where
  /-- Something other than a text was appended to a text, or likewise for
  lists. -/
  | notAppendable (whole part : String)
  | operands (operator left right : String)
  /-- A text or list was repeated by something that is not an integer. -/
  | repeatBy (kind : String)
  | incomparable (operator left right : String)
  | divisionByZero
  | doubleDivisionByZero
  | quotientTooLarge
  | integerTooLarge
  /-- The number of repetitions is beyond any length. -/
  | countTooLarge
  | repeatTooLong
  deriving Repr, DecidableEq

def ArithmeticFault.message : ArithmeticFault → String
  | .notAppendable whole part => s!"can only concatenate {whole} (not \"{part}\") to {whole}"
  | .operands operator left right =>
    s!"unsupported operand type(s) for {operator}: '{left}' and '{right}'"
  | .repeatBy kind => s!"can't multiply sequence by non-int of type '{kind}'"
  | .incomparable operator left right =>
    s!"'{operator}' not supported between instances of '{left}' and '{right}'"
  | .divisionByZero => "division by zero"
  | .doubleDivisionByZero => "float division by zero"
  | .quotientTooLarge => "integer division result too large for a float"
  | .integerTooLarge => "int too large to convert to float"
  | .countTooLarge => "cannot fit 'int' into an index-sized integer"
  | .repeatTooLong => "repeated string is too long"

/-- The operators of the language, by meaning. -/
inductive Operator where
  | add | sub | mul | div
  | and | or
  | eq | ne | lt | gt | le | ge
  | assign | addAssign
  deriving Repr, DecidableEq

/-- The operator a text stands for. -/
def Operator.ofText? : String → Option Operator
  | "+" => some .add
  | "-" => some .sub
  | "*" => some .mul
  | "/" => some .div
  | "&&" => some .and
  | "||" => some .or
  | "==" => some .eq
  | "!=" => some .ne
  | "<" => some .lt
  | ">" => some .gt
  | "<=" => some .le
  | ">=" => some .ge
  | "=" => some .assign
  | "+=" => some .addAssign
  | _ => none

/-- A number: whole or a double. -/
inductive Number where
  | int (n : Int)
  | float (x : Float)
  deriving Repr, DecidableEq

namespace Number

/-- The double nearest to a number. -/
def toFloat : Number → Except ArithmeticFault Float
  | int n => match Double.ofInt? n with
    | some x => .ok x
    | none => .error .integerTooLarge
  | float x => .ok x

/-- How two numbers compare by their exact values; `none` with not-a-number. -/
def compare : Number → Number → Option Ordering
  | int a, int b => some (Ord.compare a b)
  | int a, float y => Double.compareInt a y
  | float x, int b => (Double.compareInt b x).map Ordering.swap
  | float x, float y => Double.compareFloat x y

/-- Apply the operation on integers when both are whole, else that on
doubles. -/
def combine (whole : Int → Int → Int) (double : Float → Float → Float) (a b : Number) :
    Except ArithmeticFault Value :=
  match a, b with
  | int m, int n => .ok (.int (whole m n))
  | _, _ => do
    let x ← a.toFloat
    let y ← b.toFloat
    return .float (double x y)

/-- The quotient is always a double. -/
def divide (a b : Number) : Except ArithmeticFault Value :=
  match a, b with
  | int m, int n =>
    if n = 0 then .error .divisionByZero
    else match Double.ofQuotient? m n with
      | some x => .ok (.float x)
      | none => .error .quotientTooLarge
  | _, _ => do
    let x ← a.toFloat
    let y ← b.toFloat
    if y == 0 then throw .doubleDivisionByZero
    return .float (x / y)

end Number

namespace Value

/-- The number a value counts as. -/
def number? : Value → Option Number
  | bool b => some (.int (if b then 1 else 0))
  | int n => some (.int n)
  | float x => some (.float x)
  | _ => Option.none

/-- The whole number a value counts as when it says how often to repeat. -/
def count? : Value → Option Int
  | bool b => some (if b then 1 else 0)
  | int n => some n
  | _ => Option.none

def isSequence : Value → Bool
  | text _ => true
  | list _ => true
  | _ => false

/-- The greatest length a text or list can have. -/
def lengthLimit : Nat := Nat.pow 2 63 - 1

/-- A text or list repeated; at most no times gives the empty one. -/
def repeated (v : Value) (count : Int) : Except ArithmeticFault Value :=
  if count < -(lengthLimit : Int) - 1 ∨ (lengthLimit : Int) < count then .error .countTooLarge
  else match v with
    | text s =>
      if s = "" then .ok v
      else if 1 < count ∧ lengthLimit / count.toNat < s.length then .error .repeatTooLong
      else .ok (text (String.join (List.replicate count.toNat s)))
    | list items => .ok (list (List.replicate count.toNat items).flatten)
    | other => .ok other

def add (a b : Value) : Except ArithmeticFault Value :=
  match a, b with
  | text s, text t => .ok (text (s ++ t))
  | text _, _ => .error (.notAppendable "str" b.kindName)
  | list xs, list ys => .ok (list (xs ++ ys))
  | list _, _ => .error (.notAppendable "list" b.kindName)
  | _, _ => match a.number?, b.number? with
    | some m, some n => m.combine (· + ·) (· + ·) n
    | _, _ => .error (.operands "+" a.kindName b.kindName)

def sub (a b : Value) : Except ArithmeticFault Value :=
  match a.number?, b.number? with
  | some m, some n => m.combine (· - ·) (· - ·) n
  | _, _ => .error (.operands "-" a.kindName b.kindName)

def mul (a b : Value) : Except ArithmeticFault Value :=
  match a.number?, b.number? with
  | some m, some n => m.combine (· * ·) (· * ·) n
  | _, _ =>
    if a.isSequence then
      match b.count? with
      | some n => a.repeated n
      | Option.none => .error (.repeatBy b.kindName)
    else if b.isSequence then
      match a.count? with
      | some n => b.repeated n
      | Option.none => .error (.repeatBy a.kindName)
    else .error (.operands "*" a.kindName b.kindName)

def div (a b : Value) : Except ArithmeticFault Value :=
  match a.number?, b.number? with
  | some m, some n => m.divide n
  | _, _ => .error (.operands "/" a.kindName b.kindName)

/-- The right value if the left one counts as true, else the left one. -/
def and (a b : Value) : Value := if a.truthy then b else a

/-- The left value if it counts as true, else the right one. -/
def or (a b : Value) : Value := if a.truthy then a else b

mutual

/-- Equality of values: numbers by exact value, and otherwise like with
like. -/
def same : Value → Value → Bool
  | none, none => true
  | text s, text t => s == t
  | list xs, list ys => sameAll xs ys
  | a, b => match a.number?, b.number? with
    | some m, some n => m.compare n == some .eq
    | _, _ => false

def sameAll : List Value → List Value → Bool
  | [], [] => true
  | a :: as, b :: bs => same a b && sameAll as bs
  | _, _ => false

end

/-- How two values other than lists compare, if they are comparable at all:
numbers by value, texts character by character. Not-a-number compares with
nothing. -/
def order? (a b : Value) : Option (Option Ordering) :=
  match a, b with
  | text s, text t => some (some (compare s t))
  | _, _ => match a.number?, b.number? with
    | some m, some n => some (m.compare n)
    | _, _ => Option.none

mutual

/-- The truth of a comparison by order. -/
def comparison (operator : String) (holds : Ordering → Bool) :
    Value → Value → Except ArithmeticFault Value
  | list xs, list ys => listComparison operator holds xs ys
  | a, b => match order? a b with
    | some o => .ok (bool (o.elim false holds))
    | Option.none => .error (.incomparable operator a.kindName b.kindName)

/-- The truth of a comparison of lists. The first items that differ decide it,
or else the lengths. -/
def listComparison (operator : String) (holds : Ordering → Bool) :
    List Value → List Value → Except ArithmeticFault Value
  | [], [] => .ok (bool (holds .eq))
  | [], _ :: _ => .ok (bool (holds .lt))
  | _ :: _, [] => .ok (bool (holds .gt))
  | x :: xs, y :: ys =>
    if same x y then listComparison operator holds xs ys else comparison operator holds x y

end

end Value

end PageScript
