/-! The types a script can name, and when one type may stand where another is
expected. Types belong to families, and families form a small tree. -/
namespace PageScript

/-- A type. The five primitive types have names of their own; any other single
name is a custom type. `plain` and `primitive` are types of no particular kind
that no script can write. -/
inductive Ty where
  | plain
  | primitive (name : String)
  | int
  | float
  | string
  | bool
  | void
  | function (parameters : List Ty) (result : Ty)
  | custom (name : String)
  /-- A name without arguments where arguments could stand. -/
  | named (name : String)
  | generic (name : String) (arguments : List Ty)
  | any
  deriving Repr, Inhabited

/-- The family a type belongs to. -/
inductive TyFamily where
  | plain | primitive | int | float | string | bool | void | function | custom | generic | any
  deriving Repr, DecidableEq

namespace TyFamily

/-- The family directly above. -/
def parent? : TyFamily → Option TyFamily
  | plain => none
  | primitive => some plain
  | int => some primitive
  | float => some primitive
  | string => some primitive
  | bool => some primitive
  | void => some primitive
  | function => some plain
  | custom => some plain
  | generic => none
  | any => some generic

/-- Whether `above` is `family` itself or stands above it. The tree has three
levels, so two steps up reach its top. -/
def within (family above : TyFamily) : Bool :=
  family == above || family.parent? == some above || (family.parent?.bind parent?) == some above

end TyFamily

namespace Ty

def family : Ty → TyFamily
  | plain => .plain
  | primitive _ => .primitive
  | int => .int
  | float => .float
  | string => .string
  | bool => .bool
  | void => .void
  | function _ _ => .function
  | custom _ => .custom
  | named _ => .generic
  | generic _ _ => .generic
  | any => .any

/-- The name of a type's family, as error messages give it. -/
def kindName (t : Ty) : String :=
  match t.family with
  | .plain => "Type"
  | .primitive => "PrimitiveType"
  | .int => "IntType"
  | .float => "FloatType"
  | .string => "StringType"
  | .bool => "BoolType"
  | .void => "VoidType"
  | .function => "FunctionType"
  | .custom => "CustomType"
  | .generic => "TypeNode"
  | .any => "AnyType"

mutual

/-- The written form of a type. -/
def write : Ty → String
  | plain => "<opalg.opalg_types.node_types.Type object at 0x>"
  | primitive name => name
  | int => "int"
  | float => "float"
  | string => "string"
  | bool => "bool"
  | void => "void"
  | function parameters result =>
    "(" ++ ", ".intercalate (writeAll parameters) ++ ") -> " ++ write result
  | custom name => name
  | named name => name
  | generic name [] => name
  | generic name (a :: rest) => name ++ "<" ++ ", ".intercalate (write a :: writeAll rest) ++ ">"
  | any => "any"

def writeAll : List Ty → List String
  | [] => []
  | t :: rest => write t :: writeAll rest

end

/-- The type a declaration settles on: types without a meaning of their own
count as undeclared. -/
def resolve : Option Ty → Option Ty
  | some t => match t with
    | plain => none
    | primitive _ => none
    | function _ _ => none
    | _ => some t
  | none => none

/-- Whether a value of type `actual` may stand where `expected` is wanted: when
the family of `actual` is that of `expected` or above it, and an integer for a
double. An undeclared type goes only with an undeclared one. -/
def accepts : Option Ty → Option Ty → Bool
  | none, none => true
  | some expected, some actual =>
    expected.family.within actual.family || (expected.family == .float && actual.family == .int)
  | _, _ => false

/-- The written form of a type that may be undeclared. -/
def writeOption : Option Ty → String
  | none => "None"
  | some t => t.write

end Ty

end PageScript
