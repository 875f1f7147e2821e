import PageScript.Proofs.Analysis.Acceptance
import PageScript.Proofs.Grammar.Formed

/-! Which types analysis tells apart. It compares families: each primitive type
is a family of its own, but all custom types are one family and so are all
types with arguments, whatever their names and arguments. Main statement: two
types that a script can write stand for one another exactly if they are of one
family. -/
namespace PageScript

namespace Ty

/-- The types are equal, or both are custom types, or both have arguments. -/
inductive Alike : Ty → Ty → Prop where
  | same (t : Ty) : Alike t t
  | customs (first second : String) : Alike (.custom first) (.custom second)
  | generics (first second : String) (arguments others : List Ty) :
      Alike (.generic first arguments) (.generic second others)

theorem Alike.symm {a b : Ty} (h : Alike a b) : Alike b a := by
  cases h with
  | same => exact .same a
  | customs first second => exact .customs second first
  | generics first second arguments others => exact .generics second first others arguments

/-- The families of the types that a script can write. -/
def writtenFamilies : List TyFamily := [.int, .float, .string, .bool, .void, .custom, .generic]

/-- None of these families stands above another. -/
theorem within_iff_of_mem : ∀ f ∈ writtenFamilies, ∀ g ∈ writtenFamilies,
    f.within g = true ↔ f = g := by
  decide

section written

variable {a b : Ty}

/-- A type that a script can write belongs to one of seven families, so
families of such types can be compared one by one. -/
theorem IsWritten.family_mem (h : a.IsWritten) : a.family ∈ writtenFamilies := by
  cases h <;> simp [writtenFamilies, family]

/-- Types that a script can write are of one family exactly if analysis takes
them to be alike. The cases are the pairs of written types; two types of a
script's own are alike by their names. -/
theorem IsWritten.family_eq_iff (ha : a.IsWritten) (hb : b.IsWritten) :
    a.family = b.family ↔ Alike a b := by
  constructor
  · intro hFamily
    cases ha with
    | int =>
        cases hb with
        | int => exact .same _
        | _ => cases hFamily
    | float =>
        cases hb with
        | float => exact .same _
        | _ => cases hFamily
    | string =>
        cases hb with
        | string => exact .same _
        | _ => cases hFamily
    | bool =>
        cases hb with
        | bool => exact .same _
        | _ => cases hFamily
    | void =>
        cases hb with
        | void => exact .same _
        | _ => cases hFamily
    | custom first =>
        cases hb with
        | custom second => exact .customs first second
        | _ => cases hFamily
    | generic _ =>
        cases hb with
        | generic _ => exact .generics _ _ _ _
        | _ => cases hFamily
  · intro hAlike
    cases hAlike <;> rfl

/-- A value of the second type may stand where the first is expected. -/
def StandsFor (a b : Ty) : Prop := Alike a b ∨ a = .float ∧ b = .int

/-- For types that a script can write, acceptance is the relation of standing
for one another: within a family, and from an integer to a double. -/
theorem IsWritten.accepts_iff (ha : a.IsWritten) (hb : b.IsWritten) :
    accepts (some a) (some b) = true ↔ StandsFor a b := by
  have hFloat : a.family = .float ↔ a = .float := by cases a <;> simp [family]
  have hInt : b.family = .int ↔ b = .int := by cases b <;> simp [family]
  rw [accepts, Bool.or_eq_true, Bool.and_eq_true, beq_iff_eq, beq_iff_eq, hFloat, hInt,
    within_iff_of_mem _ ha.family_mem _ hb.family_mem, ha.family_eq_iff hb]
  rfl

theorem IsWritten.resolve_eq (ha : a.IsWritten) : resolve (some a) = some a := by
  cases ha <;> rfl

end written

end Ty

namespace Analysis

open Ty (Alike StandsFor)

section checks

variable {symbols : Symbols} {value : Node} {actual : Option Ty}

/-- An assignment to a known variable has the type of the variable exactly if
this accepts that of the value. -/
theorem typeOf_assignment_ok_iff {name : String} {type : Option Ty}
    (hName : symbols.get? name = some (.variable type))
    (hValue : typeOf symbols value = .ok actual) :
    typeOf symbols (.binary (.identifier name) "=" value) = .ok type ↔
      Ty.accepts type actual = true := by
  have hType : typeOf symbols (.binary (.identifier name) "=" value) =
      if Ty.accepts type actual then .ok type else fail (.assignmentMismatch name type actual) := by
    simp only [typeOf, variableType, hName, hValue, ok_bind, binaryType, Operator.ofText?,
      assignmentType]
  rw [hType]
  cases Ty.accepts type actual <;> simp [fail]

/-- A call with one argument has the result type of the function exactly if the
parameter accepts the type of the argument. -/
theorem typeOf_call_ok_iff {function : String} {parameter result : Option Ty}
    (hNamed : function ≠ "") (hFunction : symbols.get? function =
      some (.function [parameter] result))
    (hValue : typeOf symbols value = .ok actual) :
    typeOf symbols (.call (.identifier function) [value]) = .ok result ↔
      Ty.accepts parameter actual = true := by
  have hCalled : calledFunction symbols (.identifier function) 1 =
      .ok (function, [parameter], result) := by
    simp [calledFunction, hNamed, hFunction]
  have hChecked : checkArguments symbols function 1 [parameter] [value] =
      if Ty.accepts parameter actual then .ok () else fail
        (.argumentMismatch 1 function parameter actual) := by
    simp only [checkArguments, hValue, ok_bind]
  have hType : typeOf symbols (.call (.identifier function) [value]) =
      checkArguments symbols function 1 [parameter] [value] >>= fun _ => .ok result := by
    simp only [typeOf, List.length_singleton, hCalled, ok_bind]
    rfl
  rw [hType, hChecked, bind_eq_ok_iff]
  cases Ty.accepts parameter actual <;> simp [fail]

end checks

/-- Two types that a script can write stand for one another exactly if they are
alike: the same primitive type, two custom types, or two types with arguments.
A value of the second type is taken by a new variable of the first type, by an
assignment to such a variable and by a parameter of that type exactly if the
types are alike or it is an integer for a double. A double does not stand for
an integer. -/
theorem accepts_both_iff_alike {a b : Ty} (ha : a.IsWritten) (hb : b.IsWritten) :
    (Ty.accepts (some a) (some b) = true ∧ Ty.accepts (some b) (some a) = true ↔ Alike a b) ∧
    ∀ symbols value, typeOf symbols value = .ok (some b) →
      (∀ name constant, symbols.contains name = false →
        ((analyse symbols (.declaration name (some a) value constant)).fault = none ↔
          StandsFor a b)) ∧
      (∀ name, symbols.get? name = some (.variable (some a)) →
        (typeOf symbols (.binary (.identifier name) "=" value) = .ok (some a) ↔
          StandsFor a b)) ∧
      ∀ function result, function ≠ "" →
        symbols.get? function = some (.function [some a] result) →
        (typeOf symbols (.call (.identifier function) [value]) = .ok result ↔ StandsFor a b) := by
  constructor
  · rw [ha.accepts_iff hb, hb.accepts_iff ha]
    constructor
    · rintro ⟨hAlike | ⟨rfl, rfl⟩, hBack⟩
      · exact hAlike
      · obtain hAlike | ⟨hInt, -⟩ := hBack
        · cases hAlike
        · cases hInt
    · intro hAlike
      exact ⟨.inl hAlike, .inl hAlike.symm⟩
  · intro symbols value hValue
    rw [← ha.accepts_iff hb]
    refine ⟨fun name constant hFresh => ?_,
      fun name hName => typeOf_assignment_ok_iff hName hValue,
      fun function result hNamed hFunction => typeOf_call_ok_iff hNamed hFunction hValue⟩
    rw [analyse_declaration_of_typeOf hFresh hValue, fault_declare_eq_none_iff, ha.resolve_eq]
    simp

/-- Lists of integers and tables of accounts stand for one another, and a
variable of the one type takes a value of the other. -/
theorem accepts_both_iff_alike_generics :
    let list : Ty := .generic "List" [.int]
    let table : Ty := .generic "Table" [.custom "Account", .generic "List" [.string]]
    let symbols : Symbols := ⟨[("accounts", .variable (some table))]⟩
    list.IsWritten ∧ table.IsWritten ∧ Ty.accepts (some list) (some table) = true ∧
      Ty.accepts (some table) (some list) = true ∧
      (analyse symbols (.declaration "numbers" (some list) (.identifier "accounts") false)).fault =
        none := by
  intro list table symbols
  have hList : list.IsWritten := .generic (by simp [Ty.IsWritten.int])
  have hTable : table.IsWritten := .generic (by
    simp only [List.mem_cons, List.not_mem_nil, or_false, forall_eq_or_imp, forall_eq]
    exact ⟨.custom "Account", .generic (by simp [Ty.IsWritten.string])⟩)
  have hAlike : Alike list table := .generics _ _ _ _
  obtain ⟨hBoth, hDeclares⟩ := accepts_both_iff_alike hList hTable
  obtain ⟨hFirst, hSecond⟩ := hBoth.mpr hAlike
  refine ⟨hList, hTable, hFirst, hSecond, ?_⟩
  exact ((hDeclares symbols (.identifier "accounts") rfl).1 "numbers" false rfl).mpr (.inl hAlike)

/-- Two custom types of different names stand for one another, and a script
that declares an amount in one currency with an amount in another is
accepted. -/
theorem accepts_both_customs :
    Ty.accepts (some (.custom "Euro")) (some (.custom "Dollar")) = true ∧
      Ty.accepts (some (.custom "Dollar")) (some (.custom "Euro")) = true ∧
      Ty.custom "Euro" ≠ Ty.custom "Dollar" ∧
      (analyse .empty
        (.program [.functionDeclaration "pay" [⟨"amount", some (.custom "Euro")⟩] (some .int)
          (.block [.declaration "total" (some (.custom "Dollar")) (.identifier "amount") false,
            .returnStatement (.number (.int 1))]) false])).fault = none :=
  ⟨rfl, rfl, by simp, rfl⟩

end Analysis

end PageScript
