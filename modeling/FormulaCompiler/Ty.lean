/-!
# Static types

The types a formula's parts have when it is compiled. A part whose type is only known at run time
is `dynamic`.
-/

namespace FormulaCompiler

/-- A static type. -/
inductive Ty where
  | null
  | int
  | float
  | bool
  | text
  | dynamic
  deriving DecidableEq, Repr, Inhabited

namespace Ty

/-- The type's name in messages. -/
def name : Ty → String
  | .null => "null"
  | .int => "int"
  | .float => "float"
  | .bool => "bool"
  | .text => "str"
  | .dynamic => "dynamic"

/-- All static types. -/
def all : List Ty := [.null, .int, .float, .bool, .text, .dynamic]

/-- The type with this name. -/
def ofName? (name : String) : Option Ty := all.find? fun t => t.name = name

/-- Integers and floats are numeric. -/
def isNumeric : Ty → Bool
  | .int | .float => true
  | _ => false

/-- The type in which two numbers meet: integers stay integers, a float makes both floats. -/
def promote? : Ty → Ty → Option Ty
  | .int, .int => some .int
  | .int, .float | .float, .int | .float, .float => some .float
  | _, _ => none

theorem ofName?_name (t : Ty) : ofName? t.name = some t := by
  cases t <;> decide

theorem promote?_isSome_iff (s t : Ty) :
    (s.promote? t).isSome = true ↔ s.isNumeric = true ∧ t.isNumeric = true := by
  cases s <;> cases t <;> decide

theorem promote?_comm (s t : Ty) : s.promote? t = t.promote? s := by
  cases s <;> cases t <;> rfl

/-- What two numbers meet in is numeric again. -/
theorem isNumeric_of_promote? {s t u : Ty} (h : s.promote? t = some u) : u.isNumeric = true := by
  cases s <;> cases t <;> simp_all [promote?] <;> subst h <;> rfl

end Ty
end FormulaCompiler
