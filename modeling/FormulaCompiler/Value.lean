import FormulaCompiler.Binary64.Integer
import FormulaCompiler.Decimal.Layout
import FormulaCompiler.Text.Quoted
import FormulaCompiler.Ty

/-!
# Values

What formulas compute with, the views that read a value as one kind, and its display text.
-/

namespace FormulaCompiler

/-- A value. -/
inductive Value where
  | null
  | int (n : Int64)
  | float (x : Float)
  | bool (b : Bool)
  | text (s : String)
  deriving DecidableEq, Repr, Inhabited

namespace Value

/-- The value's own type, never `dynamic`. -/
def ty : Value → Ty
  | .null => .null
  | .int _ => .int
  | .float _ => .float
  | .bool _ => .bool
  | .text _ => .text

def isNull : Value → Bool
  | .null => true
  | _ => false

/-- The value as an integer. A float loses its fraction and stops at the bounds, NaN and all that is
no number are zero. -/
def toInt64 : Value → Int64
  | .int n => n
  | .float x => Binary64.intOfFloat x
  | _ => 0

/-- The number a value is, as a float. -/
def number? : Value → Option Float
  | .int n => some (Binary64.floatOfInt n)
  | .float x => some x
  | _ => none

/-- The value as a float; all that is no number is zero. -/
def toFloat (v : Value) : Float := v.number?.getD 0.0

/-- Only the boolean true is true. -/
def isTrue : Value → Bool
  | .bool b => b
  | _ => false

/-- The text a value is. -/
def text? : Value → Option String
  | .text s => some s
  | _ => none

/-- The value as a reader sees it. -/
def display : Value → String
  | .null => "null"
  | .int n => toString n.toInt
  | .float x => Decimal.Layout.display.write (Binary64.ofFloat x)
  | .bool b => if b then "true" else "false"
  | .text s => s

/-- The value as a constant's label shows it: texts are quoted. -/
def label : Value → String
  | .text s => Text.Quoted.quote s
  | v => v.display

theorem ty_ne_dynamic (v : Value) : v.ty ≠ .dynamic := by
  cases v <;> simp [ty]

theorem isNull_iff (v : Value) : v.isNull = true ↔ v.ty = .null := by
  cases v <;> simp [isNull, ty]

theorem number?_isSome_iff (v : Value) : v.number?.isSome = true ↔ v.ty.isNumeric = true := by
  cases v <;> simp [number?, ty, Ty.isNumeric]

end Value
end FormulaCompiler
