import FormulaCompiler.Ty

/-!
# Operators

The operators of formulas and the type each gives its operands. Typing refuses exactly what
applying the operator to values of those types refuses.
-/

namespace FormulaCompiler

/-- An operator between two operands. -/
inductive BinaryOp where
  | add | sub | mul | div | mod
  | eq | ne | lt | le | gt | ge
  | and | or
  deriving DecidableEq, Repr

/-- An operator before one operand. -/
inductive UnaryOp where
  | neg | not
  deriving DecidableEq, Repr

namespace BinaryOp

def symbol : BinaryOp → String
  | .add => "+"
  | .sub => "-"
  | .mul => "*"
  | .div => "/"
  | .mod => "%"
  | .eq => "=="
  | .ne => "!="
  | .lt => "<"
  | .le => "<="
  | .gt => ">"
  | .ge => ">="
  | .and => "&&"
  | .or => "||"

/-- All binary operators. -/
def all : List BinaryOp :=
  [.add, .sub, .mul, .div, .mod, .eq, .ne, .lt, .le, .gt, .ge, .and, .or]

/-- The operator with this symbol. -/
def ofSymbol? (symbol : String) : Option BinaryOp := all.find? fun op => op.symbol = symbol

theorem ofSymbol?_symbol (op : BinaryOp) : ofSymbol? op.symbol = some op := by
  cases op <;> decide

def isOrdering : BinaryOp → Bool
  | .lt | .le | .gt | .ge => true
  | _ => false

def isEquality : BinaryOp → Bool
  | .eq | .ne => true
  | _ => false

/-- The type of a sum: texts join with anything but null and what is only known at run time. -/
def sumType? : Ty → Ty → Option Ty
  | .text, .null | .text, .dynamic | .null, .text | .dynamic, .text => none
  | .text, _ | _, .text => some .text
  | l, r => l.promote? r

/-- Two types can be compared for equality if both are numeric, or they are the same. -/
def comparable : Ty → Ty → Bool
  | .bool, .bool | .text, .text | .null, .null => true
  | l, r => (l.promote? r).isSome

/-- The type of the result, or nothing when the operator does not apply to such operands. -/
def resultType? (op : BinaryOp) (l r : Ty) : Option Ty :=
  match op with
  | .add => sumType? l r
  | .sub | .mul | .mod => l.promote? r
  | .div => (l.promote? r).map fun _ => .float
  | .eq | .ne => if comparable l r then some .bool else none
  | .lt | .le | .gt | .ge => (l.promote? r).map fun _ => .bool
  | .and | .or => if l = .bool ∧ r = .bool then some .bool else none

end BinaryOp

namespace UnaryOp

def symbol : UnaryOp → String
  | .neg => "-"
  | .not => "!"

/-- The operator with this symbol. -/
def ofSymbol? (symbol : String) : Option UnaryOp :=
  [UnaryOp.neg, .not].find? fun op => op.symbol = symbol

theorem ofSymbol?_symbol (op : UnaryOp) : ofSymbol? op.symbol = some op := by
  cases op <;> decide

/-- The type of the result, or nothing when the operator does not apply to such an operand. -/
def resultType? (op : UnaryOp) (t : Ty) : Option Ty :=
  match op with
  | .neg => if t.isNumeric then some t else none
  | .not => if t = .bool then some .bool else none

end UnaryOp
end FormulaCompiler
