import FormulaCompiler.Operator.Basic
import FormulaCompiler.Target.Type
import FormulaCompiler.Value

/-!
# Code of the target language

Generated expressions are built as terms and turned into text in one place. Every cast and every
operator is in parentheses.
-/

namespace FormulaCompiler

/-- The constant as a literal of the target language. -/
def Value.literal : Value → String
  | .null => "()"
  | .int n => toString n.toInt ++ "_i64"
  | .float x =>
      match Binary64.ofFloat x with
      | .nan => "f64::NAN"
      | .infinite negative => if negative then "f64::NEG_INFINITY" else "f64::INFINITY"
      | finite => Decimal.Layout.literal.write finite ++ "_f64"
  | .bool b => if b then "true" else "false"
  | .text s => Text.Quoted.quote s

/-- The ways in which a unit reads a variable. -/
inductive Getter where
  | int
  | float
  | bool
  | text
  | value
  deriving DecidableEq, Repr

def Getter.name : Getter → String
  | .int => "get_int"
  | .float => "get_float"
  | .bool => "get_bool"
  | .text => "get_str"
  | .value => "get_value"

/-- How a variable of this type is read. -/
def Ty.getter : Ty → Getter
  | .int => .int
  | .float => .float
  | .bool => .bool
  | .text => .text
  | .null | .dynamic => .value

/-- An expression of the target language. -/
inductive Code where
  | literal (value : Value)
  | field (name : String)
  | localVar (name : String)
  | read (getter : Getter) (name : String)
  | cast (operand : Code) (type : TargetType)
  | unary (op : UnaryOp) (operand : Code)
  | binary (op : BinaryOp) (left right : Code)
  | concat (left right : Code)
  deriving DecidableEq, Repr, Inhabited

namespace Code

/-- Appends the text of an expression. -/
def printTo (out : String) : Code → String
  | .literal value => out ++ value.literal
  | .field name => out ++ "Self::" ++ name
  | .localVar name => out ++ name
  | .read getter name => out ++ "ctx." ++ getter.name ++ "(" ++ Text.Quoted.quote name ++ ")"
  | .cast operand type => operand.printTo (out ++ "(") ++ " as " ++ type.text ++ ")"
  | .unary op operand => operand.printTo (out ++ "(" ++ op.symbol) ++ ")"
  | .binary op left right =>
      right.printTo (left.printTo (out ++ "(") ++ " " ++ op.symbol ++ " ") ++ ")"
  | .concat left right =>
      right.printTo (left.printTo (out ++ "format!(\"\x7b\x7d\x7b\x7d\", ") ++ ", ") ++ ")"

/-- The text of an expression. -/
def print (c : Code) : String := c.printTo ""

theorem printTo_eq (out : String) (c : Code) : c.printTo out = out ++ c.print := by
  induction c generalizing out with
  | literal value => simp [print, printTo]
  | field name => simp [print, printTo, String.append_assoc]
  | localVar name => simp [print, printTo]
  | read getter name => simp [print, printTo, String.append_assoc]
  | cast operand type ih =>
      simp only [print, printTo]
      rw [ih, ih ("" ++ _)]
      simp [String.append_assoc]
  | unary op operand ih =>
      simp only [print, printTo]
      rw [ih, ih ("" ++ _ ++ _)]
      simp [String.append_assoc]
  | binary op left right ihl ihr =>
      simp only [print, printTo]
      rw [ihr, ihl, ihr (_ ++ " "), ihl ("" ++ _)]
      simp [String.append_assoc]
  | concat left right ihl ihr =>
      simp only [print, printTo]
      rw [ihr, ihl, ihr (_ ++ ", "), ihl ("" ++ _)]
      simp [String.append_assoc]

@[simp] theorem print_literal (value : Value) : (literal value).print = value.literal := by
  simp [print, printTo]

@[simp] theorem print_field (name : String) : (field name).print = "Self::" ++ name := by
  simp [print, printTo]

@[simp] theorem print_local (name : String) : (localVar name).print = name := by
  simp [print, printTo]

@[simp] theorem print_read (getter : Getter) (name : String) :
    (read getter name).print = "ctx." ++ getter.name ++ "(" ++ Text.Quoted.quote name ++ ")" := by
  simp [print, printTo, String.append_assoc]

@[simp] theorem print_cast (operand : Code) (type : TargetType) :
    (cast operand type).print = "(" ++ operand.print ++ " as " ++ type.text ++ ")" := by
  rw [print, printTo, printTo_eq]
  simp

@[simp] theorem print_unary (op : UnaryOp) (operand : Code) :
    (unary op operand).print = "(" ++ op.symbol ++ operand.print ++ ")" := by
  rw [print, printTo, printTo_eq]
  simp

@[simp] theorem print_binary (op : BinaryOp) (left right : Code) :
    (binary op left right).print =
      "(" ++ left.print ++ " " ++ op.symbol ++ " " ++ right.print ++ ")" := by
  rw [print, printTo, printTo_eq, printTo_eq]
  simp [String.append_assoc]

@[simp] theorem print_concat (left right : Code) :
    (concat left right).print =
      "format!(\"\x7b\x7d\x7b\x7d\", " ++ left.print ++ ", " ++ right.print ++ ")" := by
  rw [print, printTo, printTo_eq, printTo_eq]
  simp [String.append_assoc]

end Code
end FormulaCompiler
