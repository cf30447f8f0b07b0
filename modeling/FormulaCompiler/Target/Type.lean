import FormulaCompiler.Ty

/-!
# Types of the target language

A static type has three spellings in generated code: as the type of a field, of a local and of an
expression. Numbers are kept in locals as floats.
-/

namespace FormulaCompiler

/-- A type of the target language that generated code mentions. -/
inductive TargetType where
  | unit
  | i64
  | f64
  | bool
  | staticText
  | ownedText
  | value
  deriving DecidableEq, Repr

/-- The type as it is written. -/
def TargetType.text : TargetType → String
  | .unit => "()"
  | .i64 => "i64"
  | .f64 => "f64"
  | .bool => "bool"
  | .staticText => "&'static str"
  | .ownedText => "String"
  | .value => "Value"

namespace Ty

/-- The type of a field that holds a constant. -/
def fieldType : Ty → TargetType
  | .null => .unit
  | .int => .i64
  | .float => .f64
  | .bool => .bool
  | .text => .staticText
  | .dynamic => .value

/-- The type of a local that holds a read; an integer is widened. -/
def localType : Ty → TargetType
  | .null => .unit
  | .int | .float => .f64
  | .bool => .bool
  | .text => .ownedText
  | .dynamic => .value

/-- The type of an expression. -/
def exprType : Ty → TargetType
  | .text => .ownedText
  | t => t.fieldType

end Ty
end FormulaCompiler
