import FormulaCompiler.Proofs.Target.Typing

/-!
# What generated code computes

A partial evaluator for expressions of the target language. It is undefined where the target
language has no answer: integer arithmetic that does not fit, an integer remainder by zero, and
operands that typing refuses. Floats always have an answer, also for a division by zero. The locals
of a unit are declared in order before its expression is evaluated. The texts of a unit compute what
the declarations and the expression they are read as compute.
-/

namespace FormulaCompiler

/-- What an expression of the target language evaluates to. -/
inductive Datum where
  | unit
  | i64 (n : Int64)
  | f64 (x : Float)
  | bool (b : Bool)
  | text (s : String)
  | value (v : Value)
  deriving DecidableEq, Repr

namespace Datum

/-- The value that a unit answers. -/
def toValue : Datum → Value
  | .unit => .null
  | .i64 n => .int n
  | .f64 x => .float x
  | .bool b => .bool b
  | .text s => .text s
  | .value v => v

/-- A cast between numbers. A float loses its fraction and stops at the bounds. -/
def cast? : TargetType → Datum → Option Datum
  | .i64, .i64 n => some (.i64 n)
  | .i64, .f64 x => some (.i64 (Binary64.intOfFloat x))
  | .f64, .i64 n => some (.f64 (Binary64.floatOfInt n))
  | .f64, .f64 x => some (.f64 x)
  | _, _ => none

/-- The text that formatting gives. -/
def display? : Datum → Option String
  | .i64 n => some (Value.int n).display
  | .f64 x => some (Value.float x).display
  | .bool b => some (Value.bool b).display
  | .text s => some s
  | .unit | .value _ => none

end Datum

/-- What a constant's literal evaluates to. -/
def Value.datum : Value → Datum
  | .null => .unit
  | .int n => .i64 n
  | .float x => .f64 x
  | .bool b => .bool b
  | .text s => .text s

@[simp] theorem Value.toValue_datum (v : Value) : v.datum.toValue = v := by cases v <;> rfl

/-- What a getter answers. -/
def Getter.read (ctx : Context) (name : String) : Getter → Datum
  | .int => .i64 (ctx.getInt name)
  | .float => .f64 (ctx.getFloat name)
  | .bool => .bool (ctx.getBool name)
  | .text => .text (ctx.getText name)
  | .value => .value (ctx.getValue name)

namespace BinaryOp

/-- The operator on integers. -/
def onInts? (op : BinaryOp) (a b : Int64) : Option Datum :=
  match op with
  | .add => (fitInt64? (a.toInt + b.toInt)).map .i64
  | .sub => (fitInt64? (a.toInt - b.toInt)).map .i64
  | .mul => (fitInt64? (a.toInt * b.toInt)).map .i64
  | .div => if b = 0 then none else (fitInt64? (a.toInt.tdiv b.toInt)).map .i64
  | .mod =>
      if b = 0 ∨ a = Int64.minValue ∧ b = -1 then none
      else (fitInt64? (a.toInt.tmod b.toInt)).map .i64
  | .eq => some (.bool (a == b))
  | .ne => some (.bool (a != b))
  | .lt => some (.bool (decide (a.toInt < b.toInt)))
  | .le => some (.bool (decide (a.toInt ≤ b.toInt)))
  | .gt => some (.bool (decide (b.toInt < a.toInt)))
  | .ge => some (.bool (decide (b.toInt ≤ a.toInt)))
  | .and | .or => none

/-- The operator on floats. -/
def onDoubles? (op : BinaryOp) (x y : Float) : Option Datum :=
  match op with
  | .add => some (.f64 (x + y))
  | .sub => some (.f64 (x - y))
  | .mul => some (.f64 (x * y))
  | .div => some (.f64 (x / y))
  | .mod => some (.f64 (Binary64.remainderFloat x y))
  | .eq => some (.bool (x == y))
  | .ne => some (.bool (x != y))
  | .lt => some (.bool (decide (x < y)))
  | .le => some (.bool (decide (x ≤ y)))
  | .gt => some (.bool (decide (y < x)))
  | .ge => some (.bool (decide (y ≤ x)))
  | .and | .or => none

/-- Equality and its negation, given whether the operands are the same. -/
def onSame? (op : BinaryOp) (same : Bool) : Option Datum :=
  match op with
  | .eq => some (.bool same)
  | .ne => some (.bool !same)
  | _ => none

/-- The operator on two operands. -/
def compute? (op : BinaryOp) : Datum → Datum → Option Datum
  | .i64 a, .i64 b => op.onInts? a b
  | .f64 x, .f64 y => op.onDoubles? x y
  | .bool a, .bool b =>
      match op with
      | .and => some (.bool (a && b))
      | .or => some (.bool (a || b))
      | _ => op.onSame? (a == b)
  | .text a, .text b => op.onSame? (a == b)
  | .unit, .unit => op.onSame? true
  | _, _ => none

/-- The result when the left operand alone decides it. -/
def settled? : BinaryOp → Datum → Option Datum
  | .and, .bool false => some (.bool false)
  | .or, .bool true => some (.bool true)
  | _, _ => none

end BinaryOp

/-- The operator on one operand. -/
def UnaryOp.compute? : UnaryOp → Datum → Option Datum
  | .neg, .i64 n => (fitInt64? (-n.toInt)).map .i64
  | .neg, .f64 x => some (.f64 (-x))
  | .not, .bool b => some (.bool !b)
  | _, _ => none

/-- The locals that are declared, with what they hold. -/
abbrev Locals := String → Option Datum

/-- What an expression evaluates to among the fields of a unit and the given locals, when variables
are read from a context. The right operand of a connective is left alone when the left one
decides. -/
def Code.eval? (ds : Declarations) (ctx : Context) (locals : Locals) : Code → Option Datum
  | .literal value => some value.datum
  | .field name => (ds.field? name).map (·.content.datum)
  | .localVar name => locals name
  | .read getter name => some (getter.read ctx name)
  | .cast operand type => do
      let d ← operand.eval? ds ctx locals
      d.cast? type
  | .unary op operand => do
      let d ← operand.eval? ds ctx locals
      op.compute? d
  | .binary op left right => do
      let l ← left.eval? ds ctx locals
      match op.settled? l with
      | some d => some d
      | none => do
          let r ← right.eval? ds ctx locals
          op.compute? l r
  | .concat left right => do
      let l ← left.eval? ds ctx locals
      let r ← right.eval? ds ctx locals
      let a ← l.display?
      let b ← r.display?
      some (.text (a ++ b))

namespace Declarations

/-- Declares locals in order. Each may use those before it. -/
def declare? (ds : Declarations) (ctx : Context) : List (Declared Code) → Locals → Option Locals
  | [], locals => some locals
  | r :: rest, locals => do
      let d ← r.content.eval? ds ctx locals
      ds.declare? ctx rest fun name => if name = r.name then some d else locals name

/-- What a unit with these declarations and this expression evaluates to. -/
def run? (ds : Declarations) (ctx : Context) (c : Code) : Option Datum := do
  let locals ← ds.declare? ctx ds.locals fun _ => none
  c.eval? ds ctx locals

end Declarations

/-- What a unit with these texts evaluates to. -/
def Parts.run? (p : Parts) (ctx : Context) : Option Datum := do
  let (ds, c) ← p.read?
  ds.run? ctx c

end FormulaCompiler
