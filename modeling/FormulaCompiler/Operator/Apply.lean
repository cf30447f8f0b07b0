import FormulaCompiler.Binary64.Remainder
import FormulaCompiler.Operator.Basic
import FormulaCompiler.Value

/-!
# Applying operators to values

Integer arithmetic is exact or refused. An integer beside a float becomes a float, and every
quotient is one. A comparison with NaN is false.
-/

namespace FormulaCompiler

/-- Why an operator gives no value. -/
inductive OperatorError where
  | typeMismatch (symbol : String) (operands : List Ty)
  | divisionByZero
  | overflow (symbol : String)
  deriving DecidableEq, Repr

def OperatorError.message : OperatorError → String
  | .typeMismatch symbol operands =>
      "operator `" ++ symbol ++ "` cannot be applied to " ++
        String.intercalate " and " (operands.map Ty.name)
  | .divisionByZero => "division by zero"
  | .overflow symbol => "integer overflow in `" ++ symbol ++ "`"

/-- The 64-bit integer with this value, if there is one. -/
def fitInt64? (n : Int) : Option Int64 :=
  if h : Int64.minValue.toInt ≤ n ∧ n ≤ Int64.maxValue.toInt then
    some (Int64.ofIntLE n h.1 h.2)
  else none

theorem toInt_of_fitInt64? {n : Int} {m : Int64} (h : fitInt64? n = some m) : m.toInt = n := by
  unfold fitInt64? at h
  split at h
  · rw [← Option.some.inj h, Int64.toInt_ofIntLE]
  · cases h

theorem fitInt64?_isSome_iff (n : Int) :
    (fitInt64? n).isSome = true ↔ Int64.minValue.toInt ≤ n ∧ n ≤ Int64.maxValue.toInt := by
  unfold fitInt64?
  split <;> rename_i h
  · exact ⟨fun _ => h, fun _ => rfl⟩
  · exact ⟨fun hs => absurd hs Bool.false_ne_true, fun hn => absurd hn h⟩

namespace BinaryOp

def mismatch (op : BinaryOp) (l r : Value) : Except OperatorError Value :=
  .error (.typeMismatch op.symbol [l.ty, r.ty])

/-- An exact integer result, refused when it does not fit. -/
def exactInt (symbol : String) (n : Int) : Except OperatorError Value :=
  match fitInt64? n with
  | some m => .ok (.int m)
  | none => .error (.overflow symbol)

/-- The operator on two numbers of which one is a float. -/
def onFloats (op : BinaryOp) (l r : Value) (f : Float → Float → Except OperatorError Value) :
    Except OperatorError Value :=
  match l.number?, r.number? with
  | some x, some y => f x y
  | _, _ => op.mismatch l r

/-- Sum, difference and product: exact on integers, rounded on floats. -/
def arithmetic (op : BinaryOp) (onInts : Int → Int → Int) (rounded : Float → Float → Float)
    (l r : Value) : Except OperatorError Value :=
  match l, r with
  | .int a, .int b => exactInt op.symbol (onInts a.toInt b.toInt)
  | l, r => op.onFloats l r fun x y => .ok (.float (rounded x y))

/-- A sum joins the display texts when one side is a text and none is null. -/
def sum (l r : Value) : Except OperatorError Value :=
  match l, r with
  | .text _, .null | .null, .text _ => add.mismatch l r
  | .text _, _ | _, .text _ => .ok (.text (l.display ++ r.display))
  | l, r => add.arithmetic (· + ·) (· + ·) l r

/-- Division is always on floats. -/
def quotient (l r : Value) : Except OperatorError Value :=
  div.onFloats l r fun x y =>
    if y == 0.0 then .error .divisionByZero else .ok (.float (x / y))

/-- The remainder has the sign of the dividend. The least integer by minus one is refused, as its
quotient does not fit. -/
def rest (l r : Value) : Except OperatorError Value :=
  match l, r with
  | .int a, .int b =>
      if b = 0 then .error .divisionByZero
      else if a = Int64.minValue ∧ b = -1 then .error (.overflow mod.symbol)
      else exactInt mod.symbol (a.toInt.tmod b.toInt)
  | l, r =>
      mod.onFloats l r fun x y =>
        if y == 0.0 then .error .divisionByZero
        else .ok (.float (Binary64.remainderFloat x y))

/-- Equality of two values that can be compared. -/
def same? (l r : Value) : Option Bool :=
  match l, r with
  | .int a, .int b => some (a == b)
  | .bool a, .bool b => some (a == b)
  | .text a, .text b => some (a == b)
  | .null, .null => some true
  | l, r =>
      match l.number?, r.number? with
      | some x, some y => some (x == y)
      | _, _ => none

def equality (op : BinaryOp) (negated : Bool) (l r : Value) : Except OperatorError Value :=
  match same? l r with
  | some b => .ok (.bool (b != negated))
  | none => op.mismatch l r

def ordering (op : BinaryOp) (onInts : Int → Int → Bool) (onFloats : Float → Float → Bool)
    (l r : Value) : Except OperatorError Value :=
  match l, r with
  | .int a, .int b => .ok (.bool (onInts a.toInt b.toInt))
  | l, r => op.onFloats l r fun x y => .ok (.bool (onFloats x y))

def logic (op : BinaryOp) (f : Bool → Bool → Bool) (l r : Value) : Except OperatorError Value :=
  match l, r with
  | .bool a, .bool b => .ok (.bool (f a b))
  | l, r => op.mismatch l r

/-- The operator's result on two values. -/
def apply (op : BinaryOp) (l r : Value) : Except OperatorError Value :=
  match op with
  | .add => sum l r
  | .sub => op.arithmetic (· - ·) (· - ·) l r
  | .mul => op.arithmetic (· * ·) (· * ·) l r
  | .div => quotient l r
  | .mod => rest l r
  | .eq => op.equality false l r
  | .ne => op.equality true l r
  | .lt => op.ordering (fun a b => decide (a < b)) (fun x y => decide (x < y)) l r
  | .le => op.ordering (fun a b => decide (a ≤ b)) (fun x y => decide (x ≤ y)) l r
  | .gt => op.ordering (fun a b => decide (b < a)) (fun x y => decide (y < x)) l r
  | .ge => op.ordering (fun a b => decide (b ≤ a)) (fun x y => decide (y ≤ x)) l r
  | .and => op.logic (· && ·) l r
  | .or => op.logic (· || ·) l r

end BinaryOp

/-- The operator's result on one value. -/
def UnaryOp.apply (op : UnaryOp) (v : Value) : Except OperatorError Value :=
  match op, v with
  | .neg, .int n => BinaryOp.exactInt op.symbol (-n.toInt)
  | .neg, .float x => .ok (.float (-x))
  | .not, .bool b => .ok (.bool (!b))
  | _, _ => .error (.typeMismatch op.symbol [v.ty])

end FormulaCompiler
