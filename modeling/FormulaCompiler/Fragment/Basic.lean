import FormulaCompiler.BuildError
import FormulaCompiler.Target.Code

/-!
# Fragments of generated code

A fragment is an expression with its static type. Operators combine the fragments of their
operands: numbers are cast to the type in which they meet, which also narrows a widened local back.
-/

namespace FormulaCompiler

/-- An expression with its static type. -/
structure Fragment where
  code : Code
  ty : Ty
  deriving DecidableEq, Repr, Inhabited

namespace Fragment

/-- The fragment's text. -/
def text (f : Fragment) : String := f.code.print

/-- A constant in place. -/
def const (value : Value) : Fragment := ⟨.literal value, value.ty⟩

/-- A variable read in place. -/
def read (ctx : Context) (name : String) : Fragment :=
  let ty := ctx.typeOf name
  ⟨.read ty.getter name, ty⟩

/-- A widened integer, narrowed back. -/
def narrow (f : Fragment) : Fragment := { f with code := .cast f.code .i64 }

end Fragment

namespace BinaryOp

/-- The operator's type at a node, or the defect that it has none. -/
def typeAt (op : BinaryOp) (id : NodeId) (label : String) (l r : Ty) : Except BuildError Ty :=
  match op.resultType? l r with
  | some ty => .ok ty
  | none => .error (.malformed .render id label (.untypedBinary op l r))

/-- The operator between two fragments, given the type of the result. -/
def code (op : BinaryOp) (ty : Ty) (l r : Fragment) : Code :=
  if op = .add ∧ ty = .text then .concat l.code r.code
  else
    match op with
    | .and | .or => .binary op l.code r.code
    | .div => .binary .div (.cast l.code .f64) (.cast r.code .f64)
    | _ =>
        match l.ty.promote? r.ty with
        | some t => .binary op (.cast l.code t.exprType) (.cast r.code t.exprType)
        | none => .binary op l.code r.code

end BinaryOp

namespace UnaryOp

/-- The operator's type at a node, or the defect that it has none. -/
def typeAt (op : UnaryOp) (id : NodeId) (label : String) (t : Ty) : Except BuildError Ty :=
  match op.resultType? t with
  | some ty => .ok ty
  | none => .error (.malformed .render id label (.untypedUnary op t))

/-- The operator before a fragment, given the type of the result. -/
def code (op : UnaryOp) (ty : Ty) (f : Fragment) : Code :=
  match op with
  | .neg => .unary .neg (.cast f.code ty.exprType)
  | .not => .unary .not f.code

end UnaryOp
end FormulaCompiler
