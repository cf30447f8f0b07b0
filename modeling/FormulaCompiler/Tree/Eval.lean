import FormulaCompiler.Bindings
import FormulaCompiler.Operator.Apply
import FormulaCompiler.Tree.Store

/-!
# Evaluating a formula

Operands are evaluated from left to right, and the first failure is the result. A walk that goes
deeper than the store has nodes, and one more for a dangling id, has come back to a node it is
still inside of.
-/

namespace FormulaCompiler

/-- Why a formula has no value. -/
inductive EvalError where
  | unbound (name : String)
  | missingNode (node : NodeId)
  | childCount (node : NodeId) (label : String) (expected found : Nat)
  | operator (cause : OperatorError)
  | cyclic (node : NodeId)
  deriving DecidableEq, Repr

def EvalError.message : EvalError → String
  | .unbound name => "variable `" ++ name ++ "` is not bound in the context"
  | .missingNode node => "node " ++ node.display ++ " does not exist in the arena"
  | .childCount node label expected found =>
      "node " ++ node.display ++ " (`" ++ label ++ "`) expects " ++ toString expected ++
        " children, found " ++ toString found
  | .operator cause => cause.message
  | .cyclic node => "node " ++ node.display ++ " contains itself"

/-- What is wrong with a node, as a reason for having no value. -/
def Store.Misfit.evalError (id : NodeId) : Misfit → EvalError
  | .missing => .missingNode id
  | .childCount label expected found => .childCount id label expected found

namespace Store

/-- Evaluation that follows at most `depth` nodes into each other. -/
def evalWithin (s : Store) (ctx : Context) : Nat → NodeId → Except EvalError Value
  | 0, id => .error (.cyclic id)
  | depth + 1, id => do
      let (node, shape) ← (s.inspect id).mapError (·.evalError id)
      match shape with
      | .const value => pure value
      | .var =>
          match ctx.get? node.label with
          | some value => pure value
          | none => throw (.unbound node.label)
      | .unary op operand => do
          let v ← s.evalWithin ctx depth operand
          (op.apply v).mapError .operator
      | .binary op left right => do
          let l ← s.evalWithin ctx depth left
          let r ← s.evalWithin ctx depth right
          (op.apply l r).mapError .operator

/-- The depth that no walk without a cycle exceeds. -/
def depth (s : Store) : Nat := s.size + 1

/-- The value of a node. -/
def eval (s : Store) (ctx : Context) (id : NodeId) : Except EvalError Value :=
  s.evalWithin ctx s.depth id

end Store

/-- The value of a formula. -/
def Tree.eval (t : Tree) (ctx : Context) : Except EvalError Value := t.store.eval ctx t.root

end FormulaCompiler
