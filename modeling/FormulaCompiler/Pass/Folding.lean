import FormulaCompiler.Pass.Basic

/-!
# Constant folding

Every operator below the root whose operands are constant, and that has a value, becomes a constant
kept in a field. All operands are folded, also after one that is not constant. An operator without
a value stays as it is.
-/

namespace FormulaCompiler
namespace Folding

/-- The store being folded and the number of nodes folded so far. -/
structure State where
  store : Store
  folded : Nat := 0
  deriving DecidableEq, Repr

abbrev FoldM := EStateM BuildError State

/-- A node with its shape in the store as it is now. -/
def inspect (id : NodeId) : FoldM (Node × Shape) := fun s =>
  match s.store.inspectAt .optimize id with
  | .ok found => .ok found s
  | .error e => .error e s

/-- Freezes an operator whose operands are constant, if it has a value. -/
def settle (ctx : Context) (id : NodeId) (operandsConstant : Bool) : FoldM Bool :=
    fun ⟨store, folded⟩ =>
  if operandsConstant then
    match store.eval ctx id with
    | .ok value => .ok true ⟨store.freeze id value, folded + 1⟩
    | .error _ => .ok false ⟨store, folded⟩
  else .ok false ⟨store, folded⟩

/-- Folds below a node, at most `depth` nodes into each other, and answers whether it is constant
afterwards. -/
def foldWithin (ctx : Context) : Nat → NodeId → FoldM Bool
  | 0, id => throw (.ofCycle .optimize id)
  | depth + 1, id => do
      let (_, shape) ← inspect id
      match shape with
      | .const _ => pure true
      | .var => pure false
      | .unary _ operand => do
          let constant ← foldWithin ctx depth operand
          settle ctx id constant
      | .binary _ left right => do
          let l ← foldWithin ctx depth left
          let r ← foldWithin ctx depth right
          settle ctx id (l && r)

/-- Folds a formula. -/
def run (ctx : Context) (root : NodeId) : EStateM BuildError Store Outcome := fun store =>
  let depth := store.depth
  match foldWithin ctx depth root ⟨store, 0⟩ with
  | .ok _ s => .ok ⟨root, s.folded⟩ s.store
  | .error e s => .error e s.store

end Folding

/-- The constant folding pass. -/
def Pass.folding : Pass := ⟨"constant_folding", Folding.run⟩

end FormulaCompiler
