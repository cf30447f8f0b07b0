import FormulaCompiler.Pass.Basic

/-!
# Caching variable reads

Every variable below the root is read once, into a local, however often the formula mentions it.
-/

namespace FormulaCompiler
namespace ReadCaching

abbrev RebindM := EStateM BuildError Store

/-- A node with its shape. -/
def inspect (id : NodeId) : RebindM (Node × Shape) := fun s =>
  match s.inspectAt .optimize id with
  | .ok found => .ok found s
  | .error e => .error e s

/-- Makes a variable a cached read, unless it is one, and counts the change. -/
def rebind (id : NodeId) (emission : Emission) : RebindM Nat := fun s =>
  if emission.isCached then .ok 0 s else .ok 1 (s.setEmission id (.cached emission))

/-- Rebinds the variables below a node, at most `depth` nodes into each other, and counts them. -/
def rebindWithin : Nat → NodeId → RebindM Nat
  | 0, id => throw (.ofCycle .optimize id)
  | depth + 1, id => do
      let (node, shape) ← inspect id
      match shape with
      | .const _ => pure 0
      | .var => rebind id node.emission
      | .unary _ operand => rebindWithin depth operand
      | .binary _ left right => do
          let l ← rebindWithin depth left
          let r ← rebindWithin depth right
          pure (l + r)

/-- Rebinds the variables of a formula. -/
def run (_ : Context) (root : NodeId) : EStateM BuildError Store Outcome := fun store =>
  let depth := store.depth
  match rebindWithin depth root store with
  | .ok count store => .ok ⟨root, count⟩ store
  | .error e store => .error e store

end ReadCaching

/-- The read caching pass. -/
def Pass.readCaching : Pass := ⟨"read_caching", ReadCaching.run⟩

end FormulaCompiler
