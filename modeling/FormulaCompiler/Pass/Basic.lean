import FormulaCompiler.BuildError

/-!
# Passes over a formula

A pass may change the nodes of a store and name a new root. What it changed before a failure stays
changed.
-/

namespace FormulaCompiler

/-- What a pass did: the root from now on, and how many nodes it changed. -/
structure Outcome where
  root : NodeId
  changes : Nat
  deriving DecidableEq, Repr

/-- Whether a pass changed anything. -/
def Outcome.changed (o : Outcome) : Bool := decide (0 < o.changes)

/-- A step of the optimiser. -/
structure Pass where
  name : String
  run : Context → NodeId → EStateM BuildError Store Outcome

/-- Runs a pass on a formula, which goes on from the root that the pass names. -/
def Pass.runOn (p : Pass) (ctx : Context) : EStateM BuildError Tree Outcome := fun t =>
  match t with
  | ⟨store, root⟩ =>
    match p.run ctx root store with
    | .ok outcome store => .ok outcome ⟨store, outcome.root⟩
    | .error e store => .error e ⟨store, root⟩

end FormulaCompiler
