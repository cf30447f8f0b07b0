import FormulaCompiler.Pass.Basic

/-!
# Collapsing a constant formula

A formula that is one constant is kept in a field of the unit.
-/

namespace FormulaCompiler
namespace Collapse

/-- Makes a constant root a field; any other root stays as it is. -/
def run (ctx : Context) (root : NodeId) : EStateM BuildError Store Outcome := fun store =>
  match store.get? root with
  | none => .error (.malformed .optimize root "" .missingRoot) store
  | some node =>
      if node.kind.isConst then
        match store.eval ctx root with
        | .ok value => .ok ⟨root, 1⟩ (store.setEmission root (.ofConstant value))
        | .error cause => .error (.malformed .optimize root node.label (.evaluation cause)) store
      else .ok ⟨root, 0⟩ store

end Collapse

/-- The pass that makes a constant formula one field. -/
def Pass.collapse : Pass := ⟨"whole_expression_collapse", Collapse.run⟩

end FormulaCompiler
