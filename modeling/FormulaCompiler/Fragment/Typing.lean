import FormulaCompiler.Fragment.Basic

/-!
# Static types of nodes

The type that a node's fragment has, without rendering it. A field's type is the one it was declared
with; in place, a constant has its value's type, a variable the type of its binding, an operator
the type its operands give it.
-/

namespace FormulaCompiler.Store

/-- The type of a node under an emission, when `inPlace` types nodes that enter code in place. -/
def typeUnder (inPlace : NodeId → Except BuildError Ty) (id : NodeId) (e : Emission) :
    Except BuildError Ty :=
  match e.declared? with
  | some ty => .ok ty
  | none => inPlace id

/-- The type of a node under its own emission, when `inPlace` types nodes that enter code in
place. -/
def typeVia (s : Store) (inPlace : NodeId → Except BuildError Ty) (id : NodeId) :
    Except BuildError Ty := do
  let (node, _) ← s.inspectAt .render id
  typeUnder inPlace id node.emission

/-- The type of a node in place, following at most `depth` nodes into each other. -/
def inPlaceTypeWithin (s : Store) (ctx : Context) : Nat → NodeId → Except BuildError Ty
  | 0, id => .error (.ofCycle .render id)
  | depth + 1, id => do
      let (node, shape) ← s.inspectAt .render id
      match shape with
      | .const value => pure value.ty
      | .var => pure (ctx.typeOf node.label)
      | .unary op operand => do
          let t ← s.typeVia (s.inPlaceTypeWithin ctx depth) operand
          op.typeAt id node.label t
      | .binary op left right => do
          let l ← s.typeVia (s.inPlaceTypeWithin ctx depth) left
          let r ← s.typeVia (s.inPlaceTypeWithin ctx depth) right
          op.typeAt id node.label l r

/-- The type of a node in place. -/
def inPlaceType (s : Store) (ctx : Context) (id : NodeId) : Except BuildError Ty :=
  s.inPlaceTypeWithin ctx s.depth id

/-- The type of a node as some emission would render it. -/
def typeAs (s : Store) (ctx : Context) (id : NodeId) (e : Emission) : Except BuildError Ty :=
  typeUnder (s.inPlaceType ctx) id e

/-- The type of a node. -/
def nodeType (s : Store) (ctx : Context) (id : NodeId) : Except BuildError Ty :=
  s.typeVia (s.inPlaceType ctx) id

end FormulaCompiler.Store
