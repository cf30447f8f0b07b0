import FormulaCompiler.Field
import FormulaCompiler.Fragment.Typing
import FormulaCompiler.ReadCache

/-!
# Rendering nodes

One walk from left to right makes the fragment of a node. On its way it queues a field for every
hoisted node it meets, and declares a local for every cached read it meets first. What it queued
and declared before a failure stays.
-/

namespace FormulaCompiler

/-- How a local starts: the read it keeps and the static type of that read. -/
structure LocalRead where
  init : Code
  ty : Ty
  deriving DecidableEq, Repr, Inhabited

/-- A variable's name in a comment, where line breaks become spaces. -/
def commentText (s : String) : String :=
  s.map fun c => if c = '\r' ∨ c = '\n' then ' ' else c

/-- The declaration of a local. Numbers are kept as floats. -/
def CachedRead.declaration (r : CachedRead LocalRead) : String :=
  let init := r.body.init.print
  "let " ++ r.name ++ ": " ++ r.body.ty.localType.text ++ " = " ++
    (if r.body.ty.isNumeric then init ++ " as f64" else init) ++ ";   // " ++ commentText r.text

/-- What rendering collects: queued fields with the counter they draw on, and cached reads. -/
structure RenderState where
  counter : Counter := {}
  fields : FieldQueue
  locals : ReadCache LocalRead
  deriving DecidableEq, Repr

abbrev RenderM := EStateM BuildError RenderState

namespace RenderM

/-- A node with its shape. -/
def nodeAt (s : Store) (id : NodeId) : RenderM (Node × Shape) := fun st =>
  match s.inspectAt .render id with
  | .ok found => .ok found st
  | .error e => .error e st

/-- Goes on with a type, or fails with the defect that there is none. -/
def typed (ty : Except BuildError Ty) : RenderM Ty := fun st =>
  match ty with
  | .ok t => .ok t st
  | .error e => .error e st

/-- Keeps a constant in a new field. -/
def hoist (value : Value) (ty : Ty) : RenderM Fragment := fun ⟨counter, fields, locals⟩ =>
  match fields.push counter value ty with
  | .ok name (fields, counter) => .ok ⟨.field name, ty⟩ ⟨counter, fields, locals⟩
  | .error cause (fields, counter) => .error (.clash cause) ⟨counter, fields, locals⟩

/-- The local that holds the read of a variable, if there is one. -/
def cachedLocal? (name : String) : RenderM (Option String) := fun st =>
  .ok (st.locals.get? name) st

/-- Asks something of the cached reads. -/
def withLocals {α : Type} (ask : ReadCache LocalRead → EStateM.Result Clash (ReadCache LocalRead) α) :
    RenderM α := fun ⟨counter, fields, locals⟩ =>
  match ask locals with
  | .ok answer locals => .ok answer ⟨counter, fields, locals⟩
  | .error cause locals => .error (.clash cause) ⟨counter, fields, locals⟩

/-- Declares a new local that keeps the read of a variable. -/
def declare (name : String) (read : Fragment) : RenderM Fragment := do
  let held ← withLocals (·.freshName)
  withLocals (·.insert name held ⟨read.code, read.ty⟩)
  pure ⟨.localVar held, read.ty⟩

/-- A variable, entering code in the given way. -/
def readVariable (ctx : Context) (name : String) : Emission → RenderM Fragment
  | .inPlace => pure (.read ctx name)
  | .hoisted value ty => hoist value ty
  | .cached inner => do
      match ← cachedLocal? name with
      | some held => pure ⟨.localVar held, inner.declared?.getD (ctx.typeOf name)⟩
      | none => do
          let read ← readVariable ctx name inner
          declare name read

/-- A constant or an operator, given how it enters code in place. -/
def operation (id : NodeId) (label : String) (inPlace : RenderM Fragment) :
    Emission → RenderM Fragment
  | .inPlace => inPlace
  | .hoisted value ty => hoist value ty
  | .cached _ => throw (.malformed .render id label .cachedOperation)

end RenderM

namespace Store

open RenderM

/-- Renders a node, following at most `depth` nodes into each other. -/
def renderWithin (s : Store) (ctx : Context) : Nat → NodeId → RenderM Fragment
  | 0, id => throw (.ofCycle .render id)
  | depth + 1, id => do
      let (node, shape) ← nodeAt s id
      match shape with
      | .var => readVariable ctx node.label node.emission
      | .const value => operation id node.label (pure (.const value)) node.emission
      | .unary op operand =>
          let inPlace := do
            let f ← s.renderWithin ctx depth operand
            let ty ← typed (op.typeAt id node.label f.ty)
            pure ⟨op.code ty f, ty⟩
          operation id node.label inPlace node.emission
      | .binary op left right =>
          let inPlace := do
            let l ← s.renderWithin ctx depth left
            let r ← s.renderWithin ctx depth right
            let ty ← typed (op.typeAt id node.label l.ty r.ty)
            pure ⟨op.code ty l r, ty⟩
          operation id node.label inPlace node.emission

/-- Renders a node. -/
def render (s : Store) (ctx : Context) (id : NodeId) : RenderM Fragment :=
  s.renderWithin ctx s.depth id

/-- Renders the node a unit answers. A widened local is narrowed here, as operators on numbers narrow
their operands; joins of texts take it as it is. -/
def renderRoot (s : Store) (ctx : Context) (id : NodeId) : RenderM Fragment := do
  let (node, _) ← nodeAt s id
  let f ← s.render ctx id
  pure (if node.emission.isCached ∧ f.ty = .int then f.narrow else f)

end Store
end FormulaCompiler
