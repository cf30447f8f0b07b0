import FormulaCompiler.Operator.Basic
import FormulaCompiler.Value

/-!
# Nodes of a formula

A node has a label for messages, a kind, the ids of its children and a decision on how it enters
generated code. Nothing forces the number of children to fit the kind: `Node.shape?` checks it.
-/

namespace FormulaCompiler

/-- The number under which a store keeps a node. The largest is set aside for "no node". -/
structure NodeId where
  index : Nat
  deriving DecidableEq, Repr, Inhabited

namespace NodeId

/-- The id that no node has. -/
def invalid : NodeId := ⟨4294967295⟩

def isValid (id : NodeId) : Bool := decide (id ≠ invalid)

/-- The id in messages. -/
def display (id : NodeId) : String := "#" ++ toString id.index

/-- The id in listings, where the invalid one has a name. -/
def debugText (id : NodeId) : String :=
  if id.isValid then "NodeId(" ++ toString id.index ++ ")" else "NodeId::INVALID"

end NodeId

/-- What a node computes. A variable's name is the node's label. -/
inductive Kind where
  | const (value : Value)
  | var
  | binary (op : BinaryOp)
  | unary (op : UnaryOp)
  deriving DecidableEq, Repr, Inhabited

namespace Kind

/-- The number of children a node of this kind has to have. -/
def arity : Kind → Nat
  | .const _ | .var => 0
  | .unary _ => 1
  | .binary _ => 2

def isConst : Kind → Bool
  | .const _ => true
  | _ => false

end Kind

/-- How a node enters generated code: in place, as a field that holds a constant, or as a local
that keeps what the inner way reads. -/
inductive Emission where
  | inPlace
  | hoisted (value : Value) (ty : Ty)
  | cached (inner : Emission)
  deriving DecidableEq, Repr, Inhabited

namespace Emission

/-- A field that holds the value under its own type. -/
def ofConstant (value : Value) : Emission := .hoisted value value.ty

def isCached : Emission → Bool
  | .cached _ => true
  | _ => false

/-- The type that the emission fixes by itself, whatever the node is. -/
def declared? : Emission → Option Ty
  | .inPlace => none
  | .hoisted _ ty => some ty
  | .cached inner => inner.declared?

end Emission

/-- A node. -/
structure Node where
  label : String
  kind : Kind
  children : List NodeId := []
  emission : Emission := .inPlace
  deriving DecidableEq, Repr, Inhabited

/-- What a node computes together with its children, when their number fits. -/
inductive Shape where
  | const (value : Value)
  | var
  | unary (op : UnaryOp) (operand : NodeId)
  | binary (op : BinaryOp) (left right : NodeId)
  deriving DecidableEq, Repr

namespace Node

/-- The node's shape, or nothing when it has the wrong number of children. -/
def shape? (n : Node) : Option Shape :=
  match n.kind, n.children with
  | .const v, [] => some (.const v)
  | .var, [] => some .var
  | .unary op, [x] => some (.unary op x)
  | .binary op, [l, r] => some (.binary op l r)
  | _, _ => none

theorem shape?_isSome_iff (n : Node) :
    n.shape?.isSome = true ↔ n.children.length = n.kind.arity := by
  obtain ⟨label, kind, children, emission⟩ := n
  cases kind <;> rcases children with _ | ⟨a, _ | ⟨b, _ | ⟨c, rest⟩⟩⟩ <;> simp [shape?, Kind.arity]

theorem shape?_eq_none_iff (n : Node) :
    n.shape? = none ↔ n.children.length ≠ n.kind.arity := by
  rw [← Option.isNone_iff_eq_none, ← Option.not_isSome, ne_eq, ← shape?_isSome_iff]
  simp

/-- A constant, labelled as its value. -/
def const (value : Value) : Node := ⟨value.label, .const value, [], .inPlace⟩

/-- A variable, labelled with its name. -/
def var (name : String) : Node := ⟨name, .var, [], .inPlace⟩

/-- An operator between two nodes, labelled with its symbol. -/
def binary (op : BinaryOp) (left right : NodeId) : Node :=
  ⟨op.symbol, .binary op, [left, right], .inPlace⟩

/-- An operator before a node, labelled with its symbol. -/
def unary (op : UnaryOp) (operand : NodeId) : Node := ⟨op.symbol, .unary op, [operand], .inPlace⟩

end Node
end FormulaCompiler
