import FormulaCompiler.Tree.Node

/-!
# Stores of nodes

Nodes are kept in the order of their allocation and named by their place. Children may be shared,
may come after their parent and may dangle.
-/

namespace FormulaCompiler

/-- The nodes of formulas. -/
structure Store where
  nodes : Array Node := #[]
  deriving DecidableEq, Repr, Inhabited

namespace Store

def empty : Store := {}

def size (s : Store) : Nat := s.nodes.size

def isEmpty (s : Store) : Bool := s.nodes.isEmpty

/-- The node with this id. -/
def get? (s : Store) (id : NodeId) : Option Node := s.nodes[id.index]?

/-- Adds a node and gives its id. -/
def alloc (s : Store) (n : Node) : NodeId × Store := (⟨s.nodes.size⟩, ⟨s.nodes.push n⟩)

/-- Changes one node. A dangling id changes nothing. -/
def modify (s : Store) (id : NodeId) (f : Node → Node) : Store := ⟨s.nodes.modify id.index f⟩

/-- Decides anew how a node enters generated code. -/
def setEmission (s : Store) (id : NodeId) (e : Emission) : Store :=
  s.modify id fun n => { n with emission := e }

/-- Turns a node into a constant that generated code keeps in a field. The label stays. -/
def freeze (s : Store) (id : NodeId) (value : Value) : Store :=
  s.modify id fun n =>
    { n with kind := .const value, children := [], emission := .ofConstant value }

@[simp] theorem size_modify (s : Store) (id : NodeId) (f : Node → Node) :
    (s.modify id f).size = s.size := by
  simp [size, modify]

@[simp] theorem size_setEmission (s : Store) (id : NodeId) (e : Emission) :
    (s.setEmission id e).size = s.size :=
  size_modify ..

@[simp] theorem size_freeze (s : Store) (id : NodeId) (value : Value) :
    (s.freeze id value).size = s.size :=
  size_modify ..

theorem get?_modify (s : Store) (id other : NodeId) (f : Node → Node) :
    (s.modify id f).get? other = if id = other then (s.get? other).map f else s.get? other := by
  have hi : (id.index = other.index) ↔ id = other :=
    ⟨fun h => by cases id; cases other; simp_all, fun h => by rw [h]⟩
  simp only [get?, modify, Array.getElem?_modify, hi]

theorem get?_alloc (s : Store) (n : Node) (id : NodeId) :
    (s.alloc n).2.get? id = if id = (s.alloc n).1 then some n else s.get? id := by
  have hi : id.index = s.nodes.size ↔ id = ⟨s.nodes.size⟩ :=
    ⟨fun h => by cases id; simp_all, fun h => by rw [h]⟩
  by_cases h : id = ⟨s.nodes.size⟩ <;> simp [get?, alloc, Array.getElem?_push, hi, h]

/-- What can be wrong with a node that a walk comes to. -/
inductive Misfit where
  | missing
  | childCount (label : String) (expected found : Nat)
  deriving DecidableEq, Repr

/-- A node with its shape, or what is wrong with it. -/
def inspect (s : Store) (id : NodeId) : Except Misfit (Node × Shape) :=
  match s.get? id with
  | none => .error .missing
  | some n =>
      match n.shape? with
      | none => .error (.childCount n.label n.kind.arity n.children.length)
      | some shape => .ok (n, shape)

theorem inspect_eq_ok_iff (s : Store) (id : NodeId) (n : Node) (shape : Shape) :
    s.inspect id = .ok (n, shape) ↔ s.get? id = some n ∧ n.shape? = some shape := by
  unfold inspect
  split <;> rename_i h
  · simp [h]
  · split <;> rename_i h'
    · simp only [h, Option.some.injEq, reduceCtorEq, false_iff, not_and]
      rintro rfl
      simp [h']
    · simp only [h, Except.ok.injEq, Prod.mk.injEq, Option.some.injEq]
      constructor
      · rintro ⟨rfl, rfl⟩
        exact ⟨rfl, h'⟩
      · rintro ⟨rfl, hs⟩
        exact ⟨rfl, Option.some.inj (h'.symm.trans hs)⟩

end Store

/-- A formula: a store of nodes and the one to start from. -/
structure Tree where
  store : Store := {}
  root : NodeId := .invalid
  deriving DecidableEq, Repr, Inhabited

end FormulaCompiler
