import FormulaCompiler.Tree.Eval
import Mathlib.Data.Finset.Card
import Mathlib.Logic.Relation

/-!
# Stores without cycles

The child ids of a store are the edges of a graph. Children may be shared, may come after their
parent and may dangle; acyclicity only forbids that following them comes back. In an acyclic store
no walk comes to more nodes than there are, and after them to one dangling id at most, so that the
bound which every walk carries, `Store.depth`, is never used up. What a cyclic store does is not
considered here.
-/

namespace FormulaCompiler

namespace Shape

/-- The kind of a node with this shape. -/
def kind : Shape → Kind
  | .const v => .const v
  | .var => .var
  | .unary op _ => .unary op
  | .binary op _ _ => .binary op

/-- The children of a node with this shape. -/
def children : Shape → List NodeId
  | .const _ | .var => []
  | .unary _ x => [x]
  | .binary _ l r => [l, r]

end Shape

theorem Shape.eq_var_of_kind {shape : Shape} (h : shape.kind = .var) : shape = .var := by
  cases shape with
  | var => rfl
  | const | unary | binary => cases h

theorem Node.shape?_eq_some_iff (n : Node) (shape : Shape) :
    n.shape? = some shape ↔ n.kind = shape.kind ∧ n.children = shape.children := by
  constructor
  · intro h
    unfold shape? at h
    split at h <;> simp only [Option.some.injEq, reduceCtorEq] at h <;> subst h <;>
      simp_all [Shape.kind, Shape.children]
  · rintro ⟨hk, hc⟩
    unfold shape?
    rw [hk, hc]
    cases shape <;> rfl

namespace Store

/-- `child` is among the children of `parent`, whose kind need not ask for it. -/
def Child (s : Store) (parent child : NodeId) : Prop :=
  ∃ n, s.get? parent = some n ∧ child ∈ n.children

/-- Following children, any number of times, leads from one id to the other. -/
def Reaches (s : Store) : NodeId → NodeId → Prop := Relation.ReflTransGen s.Child

/-- Following children never comes back to the same id. -/
def Acyclic (s : Store) : Prop := ∀ id, ¬ Relation.TransGen s.Child id id

/-- A variable of this name is met when children are followed from an id. -/
def Mentions (s : Store) (root : NodeId) (name : String) : Prop :=
  ∃ id n, s.Reaches root id ∧ s.get? id = some n ∧ n.kind = .var ∧ n.label = name

/-- Every node of the formula enters code in place. -/
def PlainFrom (s : Store) (root : NodeId) : Prop :=
  ∀ id n, s.Reaches root id → s.get? id = some n → n.emission = .inPlace

/-- Every walk down from an id visits at most `depth` ids. -/
def Shallow (s : Store) : Nat → NodeId → Prop
  | 0, _ => False
  | depth + 1, id => ∀ child, s.Child id child → s.Shallow depth child

/-- Every walk down from an id comes to at most `height` nodes that exist. -/
def Low (s : Store) : Nat → NodeId → Prop
  | 0, id => s.get? id = none
  | height + 1, id => ∀ child, s.Child id child → s.Low height child

theorem get?_eq_none_iff (s : Store) (id : NodeId) : s.get? id = none ↔ s.size ≤ id.index := by
  simp [get?, size]

theorem index_lt_of_child {s : Store} {parent child : NodeId} (h : s.Child parent child) :
    parent.index < s.size := by
  obtain ⟨n, hn, _⟩ := h
  by_contra hle
  rw [(s.get?_eq_none_iff parent).mpr (by omega)] at hn
  cases hn

/-- A rank that falls from every node to its children excludes cycles. -/
theorem acyclic_of_rank {s : Store} (rank : NodeId → Nat)
    (h : ∀ i < s.size, ∀ n ∈ s.get? ⟨i⟩, ∀ child ∈ n.children, rank child < rank ⟨i⟩) :
    s.Acyclic := by
  have hlt : ∀ a b, Relation.TransGen s.Child a b → rank b < rank a := by
    have edge : ∀ a b, s.Child a b → rank b < rank a := by
      intro a b hab
      have ha := index_lt_of_child hab
      obtain ⟨n, hn, hb⟩ := hab
      exact h a.index ha n hn b hb
    intro a b hab
    induction hab with
    | single hc => exact edge _ _ hc
    | tail _ hc ih => exact (edge _ _ hc).trans ih
  intro id hid
  exact Nat.lt_irrefl _ (hlt id id hid)

/-- A store with no more edges has no more cycles. -/
theorem Acyclic.mono {s t : Store} (hs : s.Acyclic)
    (h : ∀ parent child, t.Child parent child → s.Child parent child) : t.Acyclic :=
  fun id hid => hs id (Relation.TransGen.mono h id id hid)

/-- The ids above `id` on a walk are allocated and distinct, so that the walk can only come to as
many nodes as are left. -/
theorem Acyclic.low_below {s : Store} (hs : s.Acyclic) (height : Nat) (id : NodeId)
    (above : Finset Nat) (hab : ∀ i ∈ above, Relation.TransGen s.Child ⟨i⟩ id)
    (hsize : s.size ≤ above.card + height) : s.Low height id := by
  have hnot : id.index ∉ above := fun hi => hs id (hab id.index hi)
  induction height generalizing id above with
  | zero =>
      have hsub : above ⊆ Finset.range s.size := by
        intro i hi
        obtain ⟨c, hc, _⟩ := Relation.TransGen.head'_iff.mp (hab i hi)
        exact Finset.mem_range.mpr (index_lt_of_child hc)
      -- No node is left that the walk has not passed, and it has not passed `id`.
      have hall : above = Finset.range s.size :=
        Finset.eq_of_subset_of_card_le hsub (by simpa using hsize)
      rw [hall, Finset.mem_range, Nat.not_lt] at hnot
      exact (s.get?_eq_none_iff id).mpr hnot
  | succ height ih =>
      intro child hc
      have hab' : ∀ i ∈ insert id.index above, Relation.TransGen s.Child ⟨i⟩ child := by
        intro i hi
        rcases Finset.mem_insert.mp hi with rfl | hi
        · exact .single hc
        · exact (hab i hi).tail hc
      refine ih child (insert id.index above) hab' ?_ fun hi => hs child (hab' child.index hi)
      rw [Finset.card_insert_of_notMem hnot]
      omega

/-- No walk in an acyclic store comes to more nodes than there are. -/
theorem Acyclic.low {s : Store} (hs : s.Acyclic) (id : NodeId) : s.Low s.size id :=
  hs.low_below s.size id ∅ (by simp) (by simp)

/-- After the last node that exists, a walk visits at most one dangling id. -/
theorem Low.shallow {s : Store} {height : Nat} {id : NodeId} (h : s.Low height id) :
    s.Shallow (height + 1) id := by
  induction height generalizing id with
  | zero =>
      intro child hc
      obtain ⟨n, hn, -⟩ := hc
      cases h.symm.trans hn
  | succ height ih => exact fun child hc => ih (h child hc)

/-- No walk in an acyclic store uses up the depth that walks are given. -/
theorem Acyclic.shallow {s : Store} (hs : s.Acyclic) (id : NodeId) : s.Shallow s.depth id :=
  (hs.low id).shallow

/-- What holds of a node whenever it holds of its children holds of all nodes. -/
theorem Acyclic.induction {s : Store} (hs : s.Acyclic) {P : NodeId → Prop}
    (step : ∀ id, (∀ child, s.Child id child → P child) → P id) (id : NodeId) : P id := by
  have go : ∀ depth id, s.Shallow depth id → P id := by
    intro depth
    induction depth with
    | zero => exact fun _ h => h.elim
    | succ depth ih => exact fun id h => step id fun child hc => ih child (h child hc)
  exact go s.depth id (hs.shallow id)

/-- A recursion that looks at a node and at what it gives for the children gives the same at all
depths that suffice. -/
theorem eq_of_shallow {s : Store} {β : Type} {F : Nat → NodeId → β}
    (step : ∀ {depth depth' : Nat} {id : NodeId},
      (∀ child, s.Child id child → F depth child = F depth' child) →
        F (depth + 1) id = F (depth' + 1) id)
    {depth depth' : Nat} {id : NodeId} (h : s.Shallow depth id) (h' : s.Shallow depth' id) :
    F depth id = F depth' id := by
  induction depth generalizing depth' id with
  | zero => exact h.elim
  | succ depth ih =>
      cases depth' with
      | zero => exact h'.elim
      | succ depth' => exact step fun child hc => ih (h child hc) (h' child hc)

theorem Reaches.refl (s : Store) (id : NodeId) : s.Reaches id id := Relation.ReflTransGen.refl

theorem Reaches.below {s : Store} {root id other : NodeId} (h : s.Reaches id other)
    (hc : s.Child root id) : s.Reaches root other :=
  Relation.ReflTransGen.head hc h

theorem Mentions.below {s : Store} {id child : NodeId} {name : String}
    (h : s.Mentions child name) (hc : s.Child id child) : s.Mentions id name := by
  obtain ⟨other, n, hr, hn⟩ := h
  exact ⟨other, n, hr.below hc, hn⟩

theorem PlainFrom.below {s : Store} {id child : NodeId} (h : s.PlainFrom id)
    (hc : s.Child id child) : s.PlainFrom child :=
  fun other n hr => h other n (hr.below hc)

theorem plainFrom_of_all {s : Store} (h : ∀ n ∈ s.nodes, n.emission = .inPlace) (root : NodeId) :
    s.PlainFrom root :=
  fun _ n _ hn => h n (Array.mem_of_getElem? hn)

/-- A node that fits its kind has the children that its shape names, and no others. -/
theorem child_iff {s : Store} {id : NodeId} {n : Node} {shape : Shape}
    (h : s.inspect id = .ok (n, shape)) (child : NodeId) :
    s.Child id child ↔ child ∈ shape.children := by
  obtain ⟨hn, hs⟩ := (s.inspect_eq_ok_iff id n shape).mp h
  have hc := ((n.shape?_eq_some_iff shape).mp hs).2
  simp [Child, hn, hc]

theorem kind_of_inspect {s : Store} {id : NodeId} {n : Node} {shape : Shape}
    (h : s.inspect id = .ok (n, shape)) : n.kind = shape.kind :=
  ((n.shape?_eq_some_iff shape).mp ((s.inspect_eq_ok_iff id n shape).mp h).2).1

theorem mentions_of_var {s : Store} {id : NodeId} {n : Node} (h : s.inspect id = .ok (n, .var)) :
    s.Mentions id n.label :=
  ⟨id, n, Reaches.refl s id, ((s.inspect_eq_ok_iff id n .var).mp h).1, kind_of_inspect h, rfl⟩

theorem child_of_unary {s : Store} {id x : NodeId} {n : Node} {op : UnaryOp}
    (h : s.inspect id = .ok (n, .unary op x)) : s.Child id x :=
  (child_iff h x).mpr (by simp [Shape.children])

theorem child_of_binary {s : Store} {id l r : NodeId} {n : Node} {op : BinaryOp}
    (h : s.inspect id = .ok (n, .binary op l r)) : s.Child id l ∧ s.Child id r :=
  ⟨(child_iff h l).mpr (by simp [Shape.children]), (child_iff h r).mpr (by simp [Shape.children])⟩

end Store
end FormulaCompiler
