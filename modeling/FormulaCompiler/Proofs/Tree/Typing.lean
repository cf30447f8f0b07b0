import FormulaCompiler.Fragment.Typing
import FormulaCompiler.Proofs.Operator.Prediction
import FormulaCompiler.Proofs.Tree.Evaluation

/-!
# The equations of typing

`Store.nodeType` types a node as it enters code: under a hoisted emission the constant decides, and
in place its kind and the types of its operands. On an acyclic store the depth of the walk plays no
part, and there is one equation for each shape of a node.
-/

namespace FormulaCompiler

namespace BinaryOp

theorem typeAt_eq_ok_iff (op : BinaryOp) (id : NodeId) (label : String) (l r t : Ty) :
    op.typeAt id label l r = .ok t ↔ op.resultType? l r = some t := by
  unfold typeAt
  split <;> simp_all

theorem typeAt_eq_error {op : BinaryOp} {id : NodeId} {label : String} {l r : Ty} {e : BuildError}
    (h : op.typeAt id label l r = .error e) : op.resultType? l r = none := by
  unfold typeAt at h
  split at h <;> simp_all

end BinaryOp

namespace UnaryOp

theorem typeAt_eq_ok_iff (op : UnaryOp) (id : NodeId) (label : String) (x t : Ty) :
    op.typeAt id label x = .ok t ↔ op.resultType? x = some t := by
  unfold typeAt
  split <;> simp_all

theorem typeAt_eq_error {op : UnaryOp} {id : NodeId} {label : String} {x : Ty} {e : BuildError}
    (h : op.typeAt id label x = .error e) : op.resultType? x = none := by
  unfold typeAt at h
  split at h <;> simp_all

end UnaryOp

namespace Store

section Within

variable {s : Store} {id : NodeId} {n : Node}

theorem inspectAt_misfit {stage : Stage} {m : Misfit} (h : s.inspect id = .error m) :
    s.inspectAt stage id = .error (m.buildError stage id) := by
  simp [inspectAt, h, Except.mapError]

theorem inspectAt_ok {stage : Stage} {found : Node × Shape} (h : s.inspect id = .ok found) :
    s.inspectAt stage id = .ok found := by
  simp [inspectAt, h, Except.mapError]

theorem typeVia_misfit {m : Misfit} (inPlace : NodeId → Except BuildError Ty)
    (h : s.inspect id = .error m) :
    s.typeVia inPlace id = .error (m.buildError .render id) := by
  rw [typeVia, inspectAt_misfit h]
  rfl

theorem typeVia_ok {shape : Shape} (inPlace : NodeId → Except BuildError Ty)
    (h : s.inspect id = .ok (n, shape)) :
    s.typeVia inPlace id = typeUnder inPlace id n.emission := by
  rw [typeVia, inspectAt_ok h]
  rfl

theorem typeVia_congr {f g : NodeId → Except BuildError Ty} (h : f id = g id) :
    s.typeVia f id = s.typeVia g id := by
  simp only [typeVia, typeUnder, h]

theorem inPlaceTypeWithin_misfit (ctx : Context) (depth : Nat) {m : Misfit}
    (h : s.inspect id = .error m) :
    s.inPlaceTypeWithin ctx (depth + 1) id = .error (m.buildError .render id) := by
  rw [inPlaceTypeWithin, inspectAt_misfit h]
  rfl

theorem inPlaceTypeWithin_const (ctx : Context) (depth : Nat) {v : Value}
    (h : s.inspect id = .ok (n, .const v)) :
    s.inPlaceTypeWithin ctx (depth + 1) id = .ok v.ty := by
  rw [inPlaceTypeWithin, inspectAt_ok h]
  rfl

theorem inPlaceTypeWithin_var (ctx : Context) (depth : Nat) (h : s.inspect id = .ok (n, .var)) :
    s.inPlaceTypeWithin ctx (depth + 1) id = .ok (ctx.typeOf n.label) := by
  rw [inPlaceTypeWithin, inspectAt_ok h]
  rfl

theorem inPlaceTypeWithin_unary (ctx : Context) (depth : Nat) {op : UnaryOp} {x : NodeId}
    (h : s.inspect id = .ok (n, .unary op x)) :
    s.inPlaceTypeWithin ctx (depth + 1) id =
      s.typeVia (s.inPlaceTypeWithin ctx depth) x >>= fun t => op.typeAt id n.label t := by
  rw [inPlaceTypeWithin, inspectAt_ok h]
  rfl

theorem inPlaceTypeWithin_binary (ctx : Context) (depth : Nat) {op : BinaryOp} {l r : NodeId}
    (h : s.inspect id = .ok (n, .binary op l r)) :
    s.inPlaceTypeWithin ctx (depth + 1) id =
      s.typeVia (s.inPlaceTypeWithin ctx depth) l >>= fun a =>
        s.typeVia (s.inPlaceTypeWithin ctx depth) r >>= fun b => op.typeAt id n.label a b := by
  rw [inPlaceTypeWithin, inspectAt_ok h]
  rfl

/-- Any depth that suffices gives the same type. -/
theorem inPlaceTypeWithin_eq (ctx : Context) {depth depth' : Nat} (h : s.Shallow depth id)
    (h' : s.Shallow depth' id) :
    s.inPlaceTypeWithin ctx depth id = s.inPlaceTypeWithin ctx depth' id := by
  refine eq_of_shallow (F := s.inPlaceTypeWithin ctx) ?_ h h'
  intro depth depth' id below
  have operand := fun child hc => typeVia_congr (s := s) (below child hc)
  rcases hi : s.inspect id with m | ⟨n, shape⟩
  · rw [inPlaceTypeWithin_misfit ctx depth hi, inPlaceTypeWithin_misfit ctx depth' hi]
  cases shape with
  | const v => rw [inPlaceTypeWithin_const ctx depth hi, inPlaceTypeWithin_const ctx depth' hi]
  | var => rw [inPlaceTypeWithin_var ctx depth hi, inPlaceTypeWithin_var ctx depth' hi]
  | unary op x =>
      rw [inPlaceTypeWithin_unary ctx depth hi, inPlaceTypeWithin_unary ctx depth' hi,
        operand x (child_of_unary hi)]
  | binary op l r =>
      obtain ⟨hl, hr⟩ := child_of_binary hi
      rw [inPlaceTypeWithin_binary ctx depth hi, inPlaceTypeWithin_binary ctx depth' hi,
        operand l hl, operand r hr]

end Within

section Equations

variable {s : Store} {id : NodeId} {n : Node}

theorem nodeType_misfit (ctx : Context) {m : Misfit} (h : s.inspect id = .error m) :
    s.nodeType ctx id = .error (m.buildError .render id) :=
  typeVia_misfit _ h

theorem nodeType_ok (ctx : Context) {shape : Shape} (h : s.inspect id = .ok (n, shape)) :
    s.nodeType ctx id = s.typeAs ctx id n.emission :=
  typeVia_ok _ h

theorem inPlaceType_const (ctx : Context) {v : Value} (h : s.inspect id = .ok (n, .const v)) :
    s.inPlaceType ctx id = .ok v.ty :=
  inPlaceTypeWithin_const ctx s.size h

theorem inPlaceType_var (ctx : Context) (h : s.inspect id = .ok (n, .var)) :
    s.inPlaceType ctx id = .ok (ctx.typeOf n.label) :=
  inPlaceTypeWithin_var ctx s.size h

theorem Acyclic.typeVia_child (hs : s.Acyclic) (ctx : Context) {child : NodeId}
    (hc : s.Child id child) :
    s.typeVia (s.inPlaceTypeWithin ctx s.size) child = s.nodeType ctx child :=
  typeVia_congr (inPlaceTypeWithin_eq ctx (hs.shallow id child hc) (hs.shallow child))

theorem Acyclic.inPlaceType_unary (hs : s.Acyclic) (ctx : Context) {op : UnaryOp} {x : NodeId}
    (h : s.inspect id = .ok (n, .unary op x)) :
    s.inPlaceType ctx id = s.nodeType ctx x >>= fun t => op.typeAt id n.label t := by
  rw [← hs.typeVia_child ctx (child_of_unary h)]
  exact inPlaceTypeWithin_unary ctx s.size h

theorem Acyclic.inPlaceType_binary (hs : s.Acyclic) (ctx : Context) {op : BinaryOp}
    {l r : NodeId} (h : s.inspect id = .ok (n, .binary op l r)) :
    s.inPlaceType ctx id = s.nodeType ctx l >>= fun a => s.nodeType ctx r >>= fun b =>
      op.typeAt id n.label a b := by
  rw [← hs.typeVia_child ctx (child_of_binary h).1, ← hs.typeVia_child ctx (child_of_binary h).2]
  exact inPlaceTypeWithin_binary ctx s.size h

end Equations

end Store
end FormulaCompiler
