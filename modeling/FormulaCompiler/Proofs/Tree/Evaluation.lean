import FormulaCompiler.Proofs.Tree.Acyclic

/-!
# The equations of evaluation

`Store.evalWithin` carries a depth. On an acyclic store the depth plays no part, and `Store.eval`
satisfies one equation for each shape of a node. Two acyclic stores evaluate alike when every node
has the same label and shape in both, or has become a constant that holds the value it had.
-/

namespace FormulaCompiler.Store

section Within

variable {s : Store} {id : NodeId} {n : Node}

theorem evalWithin_misfit (ctx : Context) (depth : Nat) {m : Misfit}
    (h : s.inspect id = .error m) :
    s.evalWithin ctx (depth + 1) id = .error (m.evalError id) := by
  rw [evalWithin, h]
  rfl

theorem evalWithin_const (ctx : Context) (depth : Nat) {v : Value}
    (h : s.inspect id = .ok (n, .const v)) : s.evalWithin ctx (depth + 1) id = .ok v := by
  rw [evalWithin, h]
  rfl

/-- The value that a context gives a variable. -/
def lookUp (ctx : Context) (name : String) : Except EvalError Value :=
  match ctx.get? name with
  | some v => .ok v
  | none => .error (.unbound name)

theorem evalWithin_var (ctx : Context) (depth : Nat) (h : s.inspect id = .ok (n, .var)) :
    s.evalWithin ctx (depth + 1) id = lookUp ctx n.label := by
  rw [evalWithin, h]
  rfl

theorem evalWithin_unary (ctx : Context) (depth : Nat) {op : UnaryOp} {x : NodeId}
    (h : s.inspect id = .ok (n, .unary op x)) :
    s.evalWithin ctx (depth + 1) id =
      s.evalWithin ctx depth x >>= fun v => (op.apply v).mapError .operator := by
  rw [evalWithin, h]
  rfl

theorem evalWithin_binary (ctx : Context) (depth : Nat) {op : BinaryOp} {l r : NodeId}
    (h : s.inspect id = .ok (n, .binary op l r)) :
    s.evalWithin ctx (depth + 1) id =
      s.evalWithin ctx depth l >>= fun a => s.evalWithin ctx depth r >>= fun b =>
        (op.apply a b).mapError .operator := by
  rw [evalWithin, h]
  rfl

/-- Any depth that suffices gives the same value. -/
theorem evalWithin_eq (ctx : Context) {depth depth' : Nat} (h : s.Shallow depth id)
    (h' : s.Shallow depth' id) : s.evalWithin ctx depth id = s.evalWithin ctx depth' id := by
  refine eq_of_shallow (F := s.evalWithin ctx) ?_ h h'
  intro depth depth' id below
  rcases hi : s.inspect id with m | ⟨n, shape⟩
  · rw [evalWithin_misfit ctx depth hi, evalWithin_misfit ctx depth' hi]
  cases shape with
  | const v => rw [evalWithin_const ctx depth hi, evalWithin_const ctx depth' hi]
  | var => rw [evalWithin_var ctx depth hi, evalWithin_var ctx depth' hi]
  | unary op x =>
      rw [evalWithin_unary ctx depth hi, evalWithin_unary ctx depth' hi,
        below x (child_of_unary hi)]
  | binary op l r =>
      obtain ⟨hl, hr⟩ := child_of_binary hi
      rw [evalWithin_binary ctx depth hi, evalWithin_binary ctx depth' hi, below l hl, below r hr]

end Within

section Equations

variable {s : Store} {id : NodeId} {n : Node}

theorem eval_misfit (ctx : Context) {m : Misfit} (h : s.inspect id = .error m) :
    s.eval ctx id = .error (m.evalError id) :=
  evalWithin_misfit ctx s.size h

theorem eval_const (ctx : Context) {v : Value} (h : s.inspect id = .ok (n, .const v)) :
    s.eval ctx id = .ok v :=
  evalWithin_const ctx s.size h

theorem eval_var (ctx : Context) (h : s.inspect id = .ok (n, .var)) :
    s.eval ctx id = lookUp ctx n.label :=
  evalWithin_var ctx s.size h

theorem of_mapError_ok {r : Except OperatorError Value} {v : Value}
    (h : r.mapError EvalError.operator = .ok v) : r = .ok v := by
  cases r with
  | error e => cases h
  | ok w => cases h; rfl

/-- One level less is still enough for a child. -/
theorem Acyclic.evalWithin_child (hs : s.Acyclic) (ctx : Context) {child : NodeId}
    (hc : s.Child id child) : s.evalWithin ctx s.size child = s.eval ctx child :=
  evalWithin_eq ctx (hs.shallow id child hc) (hs.shallow child)

theorem Acyclic.eval_unary (hs : s.Acyclic) (ctx : Context) {op : UnaryOp} {x : NodeId}
    (h : s.inspect id = .ok (n, .unary op x)) :
    s.eval ctx id = s.eval ctx x >>= fun v => (op.apply v).mapError .operator := by
  rw [← hs.evalWithin_child ctx (child_of_unary h)]
  exact evalWithin_unary ctx s.size h

theorem Acyclic.eval_binary (hs : s.Acyclic) (ctx : Context) {op : BinaryOp} {l r : NodeId}
    (h : s.inspect id = .ok (n, .binary op l r)) :
    s.eval ctx id = s.eval ctx l >>= fun a => s.eval ctx r >>= fun b =>
      (op.apply a b).mapError .operator := by
  rw [← hs.evalWithin_child ctx (child_of_binary h).1,
    ← hs.evalWithin_child ctx (child_of_binary h).2]
  exact evalWithin_binary ctx s.size h

/-- An operator that has a value applies to values of its operands. -/
theorem Acyclic.eval_unary_ok (hs : s.Acyclic) {ctx : Context} {op : UnaryOp} {x : NodeId}
    {v : Value} (h : s.inspect id = .ok (n, .unary op x)) (hv : s.eval ctx id = .ok v) :
    ∃ a, s.eval ctx x = .ok a ∧ op.apply a = .ok v := by
  rw [hs.eval_unary ctx h] at hv
  cases hx : s.eval ctx x with
  | error e => rw [hx] at hv; cases hv
  | ok a =>
      rw [hx] at hv
      exact ⟨a, rfl, of_mapError_ok hv⟩

theorem Acyclic.eval_binary_ok (hs : s.Acyclic) {ctx : Context} {op : BinaryOp} {l r : NodeId}
    {v : Value} (h : s.inspect id = .ok (n, .binary op l r)) (hv : s.eval ctx id = .ok v) :
    ∃ a b, s.eval ctx l = .ok a ∧ s.eval ctx r = .ok b ∧ op.apply a b = .ok v := by
  rw [hs.eval_binary ctx h] at hv
  cases hl : s.eval ctx l with
  | error e => rw [hl] at hv; cases hv
  | ok a =>
      cases hr : s.eval ctx r with
      | error e => rw [hl, hr] at hv; cases hv
      | ok b =>
          rw [hl, hr] at hv
          exact ⟨a, b, rfl, rfl, of_mapError_ok hv⟩

end Equations

/-- The bound on walks never shows in the value of an acyclic store. -/
theorem Acyclic.eval_ne_cyclic {s : Store} (hs : s.Acyclic) (ctx : Context) (id other : NodeId) :
    s.eval ctx id ≠ .error (.cyclic other) := by
  have operator_ne : ∀ r : Except OperatorError Value,
      r.mapError EvalError.operator ≠ .error (.cyclic other) := by
    intro r
    cases r <;> simp [Except.mapError]
  induction id using hs.induction with
  | step id ih =>
      rcases hi : s.inspect id with m | ⟨n, shape⟩
      · rw [eval_misfit ctx hi]
        cases m <;> simp [Misfit.evalError]
      · cases shape with
        | const v => simp [eval_const ctx hi]
        | var =>
            rw [eval_var ctx hi, lookUp]
            split <;> simp
        | unary op x =>
            rw [hs.eval_unary ctx hi]
            cases hx : s.eval ctx x with
            | error e => exact fun h => ih x (child_of_unary hi) (hx.trans h)
            | ok v => exact operator_ne _
        | binary op l r =>
            obtain ⟨hcl, hcr⟩ := child_of_binary hi
            rw [hs.eval_binary ctx hi]
            cases hl : s.eval ctx l with
            | error e => exact fun h => ih l hcl (hl.trans h)
            | ok a =>
                cases hr : s.eval ctx r with
                | error e => exact fun h => ih r hcr (hr.trans h)
                | ok b => exact operator_ne _

/-- What a walk sees of a node: its label and shape, or what is wrong with it. -/
def view (s : Store) (id : NodeId) : Except Misfit (String × Shape) :=
  (s.inspect id).map fun found => (found.1.label, found.2)

theorem view_eq_of_get? {s t : Store} {id : NodeId} (h : t.get? id = s.get? id) :
    t.view id = s.view id := by
  simp only [view, inspect, h]

theorem view_misfit {s t : Store} {id : NodeId} {m : Misfit} (hv : t.view id = s.view id)
    (h : s.inspect id = .error m) : t.inspect id = .error m := by
  rcases ht : t.inspect id with m' | found <;> simp_all [view, Except.map]

theorem view_ok {s t : Store} {id : NodeId} {n : Node} {shape : Shape}
    (hv : t.view id = s.view id) (h : s.inspect id = .ok (n, shape)) :
    ∃ n', t.inspect id = .ok (n', shape) ∧ n'.label = n.label := by
  rcases ht : t.inspect id with m | ⟨n', shape'⟩ <;> simp_all [view, Except.map]

/-- Nodes that look the same, or are constants with the value they had, evaluate alike. The
induction is on the first store; the second has no edge that the first has not. -/
theorem Acyclic.eval_eq {s t : Store} (hs : s.Acyclic) (ht : t.Acyclic)
    (h : ∀ id, t.view id = s.view id ∨
      ∃ n v, t.inspect id = .ok (n, .const v) ∧ ∀ ctx, s.eval ctx id = .ok v)
    (ctx : Context) (id : NodeId) : t.eval ctx id = s.eval ctx id := by
  induction id using hs.induction with
  | step id ih =>
      rcases h id with hv | ⟨n, v, hn, hc⟩
      · rcases hi : s.inspect id with m | ⟨n, shape⟩
        · rw [eval_misfit ctx hi, eval_misfit ctx (view_misfit hv hi)]
        · obtain ⟨n', hi', hl⟩ := view_ok hv hi
          cases shape with
          | const v => rw [eval_const ctx hi, eval_const ctx hi']
          | var => rw [eval_var ctx hi, eval_var ctx hi', hl]
          | unary op x =>
              rw [hs.eval_unary ctx hi, ht.eval_unary ctx hi', ih x (child_of_unary hi)]
          | binary op l r =>
              obtain ⟨hcl, hcr⟩ := child_of_binary hi
              rw [hs.eval_binary ctx hi, ht.eval_binary ctx hi', ih l hcl, ih r hcr]
      · rw [eval_const ctx hn, hc ctx]

end FormulaCompiler.Store
