import FormulaCompiler.Pass.Pipeline
import FormulaCompiler.Proofs.Ends
import FormulaCompiler.Proofs.Tree.Rewriting

/-!
# Passes rewrite

Every built-in pass, whether it succeeds or breaks off half way, leaves a store that the changes of
`Store.Rewrite` lead to. For folding this rests on what its answer means: a node that it calls
constant is a constant in the store as it is then, and stays one while the other operands are
folded, so that no context takes part in the value that is frozen.
-/

namespace FormulaCompiler

open Store (Rewrites)

/-- A node other than a variable, on constants, has one value or one failure whatever the
context. -/
theorem Store.Acyclic.eval_closed {s : Store} (hs : s.Acyclic) {id : NodeId} {n : Node}
    {shape : Shape} (hi : s.inspect id = .ok (n, shape)) (hv : shape ≠ .var)
    (hc : ∀ child ∈ shape.children, s.IsConstant child) (ctx ctx' : Context) :
    s.eval ctx id = s.eval ctx' id := by
  have operand : ∀ child ∈ shape.children, s.eval ctx child = s.eval ctx' child := by
    intro child hchild
    obtain ⟨m, v, hm⟩ := hc child hchild
    rw [Store.eval_const ctx hm, Store.eval_const ctx' hm]
  cases shape with
  | const v => rw [Store.eval_const ctx hi, Store.eval_const ctx' hi]
  | var => exact absurd rfl hv
  | unary op x =>
      rw [hs.eval_unary ctx hi, hs.eval_unary ctx' hi, operand x (by simp [Shape.children])]
  | binary op l r =>
      rw [hs.eval_binary ctx hi, hs.eval_binary ctx' hi, operand l (by simp [Shape.children]),
        operand r (by simp [Shape.children])]

namespace Folding

/-- How a part of a fold ends: only nodes with a value of their own were frozen, and a node called
constant is one. -/
def Folds (s : Store) (id : NodeId) (constant : Bool) (t : State) : Prop :=
  Rewrites false s t.store ∧ (constant = true → t.store.IsConstant id)

theorem inspect_ends (id : NodeId) (st : State) :
    Ends (inspect id) st
      (fun found t => t = st ∧ st.store.inspect id = .ok found) (fun _ t => t = st) := by
  unfold Ends inspect Store.inspectAt
  cases h : st.store.inspect id <;> simp [Except.mapError]

/-- Freezing keeps the bargain when the value is the same under every context. -/
theorem settle_ends {s : Store} (ctx : Context) (id : NodeId) (constant : Bool) (st : State)
    (hst : Rewrites false s st.store)
    (hc : constant = true → ∀ ctx', st.store.eval ctx' id = st.store.eval ctx id) :
    Ends (settle ctx id constant) st (Folds s id) (fun _ t => Rewrites false s t.store) := by
  unfold Ends settle
  cases constant with
  | false => exact ⟨hst, by simp⟩
  | true =>
      simp only [↓reduceIte]
      cases hv : st.store.eval ctx id with
      | error e => exact ⟨hst, by simp⟩
      | ok v =>
          have hall : ∀ ctx', st.store.eval ctx' id = .ok v := fun ctx' => by rw [hc rfl, hv]
          obtain ⟨n, hn⟩ : ∃ n, st.store.get? id = some n := by
            cases hg : st.store.get? id with
            | some n => exact ⟨n, rfl⟩
            | none =>
                have hi : st.store.inspect id = .error .missing := by simp [Store.inspect, hg]
                rw [Store.eval_misfit ctx hi] at hv
                cases hv
          refine ⟨hst.trans (.one (.freeze hn hall)), fun _ => ?_⟩
          obtain ⟨n', hn'⟩ := Store.inspect_freeze_self hn v
          exact ⟨n', v, hn'⟩

/-- An operator that has kept its shape while its operands became constants, or has become a
constant itself, has a value that no context changes. -/
theorem eval_eq_of_operands {s t : Store} {id : NodeId} {n : Node} {shape : Shape}
    (hs : s.Acyclic) (hst : Rewrites false s t) (hi : s.inspect id = .ok (n, shape))
    (hv : shape ≠ .var) (hc : ∀ child ∈ shape.children, t.IsConstant child)
    (ctx ctx' : Context) : t.eval ctx' id = t.eval ctx id := by
  rcases hst.inspect_or hi with ⟨n', hn'⟩ | ⟨n', v, hn'⟩
  · exact (hst.acyclic hs).eval_closed hn' hv hc ctx' ctx
  · rw [Store.eval_const ctx' hn', Store.eval_const ctx hn']

/-- Folding below a node. The induction is on the depth; the store that the operands leave is the
one that the operator is judged in. -/
theorem foldWithin_ends (ctx : Context) (depth : Nat) (id : NodeId) (st : State)
    (hs : st.store.Acyclic) :
    Ends (foldWithin ctx depth id) st (Folds st.store id)
      (fun _ t => Rewrites false st.store t.store) := by
  induction depth generalizing id st with
  | zero => exact Ends.throw (Rewrites.refl _)
  | succ depth ih =>
      unfold foldWithin
      refine Ends.bind ((inspect_ends id st).mono (fun _ _ h => h) ?_) ?_
      · rintro _ _ rfl
        exact Rewrites.refl _
      rintro ⟨n, shape⟩ _ ⟨rfl, hi⟩
      cases shape with
      | const v => exact Ends.pure ⟨Rewrites.refl _, fun _ => ⟨n, v, hi⟩⟩
      | var => exact Ends.pure ⟨Rewrites.refl _, by simp⟩
      | unary op x =>
          refine Ends.bind (ih x _ hs) ?_
          rintro constant t ⟨hst, hx⟩
          refine settle_ends ctx id constant t hst ?_
          intro hconst
          refine eval_eq_of_operands hs hst hi (by simp) ?_ ctx
          simpa [Shape.children] using hx hconst
      | binary op l r =>
          refine Ends.bind (ih l _ hs) ?_
          rintro lconst t ⟨hst, hl⟩
          have ht := hst.acyclic hs
          refine Ends.bind ((ih r t ht).mono (fun _ _ h => h) fun _ _ h => hst.trans h) ?_
          rintro rconst u ⟨htu, hr⟩
          have hsu := hst.trans htu
          refine settle_ends ctx id (lconst && rconst) u hsu ?_
          intro hconst
          obtain ⟨hlc, hrc⟩ := Bool.and_eq_true_iff.mp hconst
          refine eval_eq_of_operands hs hsu hi (by simp) ?_ ctx
          simpa [Shape.children] using ⟨htu.isConstant (hl hlc), hr hrc⟩

theorem run_ends (ctx : Context) (root : NodeId) (s : Store) (hs : s.Acyclic) :
    Ends (run ctx root) s (fun _ t => Rewrites false s t) (fun _ t => Rewrites false s t) := by
  have h := foldWithin_ends ctx s.depth root ⟨s, 0⟩ hs
  unfold Ends
  cases hf : foldWithin ctx s.depth root ⟨s, 0⟩ with
  | ok constant t =>
      simp only [run, hf]
      exact (h.of_ok hf).1
  | error e t =>
      simp only [run, hf]
      exact h.of_error hf

end Folding

namespace Collapse

/-- A node of constant kind that has a value has the value of its kind. -/
theorem value_eq_of_const {s : Store} {id : NodeId} {n : Node} {v w : Value} {ctx : Context}
    (hn : s.get? id = some n) (hk : n.kind = .const w) (hv : s.eval ctx id = .ok v) : w = v := by
  rcases hi : s.inspect id with m | ⟨n', shape⟩
  · rw [Store.eval_misfit ctx hi] at hv
    cases hv
  · have hn' := ((s.inspect_eq_ok_iff id n' shape).mp hi).1
    obtain rfl : n = n' := Option.some.inj (hn.symm.trans hn')
    have hshape : shape = .const w := by
      have hks := Store.kind_of_inspect hi
      rw [hk] at hks
      cases shape <;> simp_all [Shape.kind]
    subst hshape
    rw [Store.eval_const ctx hi] at hv
    exact Except.ok.inj hv

/-- Only a constant root is touched, and it is hoisted under its own value. -/
theorem run_ends (ctx : Context) (root : NodeId) (s : Store) :
    Ends (run ctx root) s (fun _ t => Rewrites false s t) (fun _ t => Rewrites false s t) := by
  unfold Ends
  cases hn : s.get? root with
  | none =>
      simp only [run, hn]
      exact Rewrites.refl s
  | some n =>
      simp only [run, hn]
      cases hk : n.kind with
      | const w =>
          cases hv : s.eval ctx root with
          | error e => exact Rewrites.refl s
          | ok v =>
              have hw := value_eq_of_const hn hk hv
              exact .one (.hoist hn (hw ▸ hk))
      | var => exact Rewrites.refl s
      | binary op => exact Rewrites.refl s
      | unary op => exact Rewrites.refl s

end Collapse

namespace ReadCaching

theorem inspect_ends (id : NodeId) (s : Store) :
    Ends (inspect id) s
      (fun found t => t = s ∧ s.inspect id = .ok found) (fun _ t => t = s) := by
  unfold Ends inspect Store.inspectAt
  cases h : s.inspect id <;> simp [Except.mapError]

theorem rebind_ends {s : Store} {id : NodeId} {n : Node} (hi : s.inspect id = .ok (n, .var)) :
    Ends (rebind id n.emission) s
      (fun _ t => Rewrites true s t) (fun _ t => Rewrites true s t) := by
  have hn := ((s.inspect_eq_ok_iff id n _).mp hi).1
  unfold Ends rebind
  cases he : n.emission.isCached with
  | true => exact Rewrites.refl s
  | false => exact .one (.cache hn (Store.kind_of_inspect hi) he)

theorem rebindWithin_ends (depth : Nat) (id : NodeId) (s : Store) :
    Ends (rebindWithin depth id) s
      (fun _ t => Rewrites true s t) (fun _ t => Rewrites true s t) := by
  induction depth generalizing id s with
  | zero => exact Ends.throw (Rewrites.refl s)
  | succ depth ih =>
      unfold rebindWithin
      refine Ends.bind ((inspect_ends id s).mono (fun _ _ h => h) ?_) ?_
      · rintro _ _ rfl
        exact Rewrites.refl _
      rintro ⟨n, shape⟩ _ ⟨rfl, hi⟩
      cases shape with
      | const v => exact Ends.pure (Rewrites.refl _)
      | var => exact rebind_ends hi
      | unary op x => exact ih x _
      | binary op l r =>
          refine Ends.bind (ih l _) ?_
          intro lcount t hst
          refine Ends.bind ((ih r t).mono (fun _ _ h => hst.trans h) fun _ _ h => hst.trans h) ?_
          exact fun rcount u hsu => Ends.pure hsu

theorem run_ends (ctx : Context) (root : NodeId) (s : Store) :
    Ends (run ctx root) s (fun _ t => Rewrites true s t) (fun _ t => Rewrites true s t) := by
  have h := rebindWithin_ends s.depth root s
  unfold Ends
  cases hr : rebindWithin s.depth root s with
  | ok count t =>
      simp only [run, hr]
      exact h.of_ok hr
  | error e t =>
      simp only [run, hr]
      exact h.of_error hr

end ReadCaching
end FormulaCompiler
