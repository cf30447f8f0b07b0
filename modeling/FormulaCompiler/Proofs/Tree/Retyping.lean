import FormulaCompiler.Proofs.Pass.Prepared
import FormulaCompiler.Proofs.Tree.Fitting
import FormulaCompiler.Proofs.Tree.TypedEvaluation

/-!
# Rewriting keeps static types

A node is frozen only when it has the same value under every context. Typing such a node cannot
fail, and gives the type of that value, so that freezing it takes no typing error away and changes
no type above it. Hoisting and caching only change how a node enters code. Failures of typing are
kept with the node they are reported at.
-/

namespace FormulaCompiler

section Results

variable {ε α β : Type} {x : Except ε α} {f : α → Except ε β}

theorem exists_ok_of_bind {b : β} (h : (x >>= f) = .ok b) : ∃ a, x = .ok a ∧ f a = .ok b := by
  cases x with
  | ok a => exact ⟨a, rfl, h⟩
  | error e => cases h

end Results

theorem UnaryOp.typeAt_stage {op : UnaryOp} {id : NodeId} {label : String} {t : Ty}
    {e : BuildError} (h : op.typeAt id label t = .error e) : e.stage? = some .render := by
  unfold typeAt at h
  split at h <;> cases h
  rfl

theorem BinaryOp.typeAt_stage {op : BinaryOp} {id : NodeId} {label : String} {l r : Ty}
    {e : BuildError} (h : op.typeAt id label l r = .error e) : e.stage? = some .render := by
  unfold typeAt at h
  split at h <;> cases h
  rfl

theorem Store.Misfit.stage_buildError (m : Misfit) {stage : Stage} (id : NodeId) :
    (m.buildError stage id).stage? = some stage := by
  cases m <;> rfl

theorem UnaryOp.resultType?_of_apply {op : UnaryOp} {a v : Value} (h : op.apply a = .ok v) :
    op.resultType? a.ty = some v.ty := by
  have hf := op.apply_foretold a
  rw [h] at hf
  cases ht : op.resultType? a.ty with
  | none =>
      rw [ht] at hf
      cases hf
  | some t =>
      rw [ht] at hf
      exact congrArg some (Eq.symm hf)

theorem BinaryOp.resultType?_of_apply {op : BinaryOp} {a b v : Value} (h : op.apply a b = .ok v) :
    op.resultType? a.ty b.ty = some v.ty := by
  have hf := op.apply_foretold a b
  rw [h] at hf
  cases ht : op.resultType? a.ty b.ty with
  | none =>
      rw [ht] at hf
      cases hf
  | some t =>
      rw [ht] at hf
      exact congrArg some (Eq.symm hf)

namespace Store

variable {s t : Store} {id root : NodeId}

/-- The type of a node with a value of its own is the type of that value. -/
theorem Acyclic.nodeType_of_fixed (hs : s.Acyclic) (hp : s.PreparedFrom id) {v : Value}
    (hv : ∀ ctx, s.eval ctx id = .ok v) (ctx : Context) : s.nodeType ctx id = .ok v.ty := by
  induction id using hs.induction generalizing v with
  | step id ih =>
      rcases hi : s.inspect id with m | ⟨n, shape⟩
      · have h := hv ctx
        rw [eval_misfit _ hi] at h
        cases h
      · have he := hp.suits hi
        rw [nodeType_ok ctx hi]
        cases shape with
        | const w =>
            obtain rfl : w = v := Except.ok.inj ((eval_const ctx hi).symm.trans (hv ctx))
            cases hem : n.emission with
            | inPlace => exact inPlaceType_const ctx hi
            | hoisted u ty =>
                rw [hem] at he
                obtain ⟨hk, rfl⟩ := he
                cases hk
                rfl
            | cached inner =>
                rw [hem] at he
                cases he.2
        | var => exact absurd ⟨v, hv⟩ (not_fixed_of_var hi)
        | unary op x =>
            have hem : n.emission = .inPlace := he.inPlace_unary
            have hcx := child_of_unary hi
            obtain ⟨a, ha, happly⟩ := hs.eval_unary_ok hi (hv Bindings.empty.context)
            have hx := ih x hcx (hp.below hcx) (hs.eval_of_unbound ha)
            rw [hem]
            change s.inPlaceType ctx id = _
            rw [hs.inPlaceType_unary ctx hi, hx]
            exact (op.typeAt_eq_ok_iff ..).mpr (UnaryOp.resultType?_of_apply happly)
        | binary op l r =>
            have hem : n.emission = .inPlace := he.inPlace_binary
            obtain ⟨hcl, hcr⟩ := child_of_binary hi
            obtain ⟨a, b, ha, hb, happly⟩ := hs.eval_binary_ok hi (hv Bindings.empty.context)
            have hl := ih l hcl (hp.below hcl) (hs.eval_of_unbound ha)
            have hr := ih r hcr (hp.below hcr) (hs.eval_of_unbound hb)
            rw [hem]
            change s.inPlaceType ctx id = _
            rw [hs.inPlaceType_binary ctx hi, hl, hr]
            exact (op.typeAt_eq_ok_iff ..).mpr (BinaryOp.resultType?_of_apply happly)

/-- Typing goes through the whole formula, so a formula with a type has no misfit. -/
theorem Acyclic.fitsFrom_of_nodeType (hs : s.Acyclic) (hp : s.PreparedFrom id) {ctx : Context}
    {ty : Ty} (h : s.nodeType ctx id = .ok ty) : s.FitsFrom id := by
  induction id using hs.induction generalizing ty with
  | step id ih =>
      rcases hi : s.inspect id with m | ⟨n, shape⟩
      · rw [nodeType_misfit ctx hi] at h
        cases h
      · refine fitsFrom_of_children hi ?_
        have he := hp.suits hi
        rw [nodeType_ok ctx hi] at h
        cases shape with
        | const v => simp [Shape.children]
        | var => simp [Shape.children]
        | unary op x =>
            have hcx := child_of_unary hi
            rw [he.inPlace_unary] at h
            change s.inPlaceType ctx id = _ at h
            rw [hs.inPlaceType_unary ctx hi] at h
            obtain ⟨a, hx, -⟩ := exists_ok_of_bind h
            simpa [Shape.children] using ih x hcx (hp.below hcx) hx
        | binary op l r =>
            obtain ⟨hcl, hcr⟩ := child_of_binary hi
            rw [he.inPlace_binary] at h
            change s.inPlaceType ctx id = _ at h
            rw [hs.inPlaceType_binary ctx hi] at h
            obtain ⟨a, hl, h⟩ := exists_ok_of_bind h
            obtain ⟨b, hr, -⟩ := exists_ok_of_bind h
            simpa [Shape.children] using
              ⟨ih l hcl (hp.below hcl) hl, ih r hcr (hp.below hcr) hr⟩

section Rewriting

variable {caching : Bool}

theorem Rewrite.preparedFrom (h : Rewrite caching s t) (hp : s.PreparedFrom root) :
    t.PreparedFrom root := by
  intro id n hr hn
  have hr' : s.Reaches root id := (Rewrites.one h).reaches hr
  exact h.suits (fun m hm => hp id m hr' hm) n hn

/-- A change keeps the type of every node of a prepared formula, or the error that it has none. -/
theorem Rewrite.nodeType_eq (h : Rewrite caching s t) (hs : s.Acyclic) (hp : s.PreparedFrom id)
    (ctx : Context) : t.nodeType ctx id = s.nodeType ctx id := by
  have ht := h.acyclic hs
  induction id using hs.induction with
  | step id ih =>
      rcases hi : t.inspect id with m | ⟨n, shape⟩
      · rcases h.view_or id with hv | ⟨n, v, hn, -⟩
        · rw [nodeType_misfit ctx hi, nodeType_misfit ctx (view_misfit hv.symm hi)]
        · cases hi.symm.trans hn
      · obtain ⟨hn, hshape⟩ := (t.inspect_eq_ok_iff id n shape).mp hi
        have hkind := kind_of_inspect hi
        rcases h.get?_cases hn with hsn | ⟨v, hk, he⟩ | ⟨e, -, hk, he, hsn⟩
        · have hi' : s.inspect id = .ok (n, shape) :=
            (s.inspect_eq_ok_iff id n shape).mpr ⟨hsn, hshape⟩
          have hin : t.inPlaceType ctx id = s.inPlaceType ctx id := by
            cases shape with
            | const v => rw [inPlaceType_const ctx hi, inPlaceType_const ctx hi']
            | var => rw [inPlaceType_var ctx hi, inPlaceType_var ctx hi']
            | unary op x =>
                have hcx := child_of_unary hi'
                rw [ht.inPlaceType_unary ctx hi, hs.inPlaceType_unary ctx hi',
                  ih x hcx (hp.below hcx)]
            | binary op l r =>
                obtain ⟨hcl, hcr⟩ := child_of_binary hi'
                rw [ht.inPlaceType_binary ctx hi, hs.inPlaceType_binary ctx hi',
                  ih l hcl (hp.below hcl), ih r hcr (hp.below hcr)]
          rw [nodeType_ok ctx hi, nodeType_ok ctx hi']
          simp only [typeAs, typeUnder, hin]
        · -- The node is a constant now, and had its value before.
          obtain rfl : shape = .const v := by
            rw [hkind] at hk
            cases shape <;> cases hk
            rfl
          have hv : ∀ ctx, s.eval ctx id = .ok v := by
            intro ctx
            rw [← h.eval_eq hs ctx id, eval_const ctx hi]
          rw [nodeType_ok ctx hi, he, hs.nodeType_of_fixed hp hv ctx]
          rfl
        · -- The node is a variable, and caching leaves its type alone.
          obtain rfl := Shape.eq_var_of_kind (hkind.symm.trans hk)
          have hi' : s.inspect id = .ok ({ n with emission := e }, .var) :=
            (s.inspect_eq_ok_iff id _ _).mpr ⟨hsn, hshape⟩
          have hin : t.inPlaceType ctx id = s.inPlaceType ctx id := by
            rw [inPlaceType_var ctx hi, inPlaceType_var ctx hi']
          rw [nodeType_ok ctx hi, nodeType_ok ctx hi', he]
          simp only [typeAs, typeUnder, Emission.declared?, hin]

theorem Rewrites.nodeType_eq (h : Rewrites caching s t) (hs : s.Acyclic)
    (hp : s.PreparedFrom id) (ctx : Context) : t.nodeType ctx id = s.nodeType ctx id :=
  (h.keeps (P := fun a => a.Acyclic ∧ a.PreparedFrom id ∧ a.nodeType ctx id = s.nodeType ctx id)
    (fun hab ha => ⟨hab.acyclic ha.1, hab.preparedFrom ha.2.1,
      (hab.nodeType_eq ha.1 ha.2.1 ctx).trans ha.2.2⟩) ⟨hs, hp, rfl⟩).2.2

end Rewriting
end Store
end FormulaCompiler
