import FormulaCompiler.Proofs.Tree.Typing

/-!
# Typing agrees with evaluation

The typer and the evaluator walk a formula by separate recursions. On a store whose nodes all enter
code in place they agree: what is typed evaluates to a value of its type or fails for its numbers
only, and what cannot be typed cannot be evaluated. Types are taken under one context and values
under another one that gives the variables the same types.
-/

namespace FormulaCompiler

namespace Store

theorem PlainFrom.nodeType_eq {s : Store} {id : NodeId} (hp : s.PlainFrom id) (ctx : Context)
    {n : Node} {shape : Shape} (h : s.inspect id = .ok (n, shape)) :
    s.nodeType ctx id = s.inPlaceType ctx id := by
  have he := hp id n (Reaches.refl s id) ((s.inspect_eq_ok_iff id n shape).mp h).1
  rw [nodeType_ok ctx h, he]
  rfl

end Store

/-- Wherever the first context knows a type for a variable of the formula, the second one binds the
variable to a value of that type. -/
def Context.AgreesAt (ctx ctx' : Context) (s : Store) (root : NodeId) : Prop :=
  ∀ name, s.Mentions root name → ctx.typeOf name ≠ .dynamic → ctx'.typeOf name = ctx.typeOf name

theorem Context.AgreesAt.below {ctx ctx' : Context} {s : Store} {id child : NodeId}
    (h : ctx.AgreesAt ctx' s id) (hc : s.Child id child) : ctx.AgreesAt ctx' s child :=
  fun name hm => h name (hm.below hc)

/-- Every variable of the formula is bound, and to more than `null`. -/
def Context.BindsAll (ctx : Context) (s : Store) (root : NodeId) : Prop :=
  ∀ name, s.Mentions root name → ∃ v, ctx.get? name = some v ∧ v ≠ .null

theorem Context.BindsAll.below {ctx : Context} {s : Store} {id child : NodeId}
    (h : ctx.BindsAll s id) (hc : s.Child id child) : ctx.BindsAll s child :=
  fun name hm => h name (hm.below hc)

theorem Context.typeOf_eq_dynamic_iff (ctx : Context) (name : String) :
    ctx.typeOf name = .dynamic ↔ ctx.get? name = none ∨ ctx.get? name = some .null := by
  unfold Context.typeOf
  split
  · simp_all
  · simp_all
  · rename_i v hnull hv
    simp only [hv, Option.some.injEq, reduceCtorEq, false_or]
    constructor
    · exact fun h => absurd h v.ty_ne_dynamic
    · rintro rfl
      exact (hnull rfl).elim

/-- A variable of a known type is bound to a value of that type. -/
theorem Context.get?_of_typeOf {ctx : Context} {name : String} (h : ctx.typeOf name ≠ .dynamic) :
    ∃ v, ctx.get? name = some v ∧ v.ty = ctx.typeOf name := by
  unfold Context.typeOf at h ⊢
  split at h
  · exact absurd rfl h
  · exact absurd rfl h
  · rename_i v _ hv
    exact ⟨v, hv, rfl⟩

/-- A value of the type, or a failure for which numbers alone are to blame. -/
def Delivers (t : Ty) (r : Except EvalError Value) : Prop :=
  (∃ v, r = .ok v ∧ v.ty = t) ∨ r = .error (.operator .divisionByZero) ∨
    ∃ symbol, r = .error (.operator (.overflow symbol))

namespace BinaryOp

/-- No operator takes an operand whose type is only known at run time, and none gives one. -/
theorem resultType?_dynamic (op : BinaryOp) (l r t : Ty) (h : op.resultType? l r = some t) :
    l ≠ .dynamic ∧ r ≠ .dynamic ∧ t ≠ .dynamic := by
  cases op <;> cases l <;> cases r <;>
    simp_all [resultType?, sumType?, comparable, Ty.promote?] <;> simp [← h]

theorem delivers_apply {op : BinaryOp} {l r : Value} {t : Ty}
    (h : op.resultType? l.ty r.ty = some t) : Delivers t ((op.apply l r).mapError .operator) := by
  have hf := op.apply_foretold l r
  rw [h] at hf
  cases hr : op.apply l r with
  | ok v =>
      rw [hr] at hf
      exact .inl ⟨v, rfl, hf⟩
  | error e =>
      rw [hr] at hf
      cases e with
      | typeMismatch symbol operands => exact hf.elim
      | divisionByZero => exact .inr (.inl rfl)
      | overflow symbol => exact .inr (.inr ⟨symbol, rfl⟩)

theorem apply_of_untyped {op : BinaryOp} {l r : Value} (h : op.resultType? l.ty r.ty = none) :
    op.apply l r = .error (op.mismatchOf l r) := by
  have hf := op.apply_foretold l r
  rwa [h] at hf

end BinaryOp

namespace UnaryOp

theorem resultType?_dynamic (op : UnaryOp) (x t : Ty) (h : op.resultType? x = some t) :
    x ≠ .dynamic ∧ t ≠ .dynamic := by
  cases op <;> cases x <;> simp_all [resultType?, Ty.isNumeric] <;> simp [← h]

theorem delivers_apply {op : UnaryOp} {v : Value} {t : Ty} (h : op.resultType? v.ty = some t) :
    Delivers t ((op.apply v).mapError .operator) := by
  have hf := op.apply_foretold v
  rw [h] at hf
  cases hr : op.apply v with
  | ok w =>
      rw [hr] at hf
      exact .inl ⟨w, rfl, hf⟩
  | error e =>
      rw [hr] at hf
      obtain ⟨rfl, _⟩ := hf
      exact .inr (.inr ⟨op.symbol, rfl⟩)

theorem apply_of_untyped {op : UnaryOp} {v : Value} (h : op.resultType? v.ty = none) :
    op.apply v = .error (.typeMismatch op.symbol [v.ty]) := by
  have hf := op.apply_foretold v
  rwa [h] at hf

end UnaryOp

/-- What comes after a value or a failure for its numbers only sees values of the type. -/
theorem Delivers.bind {t u : Ty} {r : Except EvalError Value} {f : Value → Except EvalError Value}
    (h : Delivers t r) (hf : ∀ v, v.ty = t → Delivers u (f v)) : Delivers u (r >>= f) := by
  rcases h with ⟨v, rfl, hv⟩ | rfl | ⟨symbol, rfl⟩
  · exact hf v hv
  · exact .inr (.inl rfl)
  · exact .inr (.inr ⟨symbol, rfl⟩)

theorem Delivers.bind_fails {t : Ty} {r : Except EvalError Value}
    {f : Value → Except EvalError Value} (h : Delivers t r)
    (hf : ∀ v, v.ty = t → ∃ e, f v = .error e) : ∃ e, (r >>= f) = .error e := by
  rcases h with ⟨v, rfl, hv⟩ | rfl | ⟨symbol, rfl⟩
  · exact hf v hv
  · exact ⟨_, rfl⟩
  · exact ⟨_, rfl⟩

namespace Store

variable {s : Store}

/-- Only a variable without a value has a type that is known at run time only. -/
theorem Acyclic.nodeType_eq_dynamic_iff (hs : s.Acyclic) {id : NodeId}
    (hp : s.PlainFrom id) (ctx : Context) :
    s.nodeType ctx id = .ok .dynamic ↔
      ∃ n, s.inspect id = .ok (n, .var) ∧ ctx.typeOf n.label = .dynamic := by
  rcases hi : s.inspect id with m | ⟨n, shape⟩
  · simp [nodeType_misfit ctx hi]
  · rw [hp.nodeType_eq ctx hi]
    cases shape with
    | const v => simp [inPlaceType_const ctx hi, v.ty_ne_dynamic]
    | var => simp [inPlaceType_var ctx hi]
    | unary op x =>
        simp only [Except.ok.injEq, Prod.mk.injEq, reduceCtorEq, and_false, false_and,
          exists_false, iff_false, hs.inPlaceType_unary ctx hi]
        cases s.nodeType ctx x with
        | error e => exact nofun
        | ok a =>
            intro h
            exact (op.resultType?_dynamic a _ ((op.typeAt_eq_ok_iff id n.label a _).mp h)).2 rfl
    | binary op l r =>
        simp only [Except.ok.injEq, Prod.mk.injEq, reduceCtorEq, and_false, false_and,
          exists_false, iff_false, hs.inPlaceType_binary ctx hi]
        cases s.nodeType ctx l with
        | error e => exact nofun
        | ok a =>
            cases s.nodeType ctx r with
            | error e => exact nofun
            | ok b =>
                intro h
                exact (op.resultType?_dynamic a b _
                  ((op.typeAt_eq_ok_iff id n.label a b _).mp h)).2.2 rfl

/-- A node of a known type evaluates to a value of that type unless its numbers are in the way. -/
theorem Acyclic.delivers_eval (hs : s.Acyclic) {id : NodeId} (hp : s.PlainFrom id)
    {ctx ctx' : Context} (hctx : ctx.AgreesAt ctx' s id) {t : Ty}
    (ht : s.nodeType ctx id = .ok t) (hd : t ≠ .dynamic) :
    Delivers t (s.eval ctx' id) := by
  induction id using hs.induction generalizing t with
  | step id ih =>
      rcases hi : s.inspect id with m | ⟨n, shape⟩
      · rw [nodeType_misfit ctx hi] at ht
        cases ht
      · rw [hp.nodeType_eq ctx hi] at ht
        cases shape with
        | const v =>
            rw [inPlaceType_const ctx hi] at ht
            cases ht
            exact .inl ⟨v, eval_const ctx' hi, rfl⟩
        | var =>
            rw [inPlaceType_var ctx hi] at ht
            cases ht
            have hty := hctx n.label (mentions_of_var hi) hd
            have hknown : ctx'.typeOf n.label ≠ .dynamic := hty.symm ▸ hd
            obtain ⟨v, hv, htv⟩ := Context.get?_of_typeOf hknown
            exact .inl ⟨v, by rw [eval_var ctx' hi, lookUp, hv], htv.trans hty⟩
        | unary op x =>
            rw [hs.inPlaceType_unary ctx hi] at ht
            have hc := child_of_unary hi
            cases hx : s.nodeType ctx x with
            | error e => rw [hx] at ht; cases ht
            | ok a =>
                rw [hx] at ht
                have hop := (op.typeAt_eq_ok_iff id n.label a t).mp ht
                rw [hs.eval_unary ctx' hi]
                have hd := (op.resultType?_dynamic a t hop).1
                refine (ih x hc (hp.below hc) (hctx.below hc) hx hd).bind ?_
                rintro v rfl
                exact UnaryOp.delivers_apply hop
        | binary op l r =>
            rw [hs.inPlaceType_binary ctx hi] at ht
            obtain ⟨hcl, hcr⟩ := child_of_binary hi
            cases hl : s.nodeType ctx l with
            | error e => rw [hl] at ht; cases ht
            | ok a =>
                cases hr : s.nodeType ctx r with
                | error e => rw [hl, hr] at ht; cases ht
                | ok b =>
                    rw [hl, hr] at ht
                    have hop := (op.typeAt_eq_ok_iff id n.label a b t).mp ht
                    obtain ⟨hda, hdb, _⟩ := op.resultType?_dynamic a b t hop
                    rw [hs.eval_binary ctx' hi]
                    refine (ih l hcl (hp.below hcl) (hctx.below hcl) hl hda).bind ?_
                    rintro v rfl
                    refine (ih r hcr (hp.below hcr) (hctx.below hcr) hr hdb).bind ?_
                    rintro w rfl
                    exact BinaryOp.delivers_apply hop

theorem Acyclic.nodeType_ne_dynamic (hs : s.Acyclic) {id : NodeId} (hp : s.PlainFrom id)
    {ctx : Context} (hb : ctx.BindsAll s id) : s.nodeType ctx id ≠ .ok .dynamic := by
  intro h
  obtain ⟨n, hi, hd⟩ := (hs.nodeType_eq_dynamic_iff hp ctx).mp h
  obtain ⟨v, hv, hnull⟩ := hb n.label (mentions_of_var hi)
  rw [Context.typeOf_eq_dynamic_iff, hv] at hd
  simp_all

theorem Acyclic.delivers_bound (hs : s.Acyclic) {id : NodeId} (hp : s.PlainFrom id)
    {ctx ctx' : Context} (hctx : ctx.AgreesAt ctx' s id) (hb : ctx.BindsAll s id) {t : Ty}
    (ht : s.nodeType ctx id = .ok t) : Delivers t (s.eval ctx' id) := by
  have hd : t ≠ .dynamic := fun h => hs.nodeType_ne_dynamic hp hb (h ▸ ht)
  exact hs.delivers_eval hp hctx ht hd

/-- A node that has no type although its variables are bound has no value either. -/
theorem Acyclic.eval_fails (hs : s.Acyclic) {id : NodeId} (hp : s.PlainFrom id)
    {ctx ctx' : Context} (hctx : ctx.AgreesAt ctx' s id) (hb : ctx.BindsAll s id) {e : BuildError}
    (he : s.nodeType ctx id = .error e) : ∃ e', s.eval ctx' id = .error e' := by
  induction id using hs.induction generalizing e with
  | step id ih =>
      rcases hi : s.inspect id with m | ⟨n, shape⟩
      · exact ⟨_, eval_misfit ctx' hi⟩
      · rw [hp.nodeType_eq ctx hi] at he
        cases shape with
        | const v => rw [inPlaceType_const ctx hi] at he; cases he
        | var => rw [inPlaceType_var ctx hi] at he; cases he
        | unary op x =>
            rw [hs.inPlaceType_unary ctx hi] at he
            rw [hs.eval_unary ctx' hi]
            have hc := child_of_unary hi
            cases hx : s.nodeType ctx x with
            | error e =>
                obtain ⟨e', he'⟩ := ih x hc (hp.below hc) (hctx.below hc) (hb.below hc) hx
                exact ⟨e', by rw [he']; rfl⟩
            | ok a =>
                rw [hx] at he
                have hv := hs.delivers_bound (hp.below hc) (hctx.below hc) (hb.below hc) hx
                refine hv.bind_fails ?_
                rintro v rfl
                exact ⟨_, by rw [UnaryOp.apply_of_untyped (UnaryOp.typeAt_eq_error he)]; rfl⟩
        | binary op l r =>
            rw [hs.inPlaceType_binary ctx hi] at he
            rw [hs.eval_binary ctx' hi]
            obtain ⟨hcl, hcr⟩ := child_of_binary hi
            cases hl : s.nodeType ctx l with
            | error e =>
                obtain ⟨e', he'⟩ := ih l hcl (hp.below hcl) (hctx.below hcl) (hb.below hcl) hl
                exact ⟨e', by rw [he']; rfl⟩
            | ok a =>
                have hv := hs.delivers_bound (hp.below hcl) (hctx.below hcl) (hb.below hcl) hl
                refine hv.bind_fails ?_
                rintro v rfl
                cases hr : s.nodeType ctx r with
                | error e =>
                    obtain ⟨e', he'⟩ := ih r hcr (hp.below hcr) (hctx.below hcr) (hb.below hcr) hr
                    exact ⟨e', by rw [he']; rfl⟩
                | ok b =>
                    rw [hl, hr] at he
                    have hw := hs.delivers_bound (hp.below hcr) (hctx.below hcr) (hb.below hcr) hr
                    refine hw.bind_fails ?_
                    rintro w rfl
                    exact ⟨_, by rw [BinaryOp.apply_of_untyped (BinaryOp.typeAt_eq_error he)]; rfl⟩

end Store

/-- Typing and evaluation agree on whole formulas: a known type is the type of the value unless the
numbers are in the way, an unknown one is that of a variable without a value, and what has no type
although its variables are bound has no value. -/
theorem nodeType_agrees_eval {s : Store} (hs : s.Acyclic) (id : NodeId) (hp : s.PlainFrom id)
    (ctx ctx' : Context) (hctx : ctx.AgreesAt ctx' s id) :
    (∀ t, s.nodeType ctx id = .ok t → t ≠ .dynamic → Delivers t (s.eval ctx' id)) ∧
    (s.nodeType ctx id = .ok .dynamic ↔
      ∃ n, s.get? id = some n ∧ n.kind = .var ∧ n.children = [] ∧
        (ctx.get? n.label = none ∨ ctx.get? n.label = some .null)) ∧
    (ctx.BindsAll s id → ∀ e, s.nodeType ctx id = .error e → ∃ e', s.eval ctx' id = .error e') := by
  refine ⟨fun t ht hd => hs.delivers_eval hp hctx ht hd, ?_, fun hb e he =>
    hs.eval_fails hp hctx hb he⟩
  rw [hs.nodeType_eq_dynamic_iff hp]
  refine exists_congr fun n => ?_
  rw [s.inspect_eq_ok_iff, n.shape?_eq_some_iff, ctx.typeOf_eq_dynamic_iff, and_assoc, and_assoc]
  rfl

/-- `n + 1 / n`, whose one variable is shared. -/
def reciprocalSum : Store :=
  ⟨#[.binary .add ⟨1⟩ ⟨2⟩, .var "n", .binary .div ⟨3⟩ ⟨1⟩, .const (.int 1)]⟩

theorem reciprocalSum_acyclic : reciprocalSum.Acyclic :=
  Store.acyclic_of_rank (fun id => [3, 0, 2, 0].getD id.index 0) (by decide)

/-- Contexts that bind the same variable to integers agree everywhere. -/
theorem agreesAt_ints (name : String) (m n : Int64) (s : Store) (root : NodeId) :
    (Bindings.empty.insert name (.int m)).context.AgreesAt
      (Bindings.empty.insert name (.int n)).context s root := by
  intro other _ _
  by_cases h : name = other <;> simp [Context.typeOf, Bindings.context, h, Value.ty]

/-- A number at run time may be another one than when types were taken, here one without an
inverse. -/
theorem nodeType_agrees_eval_reciprocalSum :
    let ctx := (Bindings.empty.insert "n" (.int 2)).context
    let ctx' := (Bindings.empty.insert "n" (.int 0)).context
    reciprocalSum.nodeType ctx ⟨0⟩ = .ok .float ∧
      Delivers .float (reciprocalSum.eval ctx' ⟨0⟩) := by
  intro ctx ctx'
  have ht : reciprocalSum.nodeType ctx ⟨0⟩ = .ok .float := rfl
  exact ⟨ht, (nodeType_agrees_eval reciprocalSum_acyclic ⟨0⟩ (Store.plainFrom_of_all (by decide) _)
    ctx ctx' (agreesAt_ints "n" 2 0 _ _)).1 .float ht (by decide)⟩

end FormulaCompiler
