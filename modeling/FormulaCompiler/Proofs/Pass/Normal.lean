import FormulaCompiler.Proofs.Pass.ContextFree
import FormulaCompiler.Proofs.Pass.Prepared
import FormulaCompiler.Proofs.Tree.Fitting

/-!
# What passes leave is normal

For each built-in pass there is a form that says, without the pass, that it has nothing left to do:
every node with a value of its own is a constant, a constant root is kept in a field, every variable
is a cached read. A pass that succeeds leaves its form, no later rewriting destroys the form, and a
pass on a formula of its form changes nothing. What a pass leaves when it breaks off is not said
here.
-/

namespace FormulaCompiler

open Store (Rewrites)

namespace Store

/-- Every node of the formula with a value of its own is a constant. -/
def FoldedFrom (s : Store) (root : NodeId) : Prop :=
  ∀ id, s.Reaches root id → s.Fixed id → s.IsConstant id

/-- If the node is a constant, a field holds it. -/
def CollapsedAt (s : Store) (root : NodeId) : Prop :=
  ∀ n v, s.inspect root = .ok (n, .const v) → n.emission = .ofConstant v

/-- Every variable of the formula is a cached read. -/
def ReadsCachedFrom (s : Store) (root : NodeId) : Prop :=
  ∀ id, s.Reaches root id → ∀ n, s.inspect id = .ok (n, .var) → n.emission.isCached = true

variable {s t : Store} {id : NodeId} {caching : Bool}

theorem FoldedFrom.below {child : NodeId} (h : s.FoldedFrom id) (hc : s.Child id child) :
    s.FoldedFrom child :=
  fun other hr => h other (hr.below hc)

theorem ReadsCachedFrom.below {child : NodeId} (h : s.ReadsCachedFrom id)
    (hc : s.Child id child) : s.ReadsCachedFrom child :=
  fun other hr => h other (hr.below hc)

theorem ext_get? (h : ∀ other, t.get? other = s.get? other) : t = s := by
  obtain ⟨nodes⟩ := s
  obtain ⟨nodes'⟩ := t
  congr 1
  exact Array.ext_getElem? fun i => h ⟨i⟩

theorem get?_setEmission_some {n : Node} (hn : s.get? id = some n) (changed : NodeId)
    (e : Emission) :
    ∃ n', (s.setEmission changed e).get? id = some n' ∧ n'.label = n.label ∧ n'.kind = n.kind := by
  rw [get?_setEmission, hn]
  split
  · exact ⟨_, rfl, rfl, rfl⟩
  · exact ⟨n, rfl, rfl, rfl⟩

theorem setEmission_self (s : Store) {n : Node} {e : Emission} (hn : s.get? id = some n)
    (he : n.emission = e) : s.setEmission id e = s := by
  refine ext_get? fun other => ?_
  rw [get?_setEmission]
  split
  · rename_i hid
    subst hid he
    rw [hn]
    rfl
  · rfl

namespace Rewrites

/-- No walk gets longer. -/
theorem shallow (h : Rewrites caching s t) {depth : Nat} (hd : s.Shallow depth id) :
    t.Shallow depth id := by
  induction depth generalizing id with
  | zero => exact hd.elim
  | succ depth ih => exact fun child hc => ih (hd child (h.child hc))

/-- Nothing turns a cached read into another read. -/
theorem readsCachedFrom (h : Rewrites caching s t) (hc : s.ReadsCachedFrom id) :
    t.ReadsCachedFrom id := by
  intro other hr
  refine h.keeps
    (P := fun a => ∀ n, a.inspect other = .ok (n, .var) → n.emission.isCached = true) ?_
    (hc other (h.reaches hr))
  intro a b hab ha n hi
  obtain ⟨hn, hshape⟩ := (b.inspect_eq_ok_iff other n .var).mp hi
  rcases hab.get?_cases hn with hn | ⟨v, hk, -⟩ | ⟨e, -, -, he, -⟩
  · exact ha n ((a.inspect_eq_ok_iff other n .var).mpr ⟨hn, hshape⟩)
  · rw [kind_of_inspect hi] at hk
    cases hk
  · rw [he]
    rfl

theorem collapsedAt (h : Rewrites caching s t) (hc : s.CollapsedAt id) : t.CollapsedAt id := by
  refine h.keeps (P := fun a => a.CollapsedAt id) ?_ hc
  intro a b hab ha n v hi
  obtain ⟨hn, hshape⟩ := (b.inspect_eq_ok_iff id n (.const v)).mp hi
  have hkind : n.kind = .const v := kind_of_inspect hi
  rcases hab.get?_cases hn with hn | ⟨w, hk, he⟩ | ⟨e, -, hk, -, -⟩
  · exact ha n v ((a.inspect_eq_ok_iff id n (.const v)).mpr ⟨hn, hshape⟩)
  · obtain rfl : w = v := by simpa [hk] using hkind
    exact he
  · rw [hkind] at hk
    cases hk

/-- A node keeps its label, and its kind unless it had a value of its own. -/
theorem get?_or (h : Rewrites caching s t) (hs : s.Acyclic) {n : Node} (hn : s.get? id = some n) :
    ∃ n', t.get? id = some n' ∧ n'.label = n.label ∧ (n'.kind = n.kind ∨ s.Fixed id) := by
  refine (h.keeps (P := fun a => a.Acyclic ∧ (a.Fixed id ↔ s.Fixed id) ∧
    ∃ n', a.get? id = some n' ∧ n'.label = n.label ∧ (n'.kind = n.kind ∨ s.Fixed id)) ?_
    ⟨hs, Iff.rfl, n, hn, rfl, .inl rfl⟩).2.2
  rintro a b hab ⟨ha, hfixed, n', hn', hlabel, hkind⟩
  refine ⟨hab.acyclic ha, ((one hab).fixed_iff ha).trans hfixed, ?_⟩
  cases hab with
  | @freeze _ _ changed _ v _ hv =>
      rw [get?_freeze, hn']
      by_cases hid : changed = id
      · rw [if_pos hid]
        exact ⟨_, rfl, hlabel, .inr (hfixed.mp ⟨v, hid ▸ hv⟩)⟩
      · rw [if_neg hid]
        exact ⟨n', rfl, hlabel, hkind⟩
  | @hoist _ _ changed _ v _ _ =>
      obtain ⟨m, hm, hl, hk⟩ := get?_setEmission_some hn' changed (.ofConstant v)
      exact ⟨m, hm, hl.trans hlabel, hk ▸ hkind⟩
  | @cache _ changed o _ _ _ =>
      obtain ⟨m, hm, hl, hk⟩ := get?_setEmission_some hn' changed (.cached o.emission)
      exact ⟨m, hm, hl.trans hlabel, hk ▸ hkind⟩

theorem foldedFrom (h : Rewrites caching s t) (hs : s.Acyclic) (hf : s.FoldedFrom id) :
    t.FoldedFrom id := by
  intro other hr hfixed
  have hc := hf other (h.reaches hr) ((h.fixed_iff hs).mp hfixed)
  exact h.isConstant hc

end Rewrites

end Store

namespace Folding

variable {ctx : Context} {depth : Nat} {id : NodeId} {st t : State}

theorem foldWithin_misfit {m : Store.Misfit} (hi : st.store.inspect id = .error m) :
    foldWithin ctx (depth + 1) id st = .error (m.buildError .optimize id) st := by
  have hinspect : inspect id st = .error (m.buildError .optimize id) st := by
    simp [inspect, Store.inspectAt, hi, Except.mapError]
  rw [foldWithin, bind_of_error hinspect]

theorem inspect_ok {found : Node × Shape} (hi : st.store.inspect id = .ok found) :
    inspect id st = .ok found st := by
  simp [inspect, Store.inspectAt, hi, Except.mapError]

theorem foldWithin_const {n : Node} {v : Value} (hi : st.store.inspect id = .ok (n, .const v)) :
    foldWithin ctx (depth + 1) id st = .ok true st := by
  rw [foldWithin, bind_of_ok (inspect_ok hi)]
  rfl

theorem foldWithin_var {n : Node} (hi : st.store.inspect id = .ok (n, .var)) :
    foldWithin ctx (depth + 1) id st = .ok false st := by
  rw [foldWithin, bind_of_ok (inspect_ok hi)]
  rfl

theorem foldWithin_unary {n : Node} {op : UnaryOp} {x : NodeId}
    (hi : st.store.inspect id = .ok (n, .unary op x)) :
    foldWithin ctx (depth + 1) id st = (foldWithin ctx depth x >>= settle ctx id) st := by
  rw [foldWithin, bind_of_ok (inspect_ok hi)]

theorem foldWithin_binary {n : Node} {op : BinaryOp} {l r : NodeId}
    (hi : st.store.inspect id = .ok (n, .binary op l r)) :
    foldWithin ctx (depth + 1) id st =
      (foldWithin ctx depth l >>= fun a => foldWithin ctx depth r >>= fun b =>
        settle ctx id (a && b)) st := by
  rw [foldWithin, bind_of_ok (inspect_ok hi)]

/-- An operator that has no value, or whose operands are not all constant, is left alone. -/
theorem settle_idle {constant : Bool}
    (h : constant = true → ∀ v, st.store.eval ctx id ≠ .ok v) :
    settle ctx id constant st = .ok false st := by
  cases constant with
  | false => rfl
  | true =>
      cases hv : st.store.eval ctx id with
      | error e => simp [settle, hv]
      | ok v => exact absurd hv (h rfl v)

theorem settle_freezes {v : Value} (h : st.store.eval ctx id = .ok v) :
    settle ctx id true st = .ok true ⟨st.store.freeze id v, st.folded + 1⟩ := by
  simp [settle, h]

theorem settle_ne_error {e : BuildError} (constant : Bool) :
    settle ctx id constant st ≠ .error e t := by
  unfold settle
  repeat' split
  all_goals simp

/-- Folding leaves a folded formula as it is. -/
theorem foldWithin_of_folded (ctx : Context) (st : State) (hs : st.store.Acyclic)
    (hd : st.store.Shallow depth id) (hfit : st.store.FitsFrom id)
    (hf : st.store.FoldedFrom id) :
    ∃ constant, foldWithin ctx depth id st = .ok constant st ∧
      (constant = true → st.store.IsConstant id) := by
  induction depth generalizing id with
  | zero => exact hd.elim
  | succ depth ih =>
      obtain ⟨n, shape, hi⟩ := hfit.inspect
      have operand : ∀ child ∈ shape.children, ∃ constant,
          foldWithin ctx depth child st = .ok constant st ∧
            (constant = true → st.store.IsConstant child) := by
        intro child hchild
        have hc := (Store.child_iff hi child).mpr hchild
        exact ih (hd child hc) (hfit.below hc) (hf.below hc)
      -- An operator is no constant, so a folded one has no value of its own.
      have idle : shape ≠ .var → (∀ v, shape ≠ .const v) →
          (∀ child ∈ shape.children, st.store.IsConstant child) →
          ∀ v, st.store.eval ctx id ≠ .ok v := by
        intro hvar hconst hc v hv
        have hfixed : st.store.Fixed id :=
          ⟨v, fun ctx' => (hs.eval_closed hi hvar hc ctx' ctx).trans hv⟩
        obtain ⟨n', w, hw⟩ := hf id (Store.Reaches.refl _ id) hfixed
        cases hi.symm.trans hw
        exact hconst w rfl
      cases shape with
      | const v => exact ⟨true, foldWithin_const hi, fun _ => ⟨n, v, hi⟩⟩
      | var => exact ⟨false, foldWithin_var hi, by simp⟩
      | unary op x =>
          obtain ⟨a, ha, hac⟩ := operand x (by simp [Shape.children])
          refine ⟨false, ?_, by simp⟩
          rw [foldWithin_unary hi, bind_of_ok ha]
          refine settle_idle fun hconst => idle (by simp) (by simp) ?_
          simpa [Shape.children] using hac hconst
      | binary op l r =>
          obtain ⟨a, ha, hac⟩ := operand l (by simp [Shape.children])
          obtain ⟨b, hb, hbc⟩ := operand r (by simp [Shape.children])
          refine ⟨false, ?_, by simp⟩
          rw [foldWithin_binary hi, bind_of_ok ha, bind_of_ok hb]
          refine settle_idle fun hconst => idle (by simp) (by simp) ?_
          obtain ⟨hl, hr⟩ := Bool.and_eq_true_iff.mp hconst
          simpa [Shape.children] using ⟨hac hl, hbc hr⟩

/-- When the operands are folded, an operator with a value of its own is frozen under it, and any
other operator is left alone. -/
theorem settle_cases {s : Store} {n : Node} {shape : Shape} {constant : Bool} (hs : s.Acyclic)
    (hi : s.inspect id = .ok (n, shape)) (hv : shape ≠ .var) (hst : Rewrites false s st.store)
    (hf : ∀ child ∈ shape.children, st.store.FoldedFrom child)
    (hc : constant = true ↔ ∀ child ∈ shape.children, s.Fixed child) :
    (∃ v, (∀ ctx', s.eval ctx' id = .ok v) ∧
        settle ctx id constant st = .ok true ⟨st.store.freeze id v, st.folded + 1⟩) ∨
      (¬ s.Fixed id ∧ settle ctx id constant st = .ok false st) := by
  by_cases hfixed : s.Fixed id
  · have hconst : constant = true :=
      hc.mpr fun child hchild => hs.fixed_child hfixed ((Store.child_iff hi child).mpr hchild)
    obtain ⟨v, hval⟩ := hfixed
    refine .inl ⟨v, hval, ?_⟩
    rw [hconst, settle_freezes ((hst.eval_eq hs ctx id).trans (hval ctx))]
  · refine .inr ⟨hfixed, settle_idle fun hconst v hval => hfixed ?_⟩
    have hoperands : ∀ child ∈ shape.children, st.store.IsConstant child := by
      intro child hchild
      have hcf := hc.mp hconst child hchild
      exact hf child hchild child (Store.Reaches.refl _ child) ((hst.fixed_iff hs).mpr hcf)
    exact (hst.fixed_iff hs).mp ⟨v, fun ctx' =>
      (eval_eq_of_operands hs hst hi hv hoperands ctx ctx').trans hval⟩

/-- When the operands are folded, settling the operator folds the whole formula. -/
theorem settle_folded {s : Store} {n : Node} {shape : Shape} {constant : Bool} (hs : s.Acyclic)
    (hi : s.inspect id = .ok (n, shape)) (hv : shape ≠ .var) (hst : Rewrites false s st.store)
    (hf : ∀ child ∈ shape.children, st.store.FoldedFrom child)
    (hc : constant = true ↔ ∀ child ∈ shape.children, s.Fixed child) :
    Ends (settle ctx id constant) st
      (fun answer t => t.store.FoldedFrom id ∧ (answer = true ↔ s.Fixed id))
      (fun _ _ => False) := by
  have ht := hst.acyclic hs
  have hbelow : ∀ child, st.store.Child id child → st.store.FoldedFrom child :=
    fun child hchild => hf child ((Store.child_iff hi child).mp (hst.child hchild))
  unfold Ends
  rcases settle_cases hs hi hv hst hf hc with ⟨v, hval, hrun⟩ | ⟨hfixed, hrun⟩
  · have hval' : ∀ ctx', st.store.eval ctx' id = .ok v :=
      fun ctx' => (hst.eval_eq hs ctx' id).trans (hval ctx')
    obtain ⟨m, _, hm⟩ := (ht.fitsFrom_of_fixed ⟨v, hval'⟩).inspect
    have hget := ((st.store.inspect_eq_ok_iff id m _).mp hm).1
    have hfreeze : Rewrites false st.store (st.store.freeze id v) := .one (.freeze hget hval')
    rw [hrun]
    refine ⟨?_, iff_of_true rfl ⟨v, hval⟩⟩
    refine Store.forall_reaches_of_children (fun _ => ?_) fun child hchild => ?_
    · obtain ⟨m', hm'⟩ := Store.inspect_freeze_self hget v
      exact ⟨m', v, hm'⟩
    · exact hfreeze.foldedFrom ht (hbelow child (hfreeze.child hchild))
  · have hfixed' : ¬ st.store.Fixed id := by rwa [hst.fixed_iff hs]
    rw [hrun]
    refine ⟨?_, by simp [hfixed]⟩
    exact Store.forall_reaches_of_children (fun h => absurd h hfixed') hbelow

/-- Folding that succeeds leaves a folded formula, answers whether the node has a value of its own,
and has met no misfit; folding that fails has met one. -/
theorem foldWithin_folds (ctx : Context) (depth : Nat) (id : NodeId) (st : State)
    (hs : st.store.Acyclic) (hd : st.store.Shallow depth id) :
    Ends (foldWithin ctx depth id) st
      (fun answer t => t.store.FoldedFrom id ∧ (answer = true ↔ st.store.Fixed id) ∧
        st.store.FitsFrom id)
      (fun _ _ => ¬ st.store.FitsFrom id) := by
  induction depth generalizing id st with
  | zero => exact hd.elim
  | succ depth ih =>
      rcases hi : st.store.inspect id with m | ⟨n, shape⟩
      · refine Ends.of_eq (foldWithin_misfit hi) (Ends.throw fun hfit => ?_)
        obtain ⟨n, shape, hi'⟩ := hfit.inspect
        cases hi.symm.trans hi'
      · have nothing : shape.children = [] → (st.store.Fixed id → st.store.IsConstant id) →
            st.store.FoldedFrom id ∧ st.store.FitsFrom id := by
          intro hnil hfixed
          refine ⟨Store.forall_reaches_of_children hfixed fun child hc => ?_,
            Store.fitsFrom_of_children hi (by simp [hnil])⟩
          simp [Store.child_iff hi, hnil] at hc
        cases shape with
        | const v =>
            have hc : st.store.IsConstant id := ⟨n, v, hi⟩
            obtain ⟨hfold, hfit⟩ := nothing rfl fun _ => hc
            exact Ends.of_eq (foldWithin_const hi) (Ends.pure ⟨hfold, by simp [hc.fixed], hfit⟩)
        | var =>
            have hf := Store.not_fixed_of_var hi
            obtain ⟨hfold, hfit⟩ := nothing rfl fun h => absurd h hf
            exact Ends.of_eq (foldWithin_var hi) (Ends.pure ⟨hfold, by simp [hf], hfit⟩)
        | unary op x =>
            have hcx := Store.child_of_unary hi
            refine Ends.of_eq (foldWithin_unary hi) ?_
            have hx := (foldWithin_ends ctx depth x st hs).both (ih x st hs (hd x hcx))
            refine (hx.mono (fun _ _ h => h) fun _ _ h hfit => h.2 (hfit.below hcx)).bind ?_
            rintro constant t ⟨⟨hst, -⟩, hfold, hanswer, hfit⟩
            refine (settle_folded hs hi (by simp) hst (by simpa [Shape.children] using hfold)
              (by simpa [Shape.children] using hanswer)).mono ?_ fun _ _ h => h.elim
            rintro answer u ⟨hu, hua⟩
            exact ⟨hu, hua, Store.fitsFrom_of_children hi (by simpa [Shape.children] using hfit)⟩
        | binary op l r =>
            obtain ⟨hcl, hcr⟩ := Store.child_of_binary hi
            refine Ends.of_eq (foldWithin_binary hi) ?_
            have hl := (foldWithin_ends ctx depth l st hs).both (ih l st hs (hd l hcl))
            refine (hl.mono (fun _ _ h => h) fun _ _ h hfit => h.2 (hfit.below hcl)).bind ?_
            rintro lconst t ⟨⟨hst, -⟩, hlfold, hlanswer, hlfit⟩
            have ht := hst.acyclic hs
            have hdr : t.store.Shallow depth r := hst.shallow (hd r hcr)
            have hr := (foldWithin_ends ctx depth r t ht).both (ih r t ht hdr)
            refine (hr.mono (fun _ _ h => h) fun _ _ h hfit =>
              h.2 ((hst.fitsFrom_iff hs).mpr (hfit.below hcr))).bind ?_
            rintro rconst u ⟨⟨htu, -⟩, hrfold, hranswer, hrfit⟩
            rw [hst.fixed_iff hs] at hranswer
            refine (settle_folded hs hi (by simp) (hst.trans htu)
              (by simpa [Shape.children] using ⟨htu.foldedFrom ht hlfold, hrfold⟩)
              (by simp [Shape.children, hlanswer, hranswer])).mono ?_ fun _ _ h => h.elim
            rintro answer w ⟨hw, hwa⟩
            have hrfit' := (hst.fitsFrom_iff hs).mp hrfit
            exact ⟨hw, hwa,
              Store.fitsFrom_of_children hi (by simpa [Shape.children] using ⟨hlfit, hrfit'⟩)⟩

end Folding

namespace Collapse

/-- Collapsing leaves a root as it is that is no constant, or is held by a field. -/
theorem run_of_collapsed {ctx : Context} {root : NodeId} {s : Store} {n : Node}
    (hn : s.get? root = some n) (hv : n.kind.isConst = true → ∃ v, s.eval ctx root = .ok v)
    (hc : s.CollapsedAt root) : ∃ o, run ctx root s = .ok o s := by
  by_cases hk : n.kind.isConst = true
  · obtain ⟨v, hval⟩ := hv hk
    rcases hi : s.inspect root with m | ⟨m, shape⟩
    · rw [Store.eval_misfit ctx hi] at hval
      cases hval
    · obtain rfl : n = m := Option.some.inj (hn.symm.trans ((s.inspect_eq_ok_iff root m _).mp hi).1)
      rw [Store.kind_of_inspect hi] at hk
      cases shape with
      | const w =>
          obtain rfl := value_eq_of_const hn (Store.kind_of_inspect hi) hval
          have hsame := s.setEmission_self hn (hc n w hi)
          exact ⟨⟨root, 1⟩, by simp [run, hn, Store.kind_of_inspect hi, hk, hval, hsame]⟩
      | var | unary op x | binary op l r => cases hk
  · exact ⟨⟨root, 0⟩, by simp [run, hn, hk]⟩

end Collapse

namespace ReadCaching

variable {depth : Nat} {id : NodeId} {s t : Store}

theorem rebindWithin_misfit {m : Store.Misfit} (hi : s.inspect id = .error m) :
    rebindWithin (depth + 1) id s = .error (m.buildError .optimize id) s := by
  have hinspect : inspect id s = .error (m.buildError .optimize id) s := by
    simp [inspect, Store.inspectAt, hi, Except.mapError]
  rw [rebindWithin, bind_of_error hinspect]

theorem inspect_ok {found : Node × Shape} (hi : s.inspect id = .ok found) :
    inspect id s = .ok found s := by
  simp [inspect, Store.inspectAt, hi, Except.mapError]

theorem rebindWithin_const {n : Node} {v : Value} (hi : s.inspect id = .ok (n, .const v)) :
    rebindWithin (depth + 1) id s = .ok 0 s := by
  rw [rebindWithin, bind_of_ok (inspect_ok hi)]
  rfl

theorem rebindWithin_var {n : Node} (hi : s.inspect id = .ok (n, .var)) :
    rebindWithin (depth + 1) id s = rebind id n.emission s := by
  rw [rebindWithin, bind_of_ok (inspect_ok hi)]

theorem rebindWithin_unary {n : Node} {op : UnaryOp} {x : NodeId}
    (hi : s.inspect id = .ok (n, .unary op x)) :
    rebindWithin (depth + 1) id s = rebindWithin depth x s := by
  rw [rebindWithin, bind_of_ok (inspect_ok hi)]

theorem rebindWithin_binary {n : Node} {op : BinaryOp} {l r : NodeId}
    (hi : s.inspect id = .ok (n, .binary op l r)) :
    rebindWithin (depth + 1) id s =
      (rebindWithin depth l >>= fun a => rebindWithin depth r >>= fun b => pure (a + b)) s := by
  rw [rebindWithin, bind_of_ok (inspect_ok hi)]

/-- Rebinding leaves cached reads as they are. -/
theorem rebindWithin_of_cached (hd : s.Shallow depth id) (hfit : s.FitsFrom id)
    (hc : s.ReadsCachedFrom id) : rebindWithin depth id s = .ok 0 s := by
  induction depth generalizing id with
  | zero => exact hd.elim
  | succ depth ih =>
      obtain ⟨n, shape, hi⟩ := hfit.inspect
      have operand : ∀ child, s.Child id child → rebindWithin depth child s = .ok 0 s :=
        fun child h => ih (hd child h) (hfit.below h) (hc.below h)
      cases shape with
      | const v => exact rebindWithin_const hi
      | var =>
          rw [rebindWithin_var hi]
          simp [rebind, hc id (Store.Reaches.refl s id) n hi]
      | unary op x =>
          rw [rebindWithin_unary hi]
          exact operand x (Store.child_of_unary hi)
      | binary op l r =>
          obtain ⟨hl, hr⟩ := Store.child_of_binary hi
          rw [rebindWithin_binary hi, bind_of_ok (operand l hl), bind_of_ok (operand r hr)]
          rfl

theorem rebind_caches {n : Node} (hi : s.inspect id = .ok (n, .var)) :
    ∃ count t, rebind id n.emission s = .ok count t ∧ t.ReadsCachedFrom id := by
  have leaf : ∀ t : Store, (∀ child, ¬ t.Child id child) →
      (∀ m, t.inspect id = .ok (m, .var) → m.emission.isCached = true) → t.ReadsCachedFrom id :=
    fun t hnone hself => Store.forall_reaches_of_children hself fun c hc => absurd hc (hnone c)
  have hnone : ∀ child, ¬ s.Child id child := by
    intro child hchild
    simpa [Shape.children] using (Store.child_iff hi child).mp hchild
  unfold rebind
  by_cases he : n.emission.isCached = true
  · refine ⟨0, s, by simp [he], leaf s hnone fun m hm => ?_⟩
    cases hi.symm.trans hm
    exact he
  · refine ⟨1, s.setEmission id (.cached n.emission), by simp [he], leaf _ ?_ ?_⟩
    · exact fun child hchild => hnone child (Store.child_of_setEmission hchild)
    · intro m hm
      have hget := ((Store.inspect_eq_ok_iff ..).mp hm).1
      rw [Store.get?_setEmission, if_pos rfl] at hget
      obtain ⟨_, -, rfl⟩ := Option.map_eq_some_iff.mp hget
      rfl

/-- Rebinding that succeeds leaves cached reads only and has met no misfit; rebinding that fails has
met one. -/
theorem rebindWithin_caches (depth : Nat) (id : NodeId) (s : Store) (hs : s.Acyclic)
    (hd : s.Shallow depth id) :
    Ends (rebindWithin depth id) s (fun _ t => t.ReadsCachedFrom id ∧ s.FitsFrom id)
      (fun _ _ => ¬ s.FitsFrom id) := by
  induction depth generalizing id s with
  | zero => exact hd.elim
  | succ depth ih =>
      rcases hi : s.inspect id with m | ⟨n, shape⟩
      · refine Ends.of_eq (rebindWithin_misfit hi) (Ends.throw fun hfit => ?_)
        obtain ⟨n, shape, hi'⟩ := hfit.inspect
        cases hi.symm.trans hi'
      · -- A node that is no variable has to have cached reads below it only.
        have above : ∀ {t : Store}, Rewrites true s t → shape ≠ .var →
            (∀ child ∈ shape.children, t.ReadsCachedFrom child) → t.ReadsCachedFrom id := by
          intro t hst hvar hc
          refine Store.forall_reaches_of_children (fun m hm => ?_) fun child hchild =>
            hc child ((Store.child_iff hi child).mp (hst.child hchild))
          rcases hst.inspect_or hi with ⟨n', hi'⟩ | ⟨n', v, hi'⟩
          · cases hm.symm.trans hi'
            exact absurd rfl hvar
          · cases hm.symm.trans hi'
        cases shape with
        | const v =>
            have hcached := above (Rewrites.refl s) (by simp) (by simp [Shape.children])
            have hfit := Store.fitsFrom_of_children hi (by simp [Shape.children])
            exact Ends.of_eq (rebindWithin_const hi) (Ends.pure ⟨hcached, hfit⟩)
        | var =>
            obtain ⟨count, t, hrun, hcached⟩ := rebind_caches hi
            have hfit := Store.fitsFrom_of_children hi (by simp [Shape.children])
            unfold Ends
            rw [rebindWithin_var hi, hrun]
            exact ⟨hcached, hfit⟩
        | unary op x =>
            have hcx := Store.child_of_unary hi
            refine Ends.of_eq (rebindWithin_unary hi) ?_
            have hx := (rebindWithin_ends depth x s).both (ih x s hs (hd x hcx))
            refine hx.mono ?_ fun _ _ h hfit => h.2 (hfit.below hcx)
            rintro count t ⟨hst, hcached, hfit⟩
            exact ⟨above hst (by simp) (by simpa [Shape.children] using hcached),
              Store.fitsFrom_of_children hi (by simpa [Shape.children] using hfit)⟩
        | binary op l r =>
            obtain ⟨hcl, hcr⟩ := Store.child_of_binary hi
            refine Ends.of_eq (rebindWithin_binary hi) ?_
            have hl := (rebindWithin_ends depth l s).both (ih l s hs (hd l hcl))
            refine (hl.mono (fun _ _ h => h) fun _ _ h hfit => h.2 (hfit.below hcl)).bind ?_
            rintro lcount t ⟨hst, hlcached, hlfit⟩
            have hr := (rebindWithin_ends depth r t).both
              (ih r t (hst.acyclic hs) (hst.shallow (hd r hcr)))
            refine (hr.mono (fun _ _ h => h) fun _ _ h hfit =>
              h.2 ((hst.fitsFrom_iff hs).mpr (hfit.below hcr))).bind ?_
            rintro rcount u ⟨htu, hrcached, hrfit⟩
            have hrfit' := (hst.fitsFrom_iff hs).mp hrfit
            exact Ends.pure ⟨above (hst.trans htu) (by simp)
                (by simpa [Shape.children] using ⟨htu.readsCachedFrom hlcached, hrcached⟩),
              Store.fitsFrom_of_children hi (by simpa [Shape.children] using ⟨hlfit, hrfit'⟩)⟩

theorem runOn_caches (ctx : Context) (t : Tree) (ht : t.store.Acyclic) :
    Ends (Pass.readCaching.runOn ctx) t (fun _ u => u.store.ReadsCachedFrom t.root)
      (fun _ _ => True) := by
  obtain ⟨s, root⟩ := t
  have hcaches := rebindWithin_caches s.depth root s ht (ht.shallow root)
  unfold Ends
  cases h : rebindWithin s.depth root s with
  | ok count u =>
      simp only [Pass.runOn, Pass.readCaching, run, h]
      exact (hcaches.of_ok h).1
  | error e u => simp only [Pass.runOn, Pass.readCaching, run, h]

end ReadCaching

/-- Default passes with caching among them leave cached reads only, whatever comes after caching. -/
theorem Pipeline.runAll_readsCached {passes : List Pass}
    (hb : ∀ p ∈ passes, p ∈ Pipeline.default.passes) (hc : Pass.readCaching ∈ passes)
    (ctx : Context) (t : Tree) (ht : t.store.Acyclic) :
    Ends (runAll ctx passes) t (fun _ u => u.store.ReadsCachedFrom t.root) (fun _ _ => True) := by
  induction passes generalizing t with
  | nil => cases hc
  | cons p rest ih =>
      have hrest : ∀ q ∈ rest, q ∈ Pipeline.default.passes :=
        fun q hq => hb q (List.mem_cons_of_mem _ hq)
      have hends := Pass.runOn_ends (hb p List.mem_cons_self) ctx t ht
      rcases List.mem_cons.mp hc with rfl | hc
      · refine ((hends.both (ReadCaching.runOn_caches ctx t ht)).mono (fun _ _ h => h)
          fun _ _ _ => trivial).bind ?_
        intro o u hu
        obtain ⟨⟨hrewrites, -⟩, hcached⟩ := hu
        refine (runAll_ends hrest ctx u (hrewrites.acyclic ht)).mono ?_ fun _ _ _ => trivial
        intro _ w hw
        exact hw.1.readsCachedFrom hcached
      · refine (hends.mono (fun _ _ h => h) fun _ _ _ => trivial).bind ?_
        intro o u hu
        obtain ⟨hrewrites, hroot⟩ := hu
        rw [← hroot]
        exact ih hrest hc u (hrewrites.acyclic ht)

end FormulaCompiler
