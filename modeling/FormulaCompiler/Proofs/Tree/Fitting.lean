import FormulaCompiler.Proofs.Tree.Rewriting

/-!
# Formulas that fit, and nodes with a value of their own

A formula fits when all its nodes exist and have the number of children that their kind asks for. A
node is fixed when it has one value, whatever variables are bound to. Only fixed nodes are ever
frozen, and a fixed node is the root of a formula that fits, so that rewriting can hide no misfit.
-/

namespace FormulaCompiler.Store

/-- Every node of the formula exists and has the number of children that its kind asks for. -/
def FitsFrom (s : Store) (root : NodeId) : Prop :=
  ∀ id, s.Reaches root id → ∃ found, s.inspect id = .ok found

/-- The node has the same value under every context. -/
def Fixed (s : Store) (id : NodeId) : Prop := ∃ v, ∀ ctx, s.eval ctx id = .ok v

variable {s t : Store} {id : NodeId}

/-- What holds of a node and of all nodes of its operands holds of all nodes of the formula. -/
theorem forall_reaches_of_children {P : NodeId → Prop} (h : P id)
    (hc : ∀ child, s.Child id child → ∀ other, s.Reaches child other → P other) :
    ∀ other, s.Reaches id other → P other := by
  intro other hr
  rcases Relation.ReflTransGen.cases_head hr with rfl | ⟨child, hchild, hrest⟩
  · exact h
  · exact hc child hchild other hrest

theorem FitsFrom.below {child : NodeId} (h : s.FitsFrom id) (hc : s.Child id child) :
    s.FitsFrom child :=
  fun other hr => h other (hr.below hc)

theorem FitsFrom.inspect (h : s.FitsFrom id) : ∃ n shape, s.inspect id = .ok (n, shape) := by
  obtain ⟨⟨n, shape⟩, hi⟩ := h id (Reaches.refl s id)
  exact ⟨n, shape, hi⟩

theorem fitsFrom_of_children {n : Node} {shape : Shape} (hi : s.inspect id = .ok (n, shape))
    (hc : ∀ child ∈ shape.children, s.FitsFrom child) : s.FitsFrom id :=
  forall_reaches_of_children ⟨_, hi⟩ fun child hchild => hc child ((child_iff hi child).mp hchild)

/-- Evaluation comes to every node of a formula before it has a value. -/
theorem Acyclic.fitsFrom_of_eval (hs : s.Acyclic) {ctx : Context} {v : Value}
    (hv : s.eval ctx id = .ok v) : s.FitsFrom id := by
  induction id using hs.induction generalizing v with
  | step id ih =>
      rcases hi : s.inspect id with m | ⟨n, shape⟩
      · rw [eval_misfit ctx hi] at hv
        cases hv
      · refine fitsFrom_of_children hi ?_
        cases shape with
        | const w => simp [Shape.children]
        | var => simp [Shape.children]
        | unary op x =>
            obtain ⟨a, ha, -⟩ := hs.eval_unary_ok hi hv
            have hx := ih x (child_of_unary hi) ha
            simpa [Shape.children] using hx
        | binary op l r =>
            obtain ⟨a, b, ha, hb, -⟩ := hs.eval_binary_ok hi hv
            have hl := ih l (child_of_binary hi).1 ha
            have hr := ih r (child_of_binary hi).2 hb
            simpa [Shape.children] using ⟨hl, hr⟩

theorem Acyclic.fitsFrom_of_fixed (hs : s.Acyclic) (h : s.Fixed id) : s.FitsFrom id := by
  obtain ⟨v, hv⟩ := h
  exact hs.fitsFrom_of_eval (hv Bindings.empty.context)

theorem IsConstant.fixed (h : s.IsConstant id) : s.Fixed id := by
  obtain ⟨n, v, hi⟩ := h
  exact ⟨v, fun ctx => eval_const ctx hi⟩

theorem not_fixed_of_var {n : Node} (hi : s.inspect id = .ok (n, .var)) : ¬ s.Fixed id := by
  rintro ⟨v, hv⟩
  have h := hv Bindings.empty.context
  rw [eval_var _ hi] at h
  cases h

/-- A value depends on the context only through the variables of the formula. -/
theorem Acyclic.eval_of_lookUp (hs : s.Acyclic) {ctx ctx' : Context} {v : Value}
    (hv : s.eval ctx id = .ok v)
    (h : ∀ name w, s.Mentions id name → lookUp ctx name = .ok w → lookUp ctx' name = .ok w) :
    s.eval ctx' id = .ok v := by
  induction id using hs.induction generalizing v with
  | step id ih =>
      have hbelow : ∀ child, s.Child id child → ∀ a, s.eval ctx child = .ok a →
          s.eval ctx' child = .ok a := fun child hc a ha =>
        ih child hc ha fun name w hm => h name w (hm.below hc)
      rcases hi : s.inspect id with m | ⟨n, shape⟩
      · rw [eval_misfit _ hi] at hv
        cases hv
      · cases shape with
        | const w => rwa [eval_const _ hi] at hv ⊢
        | var =>
            rw [eval_var _ hi] at hv ⊢
            exact h n.label v (mentions_of_var hi) hv
        | unary op x =>
            obtain ⟨a, ha, happly⟩ := hs.eval_unary_ok hi hv
            rw [hs.eval_unary ctx' hi, hbelow x (child_of_unary hi) a ha]
            exact congrArg (Except.mapError _) happly
        | binary op l r =>
            obtain ⟨a, b, ha, hb, happly⟩ := hs.eval_binary_ok hi hv
            rw [hs.eval_binary ctx' hi, hbelow l (child_of_binary hi).1 a ha,
              hbelow r (child_of_binary hi).2 b hb]
            exact congrArg (Except.mapError _) happly

/-- What has a value although nothing is bound has the same value under every context. -/
theorem Acyclic.eval_of_unbound (hs : s.Acyclic) {v : Value}
    (hv : s.eval Bindings.empty.context id = .ok v) (ctx : Context) : s.eval ctx id = .ok v := by
  refine hs.eval_of_lookUp hv fun name w _ hw => ?_
  cases hw

/-- A formula without variables has the same value under every context. -/
theorem Acyclic.eval_of_closed (hs : s.Acyclic) (hclosed : ∀ name, ¬ s.Mentions id name)
    {ctx : Context} {v : Value} (hv : s.eval ctx id = .ok v) (ctx' : Context) :
    s.eval ctx' id = .ok v :=
  hs.eval_of_lookUp hv fun name _ hm _ => absurd hm (hclosed name)

theorem Acyclic.fixed_of_unbound (hs : s.Acyclic) {v : Value}
    (hv : s.eval Bindings.empty.context id = .ok v) : s.Fixed id :=
  ⟨v, hs.eval_of_unbound hv⟩

theorem Acyclic.fixed_child (hs : s.Acyclic) (h : s.Fixed id) {child : NodeId}
    (hc : s.Child id child) : s.Fixed child := by
  obtain ⟨n, shape, hi⟩ := (hs.fitsFrom_of_fixed h).inspect
  have hmem := (child_iff hi child).mp hc
  obtain ⟨v, hv⟩ := h
  have hv := hv Bindings.empty.context
  cases shape with
  | const w => simp [Shape.children] at hmem
  | var => simp [Shape.children] at hmem
  | unary op x =>
      obtain ⟨a, ha, -⟩ := hs.eval_unary_ok hi hv
      obtain rfl : child = x := by simpa [Shape.children] using hmem
      exact hs.fixed_of_unbound ha
  | binary op l r =>
      obtain ⟨a, b, ha, hb, -⟩ := hs.eval_binary_ok hi hv
      obtain rfl | rfl : child = l ∨ child = r := by simpa [Shape.children] using hmem
      · exact hs.fixed_of_unbound ha
      · exact hs.fixed_of_unbound hb

theorem Acyclic.fixed_of_reaches (hs : s.Acyclic) (h : s.Fixed id) {other : NodeId}
    (hr : s.Reaches id other) : s.Fixed other := by
  induction hr with
  | refl => exact h
  | tail _ hc ih => exact hs.fixed_child ih hc

/-- A node has a value of its own exactly when it has a value and mentions no variable. -/
theorem Acyclic.fixed_iff_closed (hs : s.Acyclic) (ctx : Context) :
    s.Fixed id ↔ (∀ name, ¬ s.Mentions id name) ∧ ∃ v, s.eval ctx id = .ok v := by
  constructor
  · intro h
    refine ⟨?_, h.imp fun v hv => hv ctx⟩
    intro name hmention
    obtain ⟨other, n, hr, hn, hkind, -⟩ := hmention
    obtain ⟨⟨n', shape⟩, hi⟩ := hs.fitsFrom_of_fixed h other hr
    obtain rfl : n' = n :=
      Option.some.inj (((s.inspect_eq_ok_iff other n' shape).mp hi).1.symm.trans hn)
    have hvar : shape = .var := Shape.eq_var_of_kind ((kind_of_inspect hi).symm.trans hkind)
    exact not_fixed_of_var (hvar ▸ hi) (hs.fixed_of_reaches h hr)
  · intro h
    obtain ⟨hclosed, v, hv⟩ := h
    exact ⟨v, hs.eval_of_closed hclosed hv⟩

section Rewriting

variable {caching : Bool}

theorem Rewrite.fitsFrom_iff (h : Rewrite caching s t) (hs : s.Acyclic) :
    t.FitsFrom id ↔ s.FitsFrom id := by
  constructor
  · intro hf
    induction id using hs.induction with
    | step id ih =>
        rcases h.view_or id with hv | ⟨n, v, -, hc⟩
        · obtain ⟨n, shape, hi⟩ := hf.inspect
          obtain ⟨n', hi', -⟩ := view_ok hv.symm hi
          refine fitsFrom_of_children hi' fun child hchild => ?_
          have hts : t.Child id child := (child_iff hi child).mpr hchild
          exact ih child (h.child hts) (hf.below hts)
        · exact hs.fitsFrom_of_eval (hc Bindings.empty.context)
  · intro hf other hr
    obtain ⟨⟨n, shape⟩, hi⟩ := hf other ((Rewrites.one h).reaches hr)
    rcases (Rewrites.one h).inspect_or hi with ⟨n', hi'⟩ | ⟨n', v, hi'⟩
    · exact ⟨_, hi'⟩
    · exact ⟨_, hi'⟩

namespace Rewrites

theorem fitsFrom_iff (h : Rewrites caching s t) (hs : s.Acyclic) :
    t.FitsFrom id ↔ s.FitsFrom id :=
  (h.keeps (P := fun a => a.Acyclic ∧ (a.FitsFrom id ↔ s.FitsFrom id))
    (fun hab ha => ⟨hab.acyclic ha.1, (hab.fitsFrom_iff ha.1).trans ha.2⟩) ⟨hs, Iff.rfl⟩).2

theorem fixed_iff (h : Rewrites caching s t) (hs : s.Acyclic) : t.Fixed id ↔ s.Fixed id := by
  simp only [Fixed, h.eval_eq hs]

theorem child (h : Rewrites caching s t) {parent child : NodeId} (hc : t.Child parent child) :
    s.Child parent child :=
  h.keeps (P := fun a => a.Child parent child → s.Child parent child)
    (fun hab ha hb => ha (hab.child hb)) (fun hb => hb) hc

theorem size_eq (h : Rewrites caching s t) : t.size = s.size := by
  refine h.keeps (P := fun a => a.size = s.size) ?_ rfl
  intro a b hab ha
  cases hab with
  | freeze _ _ => rwa [size_freeze]
  | hoist _ _ => rwa [size_setEmission]
  | cache _ _ _ => rwa [size_setEmission]

/-- A node without a value of its own always looks the same. -/
theorem view_eq (h : Rewrites caching s t) (hs : s.Acyclic) (hf : ¬ s.Fixed id) :
    t.view id = s.view id := by
  refine (h.keeps (P := fun a => a.Acyclic ∧ ¬ a.Fixed id ∧ a.view id = s.view id) ?_
    ⟨hs, hf, rfl⟩).2.2
  rintro a b hab ⟨ha, hfa, hva⟩
  refine ⟨hab.acyclic ha, ?_, ?_⟩
  · rwa [(Rewrites.one hab).fixed_iff ha]
  · rcases hab.view_or id with hv | ⟨n, v, -, hc⟩
    · exact hv.trans hva
    · exact absurd ⟨v, hc⟩ hfa

/-- A path to a node without a value of its own is still there: no node on it has one. -/
theorem reaches_of_not_fixed (h : Rewrites caching s t) (hs : s.Acyclic) {root : NodeId}
    (hfit : s.FitsFrom root) (hr : s.Reaches root id) (hf : ¬ s.Fixed id) : t.Reaches root id := by
  induction hr with
  | refl => exact Reaches.refl t root
  | @tail parent child hparent hc ih =>
      have hfparent : ¬ s.Fixed parent := fun hfixed => hf (hs.fixed_child hfixed hc)
      obtain ⟨⟨n, shape⟩, hi⟩ := hfit parent hparent
      obtain ⟨n', hi', -⟩ := view_ok (h.view_eq hs hfparent) hi
      exact (ih hfparent).tail ((child_iff hi' child).mpr ((child_iff hi child).mp hc))

end Rewrites

end Rewriting

end FormulaCompiler.Store
