import FormulaCompiler.Proofs.Pass.Preservation

/-!
# No variable takes part in optimising

Folding and collapsing evaluate nodes against the context while they rewrite the store. They only
ask for the value of a node whose operands are constants by then, so that no lookup of a variable
can reach a result, a count, a failure or the store. Rendering does depend on the context and is not
considered.
-/

namespace FormulaCompiler

namespace Folding

theorem settle_context {ctx ctx' : Context} {id : NodeId} {constant : Bool} {st : State}
    (h : constant = true → st.store.eval ctx' id = st.store.eval ctx id) :
    settle ctx' id constant st = settle ctx id constant st := by
  cases constant with
  | false => rfl
  | true => simp only [settle, h rfl]

/-- Folding under two contexts runs in step. That an operand is called constant only when it is one,
in the store as it is then, is what `foldWithin_ends` carries through the induction. -/
theorem foldWithin_context (ctx ctx' : Context) (depth : Nat) (id : NodeId) (st : State)
    (hs : st.store.Acyclic) : foldWithin ctx' depth id st = foldWithin ctx depth id st := by
  induction depth generalizing id st with
  | zero => rfl
  | succ depth ih =>
      unfold foldWithin
      refine (inspect_ends id st).bind_eq rfl ?_
      rintro ⟨n, shape⟩ _ ⟨rfl, hi⟩
      cases shape with
      | const v => rfl
      | var => rfl
      | unary op x =>
          refine (foldWithin_ends ctx depth x _ hs).bind_eq (ih x _ hs) ?_
          rintro constant t ⟨hst, hx⟩
          refine settle_context fun hconst => ?_
          have hc : ∀ child ∈ (Shape.unary op x).children, t.store.IsConstant child := by
            simpa [Shape.children] using hx hconst
          exact eval_eq_of_operands hs hst hi (by simp) hc ctx ctx'
      | binary op l r =>
          refine (foldWithin_ends ctx depth l _ hs).bind_eq (ih l _ hs) ?_
          rintro lconst t ⟨hst, hl⟩
          have ht := hst.acyclic hs
          refine (foldWithin_ends ctx depth r t ht).bind_eq (ih r t ht) ?_
          rintro rconst u ⟨htu, hr⟩
          refine settle_context fun hconst => ?_
          obtain ⟨hlc, hrc⟩ := Bool.and_eq_true_iff.mp hconst
          -- The left operand is still a constant when the right one has been folded.
          have hlu : u.store.IsConstant l := htu.isConstant (hl hlc)
          have hc : ∀ child ∈ (Shape.binary op l r).children, u.store.IsConstant child := by
            simpa [Shape.children] using ⟨hlu, hr hrc⟩
          exact eval_eq_of_operands hs (hst.trans htu) hi (by simp) hc ctx ctx'

theorem run_context (ctx ctx' : Context) (root : NodeId) (s : Store) (hs : s.Acyclic) :
    run ctx' root s = run ctx root s := by
  simp only [run, foldWithin_context ctx ctx' s.depth root ⟨s, 0⟩ hs]

end Folding

namespace Collapse

/-- A node of constant kind has its value, or the wrong number of children, under every context. -/
theorem eval_of_const {s : Store} {id : NodeId} {n : Node} {v : Value} (hn : s.get? id = some n)
    (hk : n.kind = .const v) (ctx ctx' : Context) : s.eval ctx' id = s.eval ctx id := by
  rcases hi : s.inspect id with m | ⟨n', shape⟩
  · rw [Store.eval_misfit ctx hi, Store.eval_misfit ctx' hi]
  · have hn' := ((s.inspect_eq_ok_iff id n' shape).mp hi).1
    obtain rfl : n = n' := Option.some.inj (hn.symm.trans hn')
    have hks := Store.kind_of_inspect hi
    rw [hk] at hks
    cases shape with
    | const w => rw [Store.eval_const ctx hi, Store.eval_const ctx' hi]
    | var | unary op x | binary op l r => cases hks

theorem run_context (ctx ctx' : Context) (root : NodeId) (s : Store) :
    run ctx' root s = run ctx root s := by
  cases hn : s.get? root with
  | none => simp only [run, hn]
  | some n =>
      cases hk : n.kind with
      | const v => simp only [run, hn, eval_of_const hn hk ctx ctx']
      | var | unary op | binary op => simp [run, hn, hk, Kind.isConst]

end Collapse

namespace Pass

variable {p : Pass} {passes : List Pass} {t : Tree}

theorem builtin_context (hp : p ∈ Pipeline.default.passes) (ctx ctx' : Context) (root : NodeId)
    (s : Store) (hs : s.Acyclic) : p.run ctx' root s = p.run ctx root s := by
  simp only [Pipeline.default, List.mem_cons, List.not_mem_nil, or_false] at hp
  rcases hp with rfl | rfl | rfl
  · exact Folding.run_context ctx ctx' root s hs
  · exact Collapse.run_context ctx ctx' root s
  · rfl

theorem runOn_context (hp : p ∈ Pipeline.default.passes) (ctx ctx' : Context)
    (ht : t.store.Acyclic) : p.runOn ctx' t = p.runOn ctx t := by
  simp only [runOn, builtin_context hp ctx ctx' t.root t.store ht]

/-- What each pass of a sequence answers, the sequence going on after a run that failed. -/
def answersEach : List (Pass × Context) → Tree → List (Except BuildError Outcome)
  | [], _ => []
  | (p, ctx) :: rest, t =>
      match p.runOn ctx t with
      | .ok o u => .ok o :: answersEach rest u
      | .error e u => .error e :: answersEach rest u

theorem eachUnder_context (hb : ∀ p ∈ passes, p ∈ Pipeline.default.passes) (ctx ctx' : Context)
    (ht : t.store.Acyclic) :
    answersEach (passes.map (·, ctx')) t = answersEach (passes.map (·, ctx)) t ∧
      runEach (passes.map (·, ctx')) t = runEach (passes.map (·, ctx)) t := by
  induction passes generalizing t with
  | nil => exact ⟨rfl, rfl⟩
  | cons p rest ih =>
      have hp := hb p List.mem_cons_self
      have hrest : ∀ q ∈ rest, q ∈ Pipeline.default.passes :=
        fun q hq => hb q (List.mem_cons_of_mem _ hq)
      have hends := runOn_ends hp ctx t ht
      simp only [List.map_cons, answersEach, runEach, runOn_context hp ctx ctx' ht]
      cases hr : p.runOn ctx t with
      | ok o u =>
          have hu := (hends.of_ok hr).1.acyclic ht
          exact ⟨congrArg _ (ih hrest hu).1, (ih hrest hu).2⟩
      | error e u =>
          have hu := (hends.of_error hr).1.acyclic ht
          exact ⟨congrArg _ (ih hrest hu).1, (ih hrest hu).2⟩

end Pass

/-- The passes of a pipeline, which stops at the first failure, do not see the context either. -/
theorem Pipeline.runAll_context {passes : List Pass}
    (hb : ∀ p ∈ passes, p ∈ Pipeline.default.passes) (ctx ctx' : Context) {t : Tree}
    (ht : t.store.Acyclic) : runAll ctx' passes t = runAll ctx passes t := by
  induction passes generalizing t with
  | nil => rfl
  | cons p rest ih =>
      have hp := hb p List.mem_cons_self
      refine (Pass.runOn_ends hp ctx t ht).bind_eq (Pass.runOn_context hp ctx ctx' ht) ?_
      intro _ u hu
      exact ih (fun q hq => hb q (List.mem_cons_of_mem _ hq)) (hu.1.acyclic ht)

/-- No variable's value is ever baked into a formula. A sequence of built-in passes run under two
contexts gives the same answer for each pass, root, count or failure, and leaves the same formula,
whether it goes on after a failure or stops there. -/
theorem passes_context_irrelevant (t : Tree) (ht : t.store.Acyclic) (passes : List Pass)
    (hb : ∀ p ∈ passes, p ∈ Pipeline.default.passes) (ctx ctx' : Context) :
    Pass.answersEach (passes.map (·, ctx)) t = Pass.answersEach (passes.map (·, ctx')) t ∧
    Pass.runEach (passes.map (·, ctx)) t = Pass.runEach (passes.map (·, ctx')) t ∧
    Pipeline.runAll ctx passes t = Pipeline.runAll ctx' passes t := by
  obtain ⟨hanswers, hleft⟩ := Pass.eachUnder_context hb ctx' ctx ht
  exact ⟨hanswers, hleft, Pipeline.runAll_context hb ctx' ctx ht⟩

/-- A variable that is unbound on one side, and on the other has a value that folding could use. -/
theorem passes_context_irrelevant_sharedFactor :
    let bound := (Bindings.empty.insert "x" (.int 3)).context
    let unbound := Bindings.empty.context
    let passes := [Pass.folding, .collapse, .readCaching, .folding]
    Pass.answersEach (passes.map (·, unbound)) sharedFactor =
        [.ok ⟨⟨0⟩, 1⟩, .ok ⟨⟨0⟩, 0⟩, .ok ⟨⟨0⟩, 1⟩, .ok ⟨⟨0⟩, 0⟩] ∧
    Pass.answersEach (passes.map (·, bound)) sharedFactor =
        Pass.answersEach (passes.map (·, unbound)) sharedFactor ∧
    Pass.runEach (passes.map (·, bound)) sharedFactor =
      Pass.runEach (passes.map (·, unbound)) sharedFactor := by
  intro bound unbound passes
  have h := passes_context_irrelevant sharedFactor sharedFactor_acyclic passes
    (by simp [passes, Pipeline.default]) bound unbound
  exact ⟨by decide +kernel, h.1, h.2.1⟩

end FormulaCompiler
