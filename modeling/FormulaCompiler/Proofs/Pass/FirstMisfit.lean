import FormulaCompiler.Proofs.Pass.Failure
import FormulaCompiler.Proofs.Tree.Preorder

/-!
# Passes report the first misfit

Folding and caching walk a formula in preorder and break off at the first misfit, although each
changes the store on its way. Both therefore report what can be read off the store they start in.
Collapsing only looks at the root, and comes to it when folding has found no misfit, so that the
default pipeline reports what folding does. What a failed pass leaves of the store is not said here.
-/

namespace FormulaCompiler

open Store (Rewrites)

namespace Folding

/-- The induction is on the depth. The right operand is folded in the store that the left one leaves,
where there is the same to report. -/
theorem foldWithin_reports (ctx : Context) (depth : Nat) (id : NodeId) (st : State)
    (hs : st.store.Acyclic) (hd : st.store.Shallow depth id) :
    Ends (foldWithin ctx depth id) st (fun _ _ => st.store.firstReport? id = none)
      (fun e _ => st.store.firstReport? id = some e) := by
  induction depth generalizing id st with
  | zero => exact hd.elim
  | succ depth ih =>
      have settled : ∀ (constant : Bool) (t : State), st.store.firstReport? id = none →
          Ends (settle ctx id constant) t (fun _ _ => st.store.firstReport? id = none)
            (fun e _ => st.store.firstReport? id = some e) := by
        intro constant t hnone
        exact Ends.of_ne_error (fun _ _ => settle_ne_error constant) fun _ _ => hnone
      rcases hi : st.store.inspect id with m | ⟨n, shape⟩
      · exact Ends.of_eq (foldWithin_misfit hi) (Ends.throw (Store.firstReport?_misfit hi))
      · cases shape with
        | const v =>
            exact Ends.of_eq (foldWithin_const hi) (Ends.pure (hs.firstReport?_leaf hi rfl))
        | var =>
            exact Ends.of_eq (foldWithin_var hi) (Ends.pure (hs.firstReport?_leaf hi rfl))
        | unary op x =>
            have hx := ih x st hs (hd x (Store.child_of_unary hi))
            rw [← hs.firstReport?_unary hi] at hx
            refine Ends.of_eq (foldWithin_unary hi) (hx.bind ?_)
            exact settled
        | binary op l r =>
            obtain ⟨hcl, hcr⟩ := Store.child_of_binary hi
            have hl := (foldWithin_ends ctx depth l st hs).both (ih l st hs (hd l hcl))
            refine Ends.of_eq (foldWithin_binary hi)
              ((hl.mono (fun _ _ h => h) fun e _ h => ?_).bind ?_)
            · exact hs.firstReport?_left hi h.2
            · intro lconst t h
              obtain ⟨⟨hst, -⟩, hlnone⟩ := h
              have hr := ih r t (hst.acyclic hs) (hst.shallow (hd r hcr))
              rw [hst.firstReport?_right hs hi hlnone] at hr
              exact hr.bind fun rconst => settled (lconst && rconst)

theorem failure?_run (ctx : Context) (root : NodeId) {s : Store} (hs : s.Acyclic) :
    failure? (run ctx root s) = s.firstReport? root := by
  have h := (foldWithin_reports ctx s.depth root ⟨s, 0⟩ hs (hs.shallow root)).failure?_eq
  rw [← h]
  cases hf : foldWithin ctx s.depth root ⟨s, 0⟩ with
  | ok answer st => simp only [run, hf, failure?]
  | error e st => simp only [run, hf, failure?]

end Folding

namespace ReadCaching

theorem rebindWithin_reports (depth : Nat) (id : NodeId) (s : Store) (hs : s.Acyclic)
    (hd : s.Shallow depth id) :
    Ends (rebindWithin depth id) s (fun _ _ => s.firstReport? id = none)
      (fun e _ => s.firstReport? id = some e) := by
  induction depth generalizing id s with
  | zero => exact hd.elim
  | succ depth ih =>
      rcases hi : s.inspect id with m | ⟨n, shape⟩
      · exact Ends.of_eq (rebindWithin_misfit hi) (Ends.throw (Store.firstReport?_misfit hi))
      · cases shape with
        | const v =>
            exact Ends.of_eq (rebindWithin_const hi) (Ends.pure (hs.firstReport?_leaf hi rfl))
        | var =>
            have hleaf := hs.firstReport?_leaf hi rfl
            exact Ends.of_eq (rebindWithin_var hi)
              (Ends.of_ne_error (fun _ _ => rebind_ne_error) fun _ _ => hleaf)
        | unary op x =>
            have hx := ih x s hs (hd x (Store.child_of_unary hi))
            rw [← hs.firstReport?_unary hi] at hx
            exact Ends.of_eq (rebindWithin_unary hi) hx
        | binary op l r =>
            obtain ⟨hcl, hcr⟩ := Store.child_of_binary hi
            have hl := (rebindWithin_ends depth l s).both (ih l s hs (hd l hcl))
            refine Ends.of_eq (rebindWithin_binary hi)
              ((hl.mono (fun _ _ h => h) fun e _ h => ?_).bind ?_)
            · exact hs.firstReport?_left hi h.2
            · intro lcount t h
              obtain ⟨hst, hlnone⟩ := h
              have hr := ih r t (hst.acyclic hs) (hst.shallow (hd r hcr))
              rw [hst.firstReport?_right hs hi hlnone] at hr
              exact hr.bind fun rcount u hnone => Ends.pure hnone

theorem failure?_run (ctx : Context) (root : NodeId) {s : Store} (hs : s.Acyclic) :
    failure? (run ctx root s) = s.firstReport? root := by
  have h := (rebindWithin_reports s.depth root s hs (hs.shallow root)).failure?_eq
  rw [← h]
  cases hr : rebindWithin s.depth root s with
  | ok count t => simp only [run, hr, failure?]
  | error e t => simp only [run, hr, failure?]

end ReadCaching

/-- The passes after folding have nothing more to report. -/
theorem Pipeline.failure?_run_default (ctx : Context) (root : NodeId) {s : Store}
    (hs : s.Acyclic) :
    failure? (Pipeline.default.run ctx ⟨s, root⟩) = s.firstReport? root := by
  have hfold := Folding.failure?_run ctx root hs
  cases hrun : Folding.run ctx root s with
  | error e t =>
      have hfirst : Pass.folding.runOn ctx ⟨s, root⟩ = .error e ⟨t, root⟩ := by
        simp only [Pass.runOn, Pass.folding, hrun]
      have hall : Pipeline.default.run ctx ⟨s, root⟩ = .error e ⟨t, root⟩ := bind_of_error hfirst
      rw [← hfold, hall, hrun]
      rfl
  | ok o t =>
      have hnone : s.firstReport? root = none := by
        rw [← hfold, hrun]
        rfl
      have hfit : s.FitsFrom root := hs.firstReport?_eq_none_iff.mp hnone
      rw [hnone]
      cases hall : Pipeline.default.run ctx ⟨s, root⟩ with
      | ok _ u => rfl
      | error e u =>
          have hunfit := (runAll_unfit (fun _ hp => (List.mem_filter.mp hp).1) ctx ⟨s, root⟩
            hs).of_error hall
          exact absurd hfit hunfit

/-- Folding, caching and the default pipeline fail on the same formulas, those with a misfit, and
with the same error, the report on the first misfit in preorder. -/
theorem passes_report_first_misfit {s : Store} (hs : s.Acyclic) (root : NodeId) (ctx : Context) :
    let folding := failure? (Pass.folding.run ctx root s)
    let caching := failure? (Pass.readCaching.run ctx root s)
    let pipeline := failure? (Pipeline.default.run ctx ⟨s, root⟩)
    caching = folding ∧ pipeline = folding ∧
    ((∃ e, folding = some e) ↔ ∃ id, s.Reaches root id ∧ s.MisfitAt id) ∧
    ∀ e, folding = some e ↔ ∃ id, s.FirstMisfit root id ∧ e = s.misfitReport id := by
  intro folding caching pipeline
  have hfolding : folding = s.firstReport? root := Folding.failure?_run ctx root hs
  have hcaching : caching = s.firstReport? root := ReadCaching.failure?_run ctx root hs
  have hpipeline : pipeline = s.firstReport? root := Pipeline.failure?_run_default ctx root hs
  rw [hcaching, hpipeline, hfolding]
  refine ⟨rfl, rfl, ?_, fun e => Store.firstReport?_eq_some_iff⟩
  rw [← Option.ne_none_iff_exists', ne_eq, hs.firstReport?_eq_none_iff,
    Store.fitsFrom_iff_no_misfit]
  simp only [not_forall, not_not, exists_prop]

/-- `x * (2 * 2)` and a negation of two operands, of which the first dangles. -/
def doubleNegation : Store :=
  ⟨#[.binary .add ⟨1⟩ ⟨4⟩, .binary .mul ⟨2⟩ ⟨3⟩, .var "x", .binary .mul ⟨5⟩ ⟨5⟩,
    { Node.unary .neg ⟨9⟩ with children := [⟨9⟩, ⟨5⟩] }, .const (.int 2)]⟩

/-- The negation comes first, although folding has frozen a node before it and caching has rebound
another. -/
theorem passes_report_first_misfit_doubleNegation :
    let ctx := Bindings.empty.context
    let e := BuildError.malformed .optimize ⟨4⟩ "-" (.childCount 1 2)
    failure? (Pass.folding.run ctx ⟨0⟩ doubleNegation) = some e ∧
    failure? (Pass.readCaching.run ctx ⟨0⟩ doubleNegation) = some e ∧
    failure? (Pipeline.default.run ctx ⟨doubleNegation, ⟨0⟩⟩) = some e ∧
    ∃ id, doubleNegation.FirstMisfit ⟨0⟩ id ∧ e = doubleNegation.misfitReport id := by
  intro ctx e
  have hacyclic : doubleNegation.Acyclic :=
    Store.acyclic_of_rank (fun id => 9 - id.index) (by decide)
  have hfolding : failure? (Pass.folding.run ctx ⟨0⟩ doubleNegation) = some e := by
    with_unfolding_all rfl
  obtain ⟨hcaching, hpipeline, -, hfirst⟩ := passes_report_first_misfit hacyclic ⟨0⟩ ctx
  exact ⟨hfolding, hcaching.trans hfolding, hpipeline.trans hfolding, (hfirst e).mp hfolding⟩

end FormulaCompiler
