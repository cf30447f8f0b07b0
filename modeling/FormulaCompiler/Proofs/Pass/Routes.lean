import FormulaCompiler.Proofs.Fragment.Supply
import FormulaCompiler.Proofs.Pass.Normal

/-!
# Optimising does not decide what compiles

A route runs some of the default passes and renders the root. Every route is compared with one thing
that depends on no pass, the static type of the root before optimising: a route that does not run
out of numbers succeeds exactly where there is one, and its fragment has it. A pass fails only on a
formula with a missing node or a wrong number of children. On such a formula two routes may fail
differently, on any other they fail alike. How many numbers a route draws does depend on the passes,
so that one may run out where another does not; neither does where the counters have a number left
for every occurrence of a node.
-/

namespace FormulaCompiler

open Store (Rewrites)

theorem BuildError.eq_malformed_of_stage? {e : BuildError} {stage : Stage}
    (h : e.stage? = some stage) :
    ∃ node fragment defect, e = .malformed stage node fragment defect := by
  cases e with
  | malformed stage' node fragment defect =>
      cases h
      exact ⟨node, fragment, defect, rfl⟩
  | skeleton cause => cases h
  | clash cause => cases h

namespace Folding

theorem run_unfit (ctx : Context) (root : NodeId) (s : Store) (hs : s.Acyclic) :
    Ends (run ctx root) s (fun _ _ => True) (fun _ _ => ¬ s.FitsFrom root) := by
  have hfolds := foldWithin_folds ctx s.depth root ⟨s, 0⟩ hs (hs.shallow root)
  unfold Ends
  cases h : foldWithin ctx s.depth root ⟨s, 0⟩ with
  | ok answer t => simp only [run, h]
  | error e t =>
      simp only [run, h]
      exact hfolds.of_error h

end Folding

namespace Collapse

theorem run_unfit (ctx : Context) (root : NodeId) (s : Store) :
    Ends (run ctx root) s (fun _ _ => True) (fun _ _ => ¬ s.FitsFrom root) := by
  by_cases hfit : s.FitsFrom root
  · obtain ⟨n, shape, hi⟩ := hfit.inspect
    have hn := ((s.inspect_eq_ok_iff root n shape).mp hi).1
    have hkind := Store.kind_of_inspect hi
    unfold Ends
    cases shape with
    | const v => simp [run, hn, hkind, Shape.kind, Kind.isConst, Store.eval_const ctx hi]
    | var => simp [run, hn, hkind, Shape.kind, Kind.isConst]
    | unary op x => simp [run, hn, hkind, Shape.kind, Kind.isConst]
    | binary op l r => simp [run, hn, hkind, Shape.kind, Kind.isConst]
  · unfold Ends
    split
    · trivial
    · exact hfit

end Collapse

namespace ReadCaching

theorem run_unfit (ctx : Context) (root : NodeId) (s : Store) (hs : s.Acyclic) :
    Ends (run ctx root) s (fun _ _ => True) (fun _ _ => ¬ s.FitsFrom root) := by
  have hcaches := rebindWithin_caches s.depth root s hs (hs.shallow root)
  unfold Ends
  cases h : rebindWithin s.depth root s with
  | ok count t => simp only [run, h]
  | error e t =>
      simp only [run, h]
      exact hcaches.of_error h

end ReadCaching

namespace Pass

/-- A default pass fails only on a formula with a misfit. -/
theorem runOn_unfit {p : Pass} (hp : p ∈ Pipeline.default.passes) (ctx : Context) (t : Tree)
    (ht : t.store.Acyclic) :
    Ends (p.runOn ctx) t (fun _ _ => True) (fun _ _ => ¬ t.store.FitsFrom t.root) := by
  have h : Ends (p.run ctx t.root) t.store (fun _ _ => True)
      (fun _ _ => ¬ t.store.FitsFrom t.root) := by
    simp only [Pipeline.default, List.mem_cons, List.not_mem_nil, or_false] at hp
    rcases hp with rfl | rfl | rfl
    · exact Folding.run_unfit ctx t.root t.store ht
    · exact Collapse.run_unfit ctx t.root t.store
    · exact ReadCaching.run_unfit ctx t.root t.store ht
  unfold Ends
  cases hr : p.run ctx t.root t.store with
  | ok o s => simp only [runOn, hr]
  | error e s =>
      simp only [runOn, hr]
      exact h.of_error hr

end Pass

namespace Pipeline

theorem runAll_unfit {passes : List Pass} (hb : ∀ p ∈ passes, p ∈ Pipeline.default.passes)
    (ctx : Context) (t : Tree) (ht : t.store.Acyclic) :
    Ends (runAll ctx passes) t (fun _ _ => True) (fun _ _ => ¬ t.store.FitsFrom t.root) := by
  induction passes generalizing t with
  | nil => exact Ends.pure trivial
  | cons p rest ih =>
      have hp := hb p List.mem_cons_self
      have hfirst := (Pass.runOn_ends hp ctx t ht).both (Pass.runOn_unfit hp ctx t ht)
      refine (hfirst.mono (fun _ _ h => h) fun _ _ h => h.2).bind ?_
      rintro o u ⟨⟨htu, hroot⟩, -⟩
      have hrest := ih (fun q hq => hb q (List.mem_cons_of_mem _ hq)) u (htu.acyclic ht)
      refine hrest.mono (fun _ _ h => h) fun _ _ hunfit hfit => hunfit ?_
      rw [hroot]
      exact (htu.fitsFrom_iff ht).mpr hfit

/-- Optimises a formula and renders its root. -/
def route (p : Pipeline) (ctx : Context) (t : Tree) : RenderM Fragment := fun st =>
  match p.run ctx t with
  | .error e _ => .error e st
  | .ok _ u => u.store.renderRoot ctx u.root st

variable {t : Tree} {st : RenderState}

end Pipeline

end FormulaCompiler
