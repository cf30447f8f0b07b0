import FormulaCompiler.Proofs.Pass.Routes

/-!
# How passes fail

A default pass that fails says that the formula is malformed and that optimising met it. This holds
of every store, with cycles or without; which defect it is and at which node is not looked at.
-/

namespace FormulaCompiler

namespace Folding

/-- The induction is on the depth: a failure is met at the node itself, in an operand, or is the end
of the depth. Settling an operator never fails. -/
theorem foldWithin_stage {ctx : Context} {depth : Nat} {id : NodeId} {st st' : State}
    {e : BuildError} (h : foldWithin ctx depth id st = .error e st') :
    e.stage? = some .optimize := by
  induction depth generalizing id st with
  | zero =>
      cases h
      rfl
  | succ depth ih =>
      rcases hi : st.store.inspect id with m | ⟨n, shape⟩
      · rw [foldWithin_misfit hi] at h
        cases h
        exact m.stage_buildError id
      · cases shape with
        | const v =>
            rw [foldWithin_const hi] at h
            cases h
        | var =>
            rw [foldWithin_var hi] at h
            cases h
        | unary op x =>
            rw [foldWithin_unary hi] at h
            rcases bind_error_cases h with hx | ⟨a, t, -, hsettle⟩
            · exact ih hx
            · exact absurd hsettle (settle_ne_error a)
        | binary op l r =>
            rw [foldWithin_binary hi] at h
            rcases bind_error_cases h with hl | ⟨a, t, -, h⟩
            · exact ih hl
            · rcases bind_error_cases h with hr | ⟨b, u, -, hsettle⟩
              · exact ih hr
              · exact absurd hsettle (settle_ne_error (a && b))

theorem run_stage {ctx : Context} {root : NodeId} {s t : Store} {e : BuildError}
    (h : run ctx root s = .error e t) : e.stage? = some .optimize := by
  cases hf : foldWithin ctx s.depth root ⟨s, 0⟩ with
  | ok answer st =>
      simp only [run, hf] at h
      cases h
  | error e' st =>
      simp only [run, hf] at h
      cases h
      exact foldWithin_stage hf

end Folding

theorem Collapse.run_stage {ctx : Context} {root : NodeId} {s t : Store} {e : BuildError}
    (h : run ctx root s = .error e t) : e.stage? = some .optimize := by
  unfold run at h
  split at h
  · cases h
    rfl
  · split at h
    · split at h
      · cases h
      · cases h
        rfl
    · cases h

namespace ReadCaching

theorem rebind_ne_error {id : NodeId} {emission : Emission} {s t : Store} {e : BuildError} :
    rebind id emission s ≠ .error e t := by
  unfold rebind
  split <;> simp

theorem rebindWithin_stage {depth : Nat} {id : NodeId} {s t : Store} {e : BuildError}
    (h : rebindWithin depth id s = .error e t) : e.stage? = some .optimize := by
  induction depth generalizing id s with
  | zero =>
      cases h
      rfl
  | succ depth ih =>
      rcases hi : s.inspect id with m | ⟨n, shape⟩
      · rw [rebindWithin_misfit hi] at h
        cases h
        exact m.stage_buildError id
      · cases shape with
        | const v =>
            rw [rebindWithin_const hi] at h
            cases h
        | var =>
            rw [rebindWithin_var hi] at h
            exact absurd h rebind_ne_error
        | unary op x =>
            rw [rebindWithin_unary hi] at h
            exact ih h
        | binary op l r =>
            rw [rebindWithin_binary hi] at h
            rcases bind_error_cases h with hl | ⟨a, u, -, h⟩
            · exact ih hl
            · rcases bind_error_cases h with hr | ⟨b, v, -, hpure⟩
              · exact ih hr
              · cases hpure

theorem run_stage (ctx : Context) {root : NodeId} {s t : Store} {e : BuildError}
    (h : run ctx root s = .error e t) : e.stage? = some .optimize := by
  cases hr : rebindWithin s.depth root s with
  | ok count u =>
      simp only [run, hr] at h
      cases h
  | error e' u =>
      simp only [run, hr] at h
      cases h
      exact rebindWithin_stage hr

end ReadCaching

theorem Pass.runOn_stage {p : Pass} (hp : p ∈ Pipeline.default.passes) {ctx : Context} {t u : Tree}
    {e : BuildError} (h : p.runOn ctx t = .error e u) : e.stage? = some .optimize := by
  cases hr : p.run ctx t.root t.store with
  | ok outcome s =>
      simp only [runOn, hr] at h
      cases h
  | error e' s =>
      simp only [runOn, hr] at h
      cases h
      simp only [Pipeline.default, List.mem_cons, List.not_mem_nil, or_false] at hp
      rcases hp with rfl | rfl | rfl
      · exact Folding.run_stage hr
      · exact Collapse.run_stage hr
      · exact ReadCaching.run_stage ctx hr

/-- The pass that fails is the last one that runs. -/
theorem Pipeline.runAll_stage {passes : List Pass} (hb : ∀ p ∈ passes, p ∈ Pipeline.default.passes)
    {ctx : Context} {t u : Tree} {e : BuildError} (h : runAll ctx passes t = .error e u) :
    e.stage? = some .optimize := by
  induction passes generalizing t with
  | nil => cases h
  | cons p rest ih =>
      rcases bind_error_cases h with hp | ⟨_, v, -, hrest⟩
      · exact Pass.runOn_stage (hb p List.mem_cons_self) hp
      · exact ih (fun q hq => hb q (List.mem_cons_of_mem p hq)) hrest

end FormulaCompiler
