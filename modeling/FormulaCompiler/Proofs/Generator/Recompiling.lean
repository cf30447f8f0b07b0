import FormulaCompiler.Generator
import FormulaCompiler.Proofs.Pass.Repetition

/-!
# Generating a unit again

Generating a unit leaves its formula optimised, or optimised as far as a failing pass came. Neither
shows the next time: a generator that is started from the same counters makes of the formula as left
what it makes of an untouched copy. Counters and cached reads that differ are not compared.
-/

namespace FormulaCompiler

open Store (Rewrites)

namespace Pipeline

variable {passes : List Pass} {t : Tree}

/-- Running passes again, under any context, ends as the first run did and changes nothing. -/
theorem runAll_twice (hb : ∀ p ∈ passes, p ∈ Pipeline.default.passes) (ht : t.store.Acyclic)
    (ctx ctx' : Context) :
    Ends (runAll ctx passes) t (fun _ u => runAll ctx' passes u = .ok ⟨⟩ u)
      (fun e u => runAll ctx' passes u = .error e u) := by
  refine ((runAll_ends hb ctx t ht).both (runAll_again hb ctx t ht)).mono ?_ ?_
  · rintro _ u ⟨⟨htu, hroot⟩, hagain⟩
    rw [runAll_context hb ctx ctx' (htu.acyclic ht)]
    exact hagain u (Rewrites.refl _) hroot
  · rintro e u ⟨⟨htu, hroot⟩, hagain⟩
    rw [runAll_context hb ctx ctx' (htu.acyclic ht)]
    exact hagain u (Rewrites.refl _) hroot

end Pipeline

namespace Generator

variable {g : Generator} {ctx : Context}

/-- Both endings leave the formula as it was. -/
def KeepsTree {α : Type} (m : WorkM α) : Prop :=
  ∀ work, Ends m work (fun _ w => w.tree = work.tree) (fun _ w => w.tree = work.tree)

theorem KeepsTree.bind {α β : Type} {m : WorkM α} {f : α → WorkM β} (hm : KeepsTree m)
    (hf : ∀ a, KeepsTree (f a)) : KeepsTree (m >>= f) := by
  intro work
  refine (hm work).bind fun a w hw => ?_
  exact (hf a w).mono (fun _ _ h => h.trans hw) fun _ _ h => h.trans hw

theorem keepsTree_render (g : Generator) (ctx : Context) : KeepsTree (g.render ctx) := by
  rintro ⟨counters, locals, tree⟩
  unfold Ends
  cases h : tree.store.renderRoot ctx tree.root
      ⟨counters.get g.fieldCounter, ⟨g.settings.fieldStem, #[]⟩, locals⟩ with
  | ok f st => simp only [render, h]
  | error e st => simp only [render, h]

theorem keepsTree_requireText (expression : String) : KeepsTree (requireText expression) := by
  intro work
  unfold Ends
  by_cases h : Text.isBlank expression = true
  · simp only [requireText, h, ↓reduceIte]
  · simp only [requireText, h, Bool.false_eq_true, ↓reduceIte]

theorem keepsTree_drawName (g : Generator) : KeepsTree g.drawName := by
  rintro ⟨counters, locals, tree⟩
  unfold Ends
  cases h : counters.next g.unitCounter with
  | ok n after => simp only [drawName, h]
  | error cause after => simp only [drawName, h]

/-- What comes after optimising. -/
def completion (g : Generator) (ctx : Context) : WorkM EvalUnit := do
  let (f, queue) ← g.render ctx
  requireText f.text
  let name ← g.drawName
  fun work =>
    match g.assemble name f.text queue work.locals with
    | .ok unit => .ok unit work
    | .error e => .error e work

theorem produce_eq (g : Generator) (ctx : Context) :
    g.produce ctx = g.optimize ctx >>= fun _ => g.completion ctx := by
  rw [produce, prepare, bind_assoc]
  rfl

theorem keepsTree_completion (g : Generator) (ctx : Context) : KeepsTree (g.completion ctx) := by
  refine (keepsTree_render g ctx).bind fun ⟨f, queue⟩ => ?_
  refine (keepsTree_requireText f.text).bind fun _ => ?_
  refine (keepsTree_drawName g).bind fun name => ?_
  intro work
  unfold Ends
  cases h : g.assemble name f.text queue work.locals with
  | ok unit => simp only [h]
  | error e => simp only [h]

/-- The formula is left as the pipeline left it. -/
theorem tree_generate (g : Generator) (ctx : Context) (counters : Counters) (t : Tree) :
    Ends (g.pipeline.run ctx) t (fun _ u => (g.generate ctx counters t).tree = u)
      (fun _ u => (g.generate ctx counters t).tree = u) := by
  unfold Ends
  cases h : g.pipeline.run ctx t with
  | ok _ u =>
      have hopt : g.optimize ctx ⟨counters, g.locals, t⟩ = .ok ⟨⟩ ⟨counters, g.locals, u⟩ := by
        simp only [optimize, h]
      have hkeeps := keepsTree_completion g ctx ⟨counters, g.locals, u⟩
      simp only [generate, produce_eq, bind_of_ok hopt]
      cases hc : g.completion ctx ⟨counters, g.locals, u⟩ with
      | ok unit w => exact hkeeps.of_ok hc
      | error e w => exact hkeeps.of_error hc
  | error e u =>
      have hopt : g.optimize ctx ⟨counters, g.locals, t⟩ = .error e ⟨counters, g.locals, u⟩ := by
        simp only [optimize, h]
      simp only [generate, produce_eq, bind_of_error hopt, finish]

/-- Generating depends on the formula through what the pipeline makes of it only. -/
theorem generate_congr {t t' : Tree} (h : g.pipeline.run ctx t = g.pipeline.run ctx t')
    (counters : Counters) : g.generate ctx counters t = g.generate ctx counters t' := by
  have hopt : g.optimize ctx ⟨counters, g.locals, t⟩ = g.optimize ctx ⟨counters, g.locals, t'⟩ := by
    simp only [optimize, h]
  have hproduce :
      g.produce ctx ⟨counters, g.locals, t⟩ = g.produce ctx ⟨counters, g.locals, t'⟩ := by
    simp only [produce_eq, bind, EStateM.bind, hopt]
  simp only [generate, hproduce]

end Generator

/-- Recompiling a formula is as good as compiling it fresh. After a first generation, whether it
made a unit or failed at any stage, a generator with the same passes makes of the formula as left,
under any context and from any counters, exactly what it makes of the formula as it was, and leaves
the same formula. A second run of the passes ends as the first did and changes no node. -/
theorem generate_again (g g' : Generator) (disabled : List String)
    (hg : g.pipeline = { Pipeline.default with disabled }) (hg' : g'.pipeline = g.pipeline)
    (t : Tree) (ht : t.store.Acyclic) (ctx ctx' : Context) (counters counters' : Counters) :
    g'.generate ctx' counters' (g.generate ctx counters t).tree = g'.generate ctx' counters' t ∧
    (∀ u, g.pipeline.run ctx t = .ok ⟨⟩ u → g.pipeline.run ctx' u = .ok ⟨⟩ u) ∧
    ∀ e u, g.pipeline.run ctx t = .error e u → g.pipeline.run ctx' u = .error e u := by
  have hb : ∀ p ∈ g.pipeline.enabled, p ∈ Pipeline.default.passes := by
    rw [hg]
    exact fun p hp => (List.mem_filter.mp hp).1
  have htwice : Ends (g.pipeline.run ctx) t (fun _ u => g.pipeline.run ctx' u = .ok ⟨⟩ u)
      (fun e u => g.pipeline.run ctx' u = .error e u) := Pipeline.runAll_twice hb ht ctx ctx'
  refine ⟨?_, fun u hu => htwice.of_ok hu, fun e u hu => htwice.of_error hu⟩
  have hcontext : g.pipeline.run ctx' t = g.pipeline.run ctx t :=
    Pipeline.runAll_context hb ctx ctx' ht
  have htree := Generator.tree_generate g ctx counters t
  refine Generator.generate_congr ?_ counters'
  rw [hg']
  cases h : g.pipeline.run ctx t with
  | ok _ u => rw [htree.of_ok h, htwice.of_ok h, hcontext, h]
  | error e u => rw [htree.of_error h, htwice.of_error h, hcontext, h]

/-- `2 * 2 + -…`, whose last operand does not exist. -/
def brokenSum : Tree :=
  { store := ⟨#[.binary .add ⟨1⟩ ⟨2⟩, .binary .mul ⟨3⟩ ⟨3⟩, .unary .neg ⟨9⟩, .const (.int 2)]⟩
    root := ⟨0⟩ }

/-- The first generation folds a factor before it fails, and the second one fails in the same way. -/
theorem generate_again_brokenSum :
    let g : Generator := ⟨{}, ⟨[]⟩, .default, .units, .fields, { stem := "v" }⟩
    let ctx := (Bindings.empty.insert "x" (.int 3)).context
    let left := (g.generate ctx {} brokenSum).tree
    left ≠ brokenSum ∧
    g.generate Bindings.empty.context {} left = g.generate Bindings.empty.context {} brokenSum := by
  intro g ctx left
  have hacyclic : brokenSum.store.Acyclic :=
    Store.acyclic_of_rank (fun id => 9 - id.index) (by decide)
  refine ⟨by decide +kernel, ?_⟩
  exact (generate_again g g [] rfl rfl brokenSum hacyclic ctx Bindings.empty.context {} {}).1

end FormulaCompiler
