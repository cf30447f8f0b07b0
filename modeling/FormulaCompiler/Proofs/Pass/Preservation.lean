import FormulaCompiler.Proofs.Pass.Optimizer

/-!
# Optimising preserves meaning

Any finite sequence of runs of the built-in passes, in any order and under any contexts, leaves
every node with the value or the failure it had, under every context. The sequence goes on after a
run that failed, from the store as that run left it. That the passes improve a formula is not shown.
-/

namespace FormulaCompiler

open Store (Rewrites)

namespace Pass

/-- Runs passes one after the other, each under a context of its own and on what the runs before it
left, whether they failed or not. -/
def runEach : List (Pass × Context) → Tree → Tree
  | [], t => t
  | (p, ctx) :: rest, t =>
      match p.runOn ctx t with
      | .ok _ u => runEach rest u
      | .error _ u => runEach rest u

/-- A built-in pass rewrites the store it is run on. -/
theorem builtin_ends {p : Pass} (hp : p ∈ Pipeline.default.passes) (ctx : Context) (root : NodeId)
    (s : Store) (hs : s.Acyclic) :
    Ends (p.run ctx root) s (fun _ t => Rewrites true s t) (fun _ t => Rewrites true s t) := by
  simp only [Pipeline.default, List.mem_cons, List.not_mem_nil, or_false] at hp
  rcases hp with rfl | rfl | rfl
  · exact (Folding.run_ends ctx root s hs).mono (fun _ _ h => h.widen) fun _ _ h => h.widen
  · exact (Collapse.run_ends ctx root s).mono (fun _ _ h => h.widen) fun _ _ h => h.widen
  · exact ReadCaching.run_ends ctx root s

/-- A built-in pass that succeeds names the root it was given, also on a store with cycles. -/
theorem builtin_root {p : Pass} (hp : p ∈ Pipeline.default.passes) {ctx : Context} {root : NodeId}
    {s t : Store} {o : Outcome} (h : p.run ctx root s = .ok o t) : o.root = root := by
  simp only [Pipeline.default, List.mem_cons, List.not_mem_nil, or_false] at hp
  rcases hp with rfl | rfl | rfl
  · simp only [folding, Folding.run] at h
    split at h <;> cases h
    rfl
  · simp only [collapse, Collapse.run] at h
    repeat' split at h
    all_goals cases h
    all_goals rfl
  · simp only [readCaching, ReadCaching.run] at h
    split at h <;> cases h
    rfl

theorem runOn_root {p : Pass} (hp : p ∈ Pipeline.default.passes) {ctx : Context} {t u : Tree}
    {o : Outcome} (h : p.runOn ctx t = .ok o u) : o.root = t.root ∧ u.root = t.root := by
  cases hr : p.run ctx t.root t.store with
  | ok o' s =>
      simp only [runOn, hr] at h
      cases h
      exact ⟨builtin_root hp hr, builtin_root hp hr⟩
  | error e s =>
      simp only [runOn, hr] at h
      cases h

/-- A built-in pass rewrites the store and leaves the root, also when it fails. -/
theorem runOn_ends {p : Pass} (hp : p ∈ Pipeline.default.passes) (ctx : Context) (t : Tree)
    (ht : t.store.Acyclic) :
    Ends (p.runOn ctx) t (fun _ u => Rewrites true t.store u.store ∧ u.root = t.root)
      (fun _ u => Rewrites true t.store u.store ∧ u.root = t.root) := by
  have h := builtin_ends hp ctx t.root t.store ht
  unfold Ends
  cases hr : p.run ctx t.root t.store with
  | ok o u =>
      simp only [runOn, hr]
      exact ⟨h.of_ok hr, builtin_root hp hr⟩
  | error e u =>
      simp only [runOn, hr]
      exact ⟨h.of_error hr, trivial⟩

theorem rewrites_runEach {runs : List (Pass × Context)}
    (hb : ∀ r ∈ runs, r.1 ∈ Pipeline.default.passes) (t : Tree) (ht : t.store.Acyclic) :
    Rewrites true t.store (runEach runs t).store := by
  induction runs generalizing t with
  | nil => exact Rewrites.refl _
  | cons r rest ih =>
      obtain ⟨p, ctx⟩ := r
      have hrest : ∀ r ∈ rest, r.1 ∈ Pipeline.default.passes :=
        fun r hr => hb r (List.mem_cons_of_mem _ hr)
      have h := runOn_ends (hb (p, ctx) List.mem_cons_self) ctx t ht
      cases hr : p.runOn ctx t with
      | ok o u =>
          simp only [runEach, hr]
          have hu := (h.of_ok hr).1
          exact hu.trans (ih hrest u (hu.acyclic ht))
      | error e u =>
          simp only [runEach, hr]
          have hu := (h.of_error hr).1
          exact hu.trans (ih hrest u (hu.acyclic ht))

end Pass

/-- Built-in passes change no value and no failure, however they are run, and the depth that bounds
evaluation is never what an evaluation fails of. A run that succeeds answers the root it was
given. -/
theorem eval_runEach (t : Tree) (ht : t.store.Acyclic) (runs : List (Pass × Context))
    (hb : ∀ r ∈ runs, r.1 ∈ Pipeline.default.passes) :
    (∀ ctx id, (Pass.runEach runs t).store.eval ctx id = t.store.eval ctx id ∧
      ∀ other, t.store.eval ctx id ≠ .error (.cyclic other)) ∧
    ∀ r ∈ runs, ∀ u o u', r.1.runOn r.2 u = .ok o u' → o.root = u.root ∧ u'.root = u.root := by
  refine ⟨fun ctx id => ⟨?_, fun other => ht.eval_ne_cyclic ctx id other⟩, ?_⟩
  · exact (Pass.rewrites_runEach hb t ht).eval_eq ht ctx id
  · exact fun r hr u o u' hrun => Pass.runOn_root (hb r hr) hrun

/-- `2 * 2 + x`, its one factor shared and every child behind its parent, beside a node that no one
mentions and whose child dangles. -/
def sharedFactor : Tree :=
  { store := ⟨#[.binary .add ⟨1⟩ ⟨2⟩, .binary .mul ⟨3⟩ ⟨3⟩, .var "x", .const (.int 2),
      .unary .neg ⟨9⟩]⟩
    root := ⟨0⟩ }

theorem sharedFactor_acyclic : sharedFactor.store.Acyclic :=
  Store.acyclic_of_rank (fun id => 9 - id.index) (by decide)

theorem eval_runEach_sharedFactor :
    let runs := [(Pass.readCaching, Bindings.empty.context), (Pass.folding, Bindings.empty.context),
      (Pass.collapse, Bindings.empty.context)]
    (Pass.runEach runs sharedFactor).store ≠ sharedFactor.store ∧
    ∀ ctx id, (Pass.runEach runs sharedFactor).store.eval ctx id =
      sharedFactor.store.eval ctx id := by
  refine ⟨by decide +kernel, fun ctx id => ?_⟩
  exact ((eval_runEach sharedFactor sharedFactor_acyclic _
    (by simp [Pipeline.default])).1 ctx id).1

end FormulaCompiler
