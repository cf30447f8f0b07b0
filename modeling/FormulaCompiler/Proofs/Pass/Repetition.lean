import FormulaCompiler.Proofs.Pass.Normal

/-!
# Running passes again

A pass that is run again, on anything that rewriting leads to after its first run, succeeds or fails
as it did and changes nothing. The same holds of a pipeline of built-in passes, as each of them only
rewrites. How many changes a pass reports is not the same the second time.
-/

namespace FormulaCompiler

open Store (Rewrites)

/-- On anything that rewriting leads to afterwards, the run ends as it did and changes nothing. -/
def Repeats {α : Type} (m : EStateM BuildError Store α) (s : Store) : Prop :=
  Ends m s (fun _ t => ∀ u, Rewrites true t u → ∃ a, m u = .ok a u)
    (fun e t => ∀ u, Rewrites true t u → m u = .error e u)

theorem Store.Rewrites.depth_eq {caching : Bool} {s t : Store} (h : Rewrites caching s t) :
    t.depth = s.depth :=
  congrArg (· + 1) h.size_eq

namespace Folding

variable {ctx : Context} {depth : Nat} {id : NodeId} {st t : State}

/-- Folding that broke off breaks off again, and changes nothing on the way: what it had folded
before is folded, and the misfit it met is still there. -/
theorem foldWithin_error_again {e : BuildError} {u : State} (hs : st.store.Acyclic)
    (hd : st.store.Shallow depth id) (h : foldWithin ctx depth id st = .error e t)
    (hu : Rewrites true t.store u.store) : foldWithin ctx depth id u = .error e u := by
  induction depth generalizing id st with
  | zero => exact hd.elim
  | succ depth ih =>
      have hsu : Rewrites true st.store u.store :=
        (((foldWithin_ends ctx _ id st hs).of_error h).widen).trans hu
      have hunfit := (foldWithin_folds ctx _ id st hs hd).of_error h
      have hview := hsu.view_eq hs fun hf => hunfit (hs.fitsFrom_of_fixed hf)
      rcases hi : st.store.inspect id with m | ⟨n, shape⟩
      · rw [foldWithin_misfit hi] at h
        cases h
        exact foldWithin_misfit (Store.view_misfit hview hi)
      · obtain ⟨n', hi', -⟩ := Store.view_ok hview hi
        cases shape with
        | const v =>
            rw [foldWithin_const hi] at h
            cases h
        | var =>
            rw [foldWithin_var hi] at h
            cases h
        | unary op x =>
            rw [foldWithin_unary hi] at h
            rw [foldWithin_unary hi']
            rcases bind_error_cases h with hx | ⟨a, t₁, -, hsettle⟩
            · exact bind_of_error (ih hs (hd x (Store.child_of_unary hi)) hx)
            · exact absurd hsettle (settle_ne_error a)
        | binary op l r =>
            obtain ⟨hcl, hcr⟩ := Store.child_of_binary hi
            rw [foldWithin_binary hi] at h
            rw [foldWithin_binary hi']
            rcases bind_error_cases h with hl | ⟨a, t₁, hl, h⟩
            · exact bind_of_error (ih hs (hd l hcl) hl)
            · have hst := ((foldWithin_ends ctx depth l st hs).of_ok hl).1
              obtain ⟨hlfold, -, hlfit⟩ := (foldWithin_folds ctx depth l st hs (hd l hcl)).of_ok hl
              have ht₁ := hst.acyclic hs
              rcases bind_error_cases h with hr | ⟨b, t₂, -, hsettle⟩
              · have htu : Rewrites true t₁.store u.store :=
                  (((foldWithin_ends ctx depth r t₁ ht₁).of_error hr).widen).trans hu
                obtain ⟨b, hb, -⟩ := foldWithin_of_folded ctx u (htu.acyclic ht₁)
                  (hsu.shallow (hd l hcl)) ((hsu.fitsFrom_iff hs).mpr hlfit)
                  (htu.foldedFrom ht₁ hlfold)
                rw [bind_of_ok hb]
                exact bind_of_error (ih ht₁ (hst.shallow (hd r hcr)) hr)
              · exact absurd hsettle (settle_ne_error (a && b))

theorem run_repeats (ctx : Context) (root : NodeId) (s : Store) (hs : s.Acyclic) :
    Repeats (run ctx root) s := by
  have hd := hs.shallow root
  have hends := foldWithin_ends ctx s.depth root ⟨s, 0⟩ hs
  have hfolds := foldWithin_folds ctx s.depth root ⟨s, 0⟩ hs hd
  unfold Repeats Ends
  cases h : foldWithin ctx s.depth root ⟨s, 0⟩ with
  | ok answer t =>
      simp only [run, h]
      intro u hu
      have hsu : Rewrites true s u := ((hends.of_ok h).1.widen).trans hu
      obtain ⟨hfold, -, hfit⟩ := hfolds.of_ok h
      have ht := (hends.of_ok h).1.acyclic hs
      obtain ⟨b, hb, -⟩ := foldWithin_of_folded ctx ⟨u, 0⟩ (hsu.acyclic hs)
        (hsu.shallow hd) ((hsu.fitsFrom_iff hs).mpr hfit) (hu.foldedFrom ht hfold)
      rw [hsu.depth_eq, hb]
      exact ⟨_, rfl⟩
  | error e t =>
      simp only [run, h]
      intro u hu
      have hsu : Rewrites true s u := ((hends.of_error h).widen).trans hu
      have hagain := foldWithin_error_again (u := ⟨u, 0⟩) hs hd h hu
      rw [hsu.depth_eq, hagain]

end Folding

namespace Collapse

variable {ctx : Context} {root : NodeId} {s t u : Store} {n : Node}

theorem run_ok (hn : s.get? root = some n) {w v : Value} (hk : n.kind = .const w)
    (hv : s.eval ctx root = .ok v) :
    run ctx root s = .ok ⟨root, 1⟩ (s.setEmission root (.ofConstant v)) := by
  simp [run, hn, hk, hv, Kind.isConst]

theorem run_error (hn : s.get? root = some n) {w : Value} (hk : n.kind = .const w) {e : EvalError}
    (hv : s.eval ctx root = .error e) :
    run ctx root s = .error (.malformed .optimize root n.label (.evaluation e)) s := by
  simp [run, hn, hk, hv, Kind.isConst]

theorem collapsedAt_setEmission (hn : s.get? root = some n) {v : Value} (hk : n.kind = .const v) :
    (s.setEmission root (.ofConstant v)).CollapsedAt root := by
  intro m w hm
  have hget := ((Store.inspect_eq_ok_iff ..).mp hm).1
  rw [Store.get?_setEmission, if_pos rfl, hn] at hget
  cases hget
  have hkind := Store.kind_of_inspect hm
  obtain rfl : v = w := by simpa [hk, Shape.kind] using hkind
  rfl

/-- A root that is collapsed stays so, and a root that only became a constant later is held by a
field from then on. -/
theorem run_of_rewritten (hs : s.Acyclic) (hn : s.get? root = some n)
    (hfixed : n.kind.isConst = true → s.Fixed root) (hst : Rewrites true s t)
    (hc : t.CollapsedAt root) (hu : Rewrites true t u) : ∃ o, run ctx root u = .ok o u := by
  have hsu := hst.trans hu
  obtain ⟨n', hn', -, hkind⟩ := hsu.get?_or hs hn
  refine run_of_collapsed hn' (fun hk => ?_) (hu.collapsedAt hc)
  have hroot : s.Fixed root := by
    rcases hkind with hsame | hroot
    · exact hfixed (hsame ▸ hk)
    · exact hroot
  obtain ⟨v, hv⟩ := (hsu.fixed_iff hs).mpr hroot
  exact ⟨v, hv ctx⟩

theorem run_repeats (ctx : Context) (root : NodeId) (s : Store) (hs : s.Acyclic) :
    Repeats (run ctx root) s := by
  have hends := run_ends ctx root s
  unfold Repeats Ends
  cases hn : s.get? root with
  | none =>
      simp only [run, hn]
      intro u hu
      have hu' : u.get? root = none := by
        rw [u.get?_eq_none_iff, hu.size_eq, ← s.get?_eq_none_iff]
        exact hn
      simp only [hu']
  | some n =>
      by_cases hconst : n.kind.isConst = true
      · obtain ⟨w, hk⟩ : ∃ w, n.kind = .const w := by
          cases hk : n.kind <;> simp_all [Kind.isConst]
        cases hv : s.eval ctx root with
        | ok v =>
            have hrun := run_ok hn hk hv
            have hst : Rewrites true s _ := (hends.of_ok hrun).widen
            rw [hrun]
            intro u hu
            refine run_of_rewritten hs hn ?_ hst ?_ hu
            · exact fun _ => ⟨v, fun ctx' => (eval_of_const hn hk ctx ctx').trans hv⟩
            · obtain rfl := value_eq_of_const hn hk hv
              exact collapsedAt_setEmission hn hk
        | error e =>
            rw [run_error hn hk hv]
            intro u hu
            obtain ⟨n', hn', hlabel, hkind | ⟨v, hfixed⟩⟩ := hu.get?_or hs hn
            · have hv' : u.eval ctx root = .error e := (hu.eval_eq hs ctx root).trans hv
              rw [run_error hn' (hkind.trans hk) hv', hlabel]
            · rw [hfixed ctx] at hv
              cases hv
      · have hrun : run ctx root s = .ok ⟨root, 0⟩ s := by simp [run, hn, hconst]
        rw [hrun]
        intro u hu
        refine run_of_rewritten hs hn (fun h => absurd h hconst) (Rewrites.refl s) ?_ hu
        intro m v hm
        obtain rfl : n = m := Option.some.inj (hn.symm.trans ((s.inspect_eq_ok_iff root m _).mp hm).1)
        rw [Store.kind_of_inspect hm] at hconst
        exact absurd rfl hconst

end Collapse

namespace ReadCaching

variable {depth : Nat} {id : NodeId} {s t : Store}

theorem rebindWithin_error_again {e : BuildError} {u : Store} (hs : s.Acyclic)
    (hd : s.Shallow depth id) (h : rebindWithin depth id s = .error e t)
    (hu : Rewrites true t u) : rebindWithin depth id u = .error e u := by
  induction depth generalizing id s with
  | zero => exact hd.elim
  | succ depth ih =>
      have hsu : Rewrites true s u := ((rebindWithin_ends _ id s).of_error h).trans hu
      have hunfit := (rebindWithin_caches _ id s hs hd).of_error h
      have hview := hsu.view_eq hs fun hf => hunfit (hs.fitsFrom_of_fixed hf)
      rcases hi : s.inspect id with m | ⟨n, shape⟩
      · rw [rebindWithin_misfit hi] at h
        cases h
        exact rebindWithin_misfit (Store.view_misfit hview hi)
      · obtain ⟨n', hi', -⟩ := Store.view_ok hview hi
        cases shape with
        | const v =>
            rw [rebindWithin_const hi] at h
            cases h
        | var =>
            obtain ⟨count, t', hrun, -⟩ := rebind_caches hi
            rw [rebindWithin_var hi, hrun] at h
            cases h
        | unary op x =>
            rw [rebindWithin_unary hi] at h
            rw [rebindWithin_unary hi']
            exact ih hs (hd x (Store.child_of_unary hi)) h
        | binary op l r =>
            obtain ⟨hcl, hcr⟩ := Store.child_of_binary hi
            rw [rebindWithin_binary hi] at h
            rw [rebindWithin_binary hi']
            rcases bind_error_cases h with hl | ⟨a, t₁, hl, h⟩
            · exact bind_of_error (ih hs (hd l hcl) hl)
            · have hst := (rebindWithin_ends depth l s).of_ok hl
              obtain ⟨hcached, hfit⟩ := (rebindWithin_caches depth l s hs (hd l hcl)).of_ok hl
              rcases bind_error_cases h with hr | ⟨b, t₂, -, hpure⟩
              · have htu := ((rebindWithin_ends depth r t₁).of_error hr).trans hu
                have hl' := rebindWithin_of_cached (hsu.shallow (hd l hcl))
                  ((hsu.fitsFrom_iff hs).mpr hfit) (htu.readsCachedFrom hcached)
                rw [bind_of_ok hl']
                exact bind_of_error (ih (hst.acyclic hs) (hst.shallow (hd r hcr)) hr)
              · cases hpure

theorem run_repeats (ctx : Context) (root : NodeId) (s : Store) (hs : s.Acyclic) :
    Repeats (run ctx root) s := by
  have hd := hs.shallow root
  have hends := rebindWithin_ends s.depth root s
  have hcaches := rebindWithin_caches s.depth root s hs hd
  unfold Repeats Ends
  cases h : rebindWithin s.depth root s with
  | ok count t =>
      simp only [run, h]
      intro u hu
      have hsu : Rewrites true s u := (hends.of_ok h).trans hu
      obtain ⟨hcached, hfit⟩ := hcaches.of_ok h
      have hagain := rebindWithin_of_cached (hsu.shallow hd) ((hsu.fitsFrom_iff hs).mpr hfit)
        (hu.readsCachedFrom hcached)
      rw [hsu.depth_eq, hagain]
      exact ⟨_, rfl⟩
  | error e t =>
      simp only [run, h]
      intro u hu
      have hsu : Rewrites true s u := (hends.of_error h).trans hu
      have hagain := rebindWithin_error_again hs hd h hu
      rw [hsu.depth_eq, hagain]

end ReadCaching

namespace Pass

variable {p : Pass}

theorem builtin_repeats (hp : p ∈ Pipeline.default.passes) (ctx : Context) (root : NodeId)
    (s : Store) (hs : s.Acyclic) : Repeats (p.run ctx root) s := by
  simp only [Pipeline.default, List.mem_cons, List.not_mem_nil, or_false] at hp
  rcases hp with rfl | rfl | rfl
  · exact Folding.run_repeats ctx root s hs
  · exact Collapse.run_repeats ctx root s hs
  · exact ReadCaching.run_repeats ctx root s hs

theorem runOn_again (hp : p ∈ Pipeline.default.passes) (ctx : Context) (t : Tree)
    (ht : t.store.Acyclic) :
    Ends (p.runOn ctx) t
      (fun _ t' => ∀ u, Rewrites true t'.store u.store → u.root = t.root →
        ∃ o, p.runOn ctx u = .ok o u)
      (fun e t' => ∀ u, Rewrites true t'.store u.store → u.root = t.root →
        p.runOn ctx u = .error e u) := by
  have h := builtin_repeats hp ctx t.root t.store ht
  unfold Repeats at h
  unfold Ends
  cases hr : p.run ctx t.root t.store with
  | ok o s' =>
      simp only [runOn, hr]
      rintro ⟨store, root⟩ hu rfl
      obtain ⟨o', ho'⟩ := h.of_ok hr store hu
      have hsame : o'.root = t.root := builtin_root hp ho'
      exact ⟨o', by simp only [ho', hsame]⟩
  | error e s' =>
      simp only [runOn, hr]
      rintro ⟨store, root⟩ hu rfl
      simp only [h.of_error hr store hu]

end Pass

namespace Pipeline

/-- A list of built-in passes run again, on anything that rewriting leads to afterwards, ends as it
did and changes nothing: the passes before the failing one, or all of them, find their normal form,
which the later ones have kept. -/
theorem runAll_again {passes : List Pass} (hb : ∀ p ∈ passes, p ∈ Pipeline.default.passes)
    (ctx : Context) (t : Tree) (ht : t.store.Acyclic) :
    Ends (runAll ctx passes) t
      (fun _ t' => ∀ u, Rewrites true t'.store u.store → u.root = t.root →
        runAll ctx passes u = .ok ⟨⟩ u)
      (fun e t' => ∀ u, Rewrites true t'.store u.store → u.root = t.root →
        runAll ctx passes u = .error e u) := by
  induction passes generalizing t with
  | nil => exact Ends.pure fun u _ _ => rfl
  | cons p rest ih =>
      have hp := hb p List.mem_cons_self
      have hrest : ∀ q ∈ rest, q ∈ Pipeline.default.passes :=
        fun q hq => hb q (List.mem_cons_of_mem _ hq)
      have hfirst := (Pass.runOn_ends hp ctx t ht).both (Pass.runOn_again hp ctx t ht)
      refine (hfirst.mono (fun _ _ h => h) ?_).bind ?_
      · rintro e t' ⟨-, hagain⟩ u hu hroot
        exact bind_of_error (hagain u hu hroot)
      · rintro o t₁ ⟨⟨hst, hroot₁⟩, hagain⟩
        have ht₁ := hst.acyclic ht
        have hsecond := (runAll_ends hrest ctx t₁ ht₁).both (ih hrest t₁ ht₁)
        refine hsecond.mono ?_ ?_
        · rintro _ t' ⟨⟨htt, -⟩, hagain'⟩ u hu hroot
          obtain ⟨o', ho'⟩ := hagain u (htt.trans hu) hroot
          rw [runAll, bind_of_ok ho']
          exact hagain' u hu (hroot.trans hroot₁.symm)
        · rintro e t' ⟨⟨htt, -⟩, hagain'⟩ u hu hroot
          obtain ⟨o', ho'⟩ := hagain u (htt.trans hu) hroot
          rw [runAll, bind_of_ok ho']
          exact hagain' u hu (hroot.trans hroot₁.symm)

end Pipeline

end FormulaCompiler
