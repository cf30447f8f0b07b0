import FormulaCompiler.Proofs.Fragment.Places
import FormulaCompiler.Proofs.Generator.Session
import FormulaCompiler.Proofs.Tree.Retyping

/-!
# Widened integers in units

Units keep integers that they read in locals, as floats. When all default passes have run, every
occurrence of such a local in the unit's expression is narrowed by a cast, except where texts are
joined: a join shows the local as the float that it is. This happens exactly if the formula adds an
integer variable to a text. Formulas that come with emissions of their own are not covered.
-/

namespace FormulaCompiler

open Generator
open Store (Rewrites)

namespace Store

variable {s t : Store} {ctx : Context} {id root : NodeId} {caching : Bool}

theorem ReadsInteger.not_fixed (h : s.ReadsInteger ctx id) : ¬ s.Fixed id := by
  obtain ⟨n, hi, -⟩ := h
  exact not_fixed_of_var hi

theorem JoinsInteger.not_fixed (h : s.JoinsInteger ctx id) (hs : s.Acyclic) : ¬ s.Fixed id := by
  obtain ⟨n, l, r, hi, -, hreads⟩ := h
  obtain ⟨hcl, hcr⟩ := child_of_binary hi
  intro hfixed
  rcases hreads with hreads | hreads
  · exact hreads.not_fixed (hs.fixed_child hfixed hcl)
  · exact hreads.not_fixed (hs.fixed_child hfixed hcr)

theorem ReadsInteger.of_view (h : s.ReadsInteger ctx id) (hv : t.view id = s.view id) :
    t.ReadsInteger ctx id := by
  obtain ⟨n, hi, hint⟩ := h
  obtain ⟨n', hi', hlabel⟩ := view_ok hv hi
  exact ⟨n', hi', hlabel ▸ hint⟩

theorem JoinsInteger.of_view (h : s.JoinsInteger ctx id) (hv : t.view id = s.view id)
    (hty : t.nodeType ctx id = s.nodeType ctx id)
    (hreads : ∀ x, s.ReadsInteger ctx x → t.ReadsInteger ctx x) : t.JoinsInteger ctx id := by
  obtain ⟨n, l, r, hi, htext, hoperand⟩ := h
  obtain ⟨n', hi', -⟩ := view_ok hv hi
  exact ⟨n', l, r, hi', hty.trans htext, hoperand.imp (hreads l) (hreads r)⟩

namespace Rewrites

theorem readsInteger_iff (h : Rewrites caching s t) (hs : s.Acyclic) :
    t.ReadsInteger ctx id ↔ s.ReadsInteger ctx id := by
  constructor
  · intro hreads
    have hf : ¬ s.Fixed id := by
      rw [← h.fixed_iff hs]
      exact hreads.not_fixed
    exact hreads.of_view (h.view_eq hs hf).symm
  · intro hreads
    exact hreads.of_view (h.view_eq hs hreads.not_fixed)

theorem joinsInteger_iff (h : Rewrites caching s t) (hs : s.Acyclic) (hp : s.PreparedFrom id) :
    t.JoinsInteger ctx id ↔ s.JoinsInteger ctx id := by
  have hty := h.nodeType_eq hs hp ctx
  constructor
  · intro hjoins
    have hf : ¬ s.Fixed id := by
      rw [← h.fixed_iff hs]
      exact hjoins.not_fixed (h.acyclic hs)
    exact hjoins.of_view (h.view_eq hs hf).symm hty.symm fun _ => (h.readsInteger_iff hs).mp
  · intro hjoins
    have hf := hjoins.not_fixed hs
    exact hjoins.of_view (h.view_eq hs hf) hty fun _ => (h.readsInteger_iff hs).mpr

/-- Rewriting takes away no sum of a text and an integer variable, and adds none. -/
theorem exists_joinsInteger_iff (h : Rewrites caching s t) (hs : s.Acyclic)
    (hp : s.PreparedFrom root) (hfit : s.FitsFrom root) :
    (∃ id, t.Reaches root id ∧ t.JoinsInteger ctx id) ↔
      ∃ id, s.Reaches root id ∧ s.JoinsInteger ctx id := by
  have hprepared : ∀ {id}, s.Reaches root id → s.PreparedFrom id :=
    fun hr other n hr' => hp other n (hr.trans hr')
  constructor
  · intro hexists
    obtain ⟨id, hr, hjoins⟩ := hexists
    have hr' := h.reaches hr
    exact ⟨id, hr', (h.joinsInteger_iff hs (hprepared hr')).mp hjoins⟩
  · intro hexists
    obtain ⟨id, hr, hjoins⟩ := hexists
    have hr' := h.reaches_of_not_fixed hs hfit hr (hjoins.not_fixed hs)
    exact ⟨id, hr', (h.joinsInteger_iff hs (hprepared hr)).mpr hjoins⟩

end Rewrites

/-- The places of integer locals in the expression of a prepared root whose reads are cached. -/
theorem renderRoot_places (hs : s.Acyclic) (hp : s.PreparedFrom id) (hc : s.ReadsCachedFrom id)
    {st st' : RenderState} (hst : st.Sound ctx) {f : Fragment}
    (h : s.renderRoot ctx id st = .ok f st') :
    st'.scope.Sound ctx ∧ s.FitsFrom id ∧
    (∀ r ∈ st'.locals.toList, ctx.typeOf r.text = .int →
      ∀ place, (place, r.name) ∈ f.code.localsAt .whole → place = .cast ∨ place = .joined) ∧
    ((∃ r ∈ st'.locals.toList, ctx.typeOf r.text = .int ∧
        (.joined, r.name) ∈ f.code.localsAt .whole) ↔
      ∃ other, s.Reaches id other ∧ s.JoinsInteger ctx other) := by
  obtain ⟨hst', -, n, shape, g, hi, hg, hf⟩ := renderRoot_ok hp hst h
  have hsound := hst'.scope
  -- The root is narrowed exactly when its fragment could be an integer local.
  obtain ⟨place, hlocals, hplace⟩ : ∃ place, f.code.localsAt .whole = g.code.localsAt place ∧
      (place = .cast ∨ place = .whole ∧ ¬ (n.emission.isCached = true ∧ g.ty = .int)) := by
    by_cases hnarrow : n.emission.isCached = true ∧ g.ty = .int
    · rw [if_pos hnarrow] at hf
      exact ⟨.cast, by rw [hf]; rfl, .inl rfl⟩
    · rw [if_neg hnarrow] at hf
      exact ⟨.whole, by rw [hf], .inr ⟨rfl, hnarrow⟩⟩
  refine ⟨hsound, hs.fitsFrom_of_nodeType hp (hg.nodeType hs hp), ?_, ?_, ?_⟩
  · intro r hr hint found hmem
    rw [hlocals] at hmem
    rcases hg.cast_or_joined hsound hr hint hmem with hcast | hjoined | ⟨hfound, hty, m, hm, he⟩
    · exact .inl hcast
    · exact .inr hjoined
    · rcases hplace with rfl | ⟨-, hwide⟩
      · exact .inl hfound
      · cases hi.symm.trans hm
        exact absurd ⟨he, hty⟩ hwide
  · intro hjoined
    obtain ⟨r, hr, hint, hmem⟩ := hjoined
    rw [hlocals] at hmem
    rcases hg.joins_of_joined hs hp hsound hr hint hmem with hjoins | ⟨hjoined, -⟩
    · exact hjoins
    · rcases hplace with rfl | ⟨rfl, -⟩ <;> cases hjoined
  · intro hjoins
    obtain ⟨other, hreach, hjoins⟩ := hjoins
    obtain ⟨r, hr, hint, hmem⟩ := hg.joined_of_joins hs hp hc hreach hjoins
    rw [hlocals]
    exact ⟨r, hr, hint, hmem place⟩

end Store

namespace Generator

/-- The code of a unit's expression, if the formula can be rendered. -/
def code? (g : Generator) (ctx : Context) (counters : Counters) (t : Tree) : Option Code :=
  match g.prepare ctx ⟨counters, g.locals, t⟩ with
  | .ok (f, _) _ => some f.code
  | .error _ _ => none

/-- A unit that was made comes from a formula that was optimised and rendered. -/
theorem rendered_of_made {g : Generator} {ctx : Context} {counters : Counters} {t : Tree}
    {unit : EvalUnit} (h : (g.generate ctx counters t).result = .ok unit) :
    ∃ u f st, g.pipeline.run ctx t = .ok ⟨⟩ u ∧
      u.store.renderRoot ctx u.root (g.start counters) = .ok f st := by
  cases hrun : g.pipeline.run ctx t with
  | error e u =>
      rw [generate_unoptimized hrun] at h
      cases h
  | ok _ u =>
      cases hrender : u.store.renderRoot ctx u.root (g.start counters) with
      | error e st =>
          rw [generate_unrendered hrun hrender] at h
          cases h
      | ok f st => exact ⟨u, f, st, rfl, hrender⟩

end Generator

/-- In the unit of a formula that comes without emissions, a local for an integer variable is a
float and stands in casts and joins only: nowhere else does it escape as the float that it is. A join
has one exactly if some sum of the formula is a text with an integer variable as an operand. -/
theorem widened_locals_cast_or_joined (g : Generator) (hg : g.InUse)
    (hfull : g.pipeline.enabled = Pipeline.default.passes) (t : Tree) (ht : t.store.Acyclic)
    (hp : t.store.PlainFrom t.root) (ctx : Context) (counters : Counters) (unit : EvalUnit)
    (h : (g.generate ctx counters t).result = .ok unit) :
    let c := g.contents ctx counters t
    ∃ code, g.code? ctx counters t = some code ∧ c.expression = code.print ∧
      unit.source = g.skeleton.fill (c.parts unit.name) ∧
      (∀ r ∈ c.locals, ctx.typeOf r.text = .int → r.body.ty.localType = .f64 ∧
        ∀ place, (place, r.name) ∈ code.localsAt .whole → place = .cast ∨ place = .joined) ∧
      ((∃ r ∈ c.locals, ctx.typeOf r.text = .int ∧ (.joined, r.name) ∈ code.localsAt .whole) ↔
        ∃ id, t.store.Reaches t.root id ∧ t.store.JoinsInteger ctx id) := by
  intro c
  have hsource := (hg.idle.made h).1
  obtain ⟨u, f, st, hrun, hrender⟩ := rendered_of_made h
  have hc : c = ⟨f.text, st.fields.toList, st.locals.toList⟩ := contents_rendered hrun hrender
  have hall : Pipeline.runAll ctx Pipeline.default.passes t = .ok ⟨⟩ u := by
    rw [← hfull]
    exact hrun
  obtain ⟨hrewrites, hroot⟩ := (Pipeline.runAll_ends (fun _ h => h) ctx t ht).of_ok hall
  have hcached := (Pipeline.runAll_readsCached (fun _ h => h) (by simp [Pipeline.default]) ctx t
    ht).of_ok hall
  have hprepared := hrewrites.prepared hp
  rw [hroot] at hrender
  have hempty : (g.start counters).Sound ctx :=
    RenderState.sound_of_empty ctx rfl hg.idle.empty
  obtain ⟨hsound, hfit, hplaces, hjoins⟩ :=
    Store.renderRoot_places (hrewrites.acyclic ht) hprepared hcached hempty hrender
  have hplain : t.store.PreparedFrom t.root := by
    intro id n hr hn
    rw [hp id n hr hn]
    trivial
  rw [hrewrites.exists_joinsInteger_iff ht hplain ((hrewrites.fitsFrom_iff ht).mp hfit)] at hjoins
  rw [hc]
  refine ⟨f.code, ?_, rfl, ?_, ?_, hjoins⟩
  · rw [← hroot] at hrender
    simp only [code?, prepare_rendered hrun hrender]
  · rw [← hc]
    exact hsource
  · intro r hr hint
    refine ⟨?_, hplaces r hr hint⟩
    rw [hsound.localReads r hr, LocalRead.of, hint]
    rfl

/-- `"n=" + n + n * 2`, its variable shared. -/
def labelledProduct : Tree :=
  { store := ⟨#[.binary .add ⟨1⟩ ⟨4⟩, .binary .add ⟨2⟩ ⟨3⟩, .const (.text "n="), .var "n",
      .binary .mul ⟨3⟩ ⟨5⟩, .const (.int 2)]⟩
    root := ⟨0⟩ }

/-- The one local of the unit is cast for the product, and joined as it is. -/
theorem widened_locals_cast_or_joined_labelledProduct :
    let g := terse "U" "f" "v"
    let ctx := (Bindings.empty.insert "n" (.int 3)).context
    let c := g.contents ctx {} labelledProduct
    ∃ unit code, (g.generate ctx {} labelledProduct).result = .ok unit ∧
      g.code? ctx {} labelledProduct = some code ∧ c.expression = code.print ∧
      c.locals = [⟨"n", "v0", .of ctx "n"⟩] ∧
      code.localsAt .whole = [(.joined, "v0"), (.cast, "v0")] ∧
      ∃ id, labelledProduct.store.Reaches labelledProduct.root id ∧
        labelledProduct.store.JoinsInteger ctx id := by
  intro g ctx c
  have hacyclic : labelledProduct.store.Acyclic :=
    Store.acyclic_of_rank (fun id => [3, 2, 0, 0, 1, 0].getD id.index 0) (by decide)
  have hplain : labelledProduct.store.PlainFrom labelledProduct.root :=
    Store.plainFrom_of_all (by decide) _
  have hmade : (g.generate ctx {} labelledProduct).result.toOption.isSome = true := by
    decide +kernel
  have hplaces : (g.code? ctx {} labelledProduct).map (Code.localsAt .whole) =
      some [(.joined, "v0"), (.cast, "v0")] := by decide +kernel
  have hlocals : c.locals = [⟨"n", "v0", .of ctx "n"⟩] := by decide +kernel
  cases hresult : (g.generate ctx {} labelledProduct).result with
  | error e =>
      rw [hresult] at hmade
      cases hmade
  | ok unit =>
      obtain ⟨code, hcode, hexpression, -, -, hjoins⟩ := widened_locals_cast_or_joined g
        (terse_inUse ..) (by with_unfolding_all rfl) labelledProduct hacyclic hplain ctx {} unit
        hresult
      rw [hcode, Option.map_some, Option.some.injEq] at hplaces
      refine ⟨unit, code, rfl, hcode, hexpression, hlocals, hplaces, hjoins.mp ?_⟩
      refine ⟨⟨"n", "v0", .of ctx "n"⟩, ?_, rfl, ?_⟩
      · rw [hlocals]
        exact List.mem_singleton.mpr rfl
      · rw [hplaces]
        exact List.mem_cons_self

/-- `"n=" + n`. -/
def labelledRead : Tree :=
  { store := ⟨#[.const (.text "n="), .var "n", .binary .add ⟨0⟩ ⟨1⟩]⟩, root := ⟨2⟩ }

/-- The unit of a label and an integer shows the integer as a float. The float is the integer here,
2⁶⁰, and still it is shown with other digits. -/
theorem labelledRead_escapes_uncast :
    let g := terse "Fel_" "attr_" "var_"
    let ctx := (Bindings.empty.insert "n" (.int 1152921504606846976)).context
    labelledRead.store.Acyclic ∧ labelledRead.store.PlainFrom labelledRead.root ∧
    g.pipeline.enabled = Pipeline.default.passes ∧
    (g.generate ctx {} labelledRead).result.toOption = some ⟨"Fel_0",
      "Fel_0\n\n        let var_0: f64 = ctx.get_int(\"n\") as f64;   // n\n" ++
      "format!(\"\x7b\x7d\x7b\x7d\", \"n=\", var_0)"⟩ ∧
    (g.contents ctx {} labelledRead).locals = [⟨"n", "var_0", .of ctx "n"⟩] ∧
    ctx.typeOf "n" = .int ∧
    (g.code? ctx {} labelledRead).map (Code.localsAt .whole) = some [(.joined, "var_0")] ∧
    Binary64.intOfFloat (Binary64.floatOfInt 1152921504606846976) = 1152921504606846976 ∧
    (Value.int 1152921504606846976).display = "1152921504606846976" ∧
    (Value.float (Binary64.floatOfInt 1152921504606846976)).display = "1152921504606847000" := by
  intro g ctx
  have hacyclic : labelledRead.store.Acyclic :=
    Store.acyclic_of_rank (fun id => id.index) (by decide)
  exact ⟨hacyclic, Store.plainFrom_of_all (by decide) _, by with_unfolding_all rfl,
    by decide +kernel, by decide +kernel, rfl, by decide +kernel, by decide +kernel,
    by decide +kernel, by decide +kernel⟩

end FormulaCompiler
