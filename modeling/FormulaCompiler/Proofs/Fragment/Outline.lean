import FormulaCompiler.Proofs.Fragment.Inference
import FormulaCompiler.Proofs.Fragment.OpenText
import FormulaCompiler.Proofs.Fragment.TwoPhase
import FormulaCompiler.Proofs.Tree.Retyping

/-!
# Rendering with names left open

For every node there is one open fragment, or one failure, and every run follows it, whatever its
names are, unless it runs out of numbers for them. Without a cache inside a cache the failure is a
malformed formula that rendering met. What a run does from a state that holds declarations of an
earlier run is not covered.
-/

namespace FormulaCompiler

namespace RenderState

/-- The state has declared what the outline lists, under the given names. -/
structure Follows (names : Names) (d : Outline) (st : RenderState) : Prop where
  fieldStem : st.fields.stem = names.fieldStem
  fields : st.fields.toList = fieldRow names.fieldStem names.firstField d.kept
  counter : st.counter.value = names.firstField + d.kept.length
  localStem : st.locals.stem = names.localStem
  locals : st.locals.toList.map CachedRead.shown = d.reads.mapIdx (OpenRead.shown names)
  drawn : st.locals.names.value = names.firstLocal + d.reads.length

/-- Between the two states numbers were drawn, if anything. -/
structure Later (st st' : RenderState) : Prop where
  counter : st.counter.value ≤ st'.counter.value
  localStem : st'.locals.stem = st.locals.stem
  drawn : st.locals.names.value ≤ st'.locals.names.value

theorem Later.refl (st : RenderState) : st.Later st := ⟨Nat.le_refl _, rfl, Nat.le_refl _⟩

theorem Later.trans {st st' st'' : RenderState} (h : st.Later st') (h' : st'.Later st'') :
    st.Later st'' :=
  ⟨h.counter.trans h'.counter, h'.localStem.trans h.localStem, h.drawn.trans h'.drawn⟩

namespace Follows

variable {names : Names} {d d' : Outline} {st st' : RenderState}

theorem later (h : st.Follows names d) (h' : st'.Follows names d') (hg : d.Grows d') :
    st.Later st' := by
  have hkept := hg.kept.length_le
  have hreads := hg.reads.length_le
  constructor
  · rw [h.counter, h'.counter]
    omega
  · rw [h.localStem, h'.localStem]
  · rw [h.drawn, h'.drawn]
    omega

/-- A local is found under the name of its place. -/
theorem get? (h : st.Follows names d) (name : String) :
    st.locals.get? name = (d.place? name).map names.localVar := by
  have hshown : st.locals.get? name =
      ((st.locals.toList.map CachedRead.shown).find? fun r => r.text = name).map (·.name) := by
    rw [ReadCache.get?_eq, List.find?_map, Option.map_map]
    rfl
  rw [hshown, h.locals, List.mapIdx_eq_zipIdx_map, List.find?_map, Option.map_map,
    Outline.place?, Option.map_map]
  rfl

/-- The fields have the names drawn so far, each of them once. -/
theorem fieldNames (h : st.Follows names d) :
    st.fields.toList.map (·.name) =
      namesBetween names.fieldStem names.firstField st.counter.value := by
  rw [h.fields, h.counter, map_name_fieldRow]

/-- So do the locals. -/
theorem localNames (h : st.Follows names d) :
    st.locals.toList.map (·.name) =
      namesBetween names.localStem names.firstLocal st.locals.names.value := by
  have hshown := congrArg (List.map (·.name)) h.locals
  rw [List.map_map] at hshown
  refine hshown.trans ?_
  rw [h.drawn, namesBetween, Nat.add_sub_cancel_left]
  apply List.ext_getElem?
  intro j
  by_cases hj : j < d.reads.length <;> simp [OpenRead.shown, Names.localVar, hj]

/-- All names of locals come from the cache's own counter. -/
theorem namesDrawn (h : st.Follows names d) : st.locals.Drawn := by
  intro r hr
  have hname : r.name ∈ st.locals.toList.map (·.name) := List.mem_map_of_mem hr
  rw [h.localNames] at hname
  obtain ⟨n, -, hlast, hrn⟩ := mem_namesBetween.mp hname
  exact ⟨n, hlast, by rw [h.localStem, hrn]⟩

end Follows
end RenderState

/-- From states with the first outline every run succeeds that does not run out of numbers. Whatever
its names are, it renders the open fragment under them and leaves the second outline. -/
structure Sketches (m : RenderM Fragment) (d : Outline) (t : OpenFragment) (d' : Outline) :
    Prop where
  leads : d.Leads t d'
  runs : ∀ {names st}, st.Follows names d →
    Ends m st (fun f st' => t.Describes names f ∧ st'.Follows names d')
      (fun e st' => st'.Exhausted e ∧ st.Later st')

/-- From states with the outline every run fails, whatever its names are, with one error or for want
of a number. Numbers were drawn by then, if anything. -/
structure Breaks (m : RenderM Fragment) (d : Outline) (e : BuildError) : Prop where
  runs : ∀ {names st}, st.Follows names d →
    Ends m st (fun _ _ => False) (fun e' st' => (st'.Exhausted e' ∨ e' = e) ∧ st.Later st')

/-- From states with one outline every run ends in one way, whatever its names are. -/
inductive Outlined (m : RenderM Fragment) (d : Outline) (fails : BuildError → Prop) : Prop
  | ok {t : OpenFragment} {d' : Outline} (h : Sketches m d t d')
  | error (e : BuildError) (hf : fails e) (h : Breaks m d e)

section Bind

variable {m : RenderM Fragment} {d d₁ : Outline} {e : BuildError}

/-- A run that fails at once, with the state as it is. -/
theorem breaks_of_eq (h : ∀ st, m st = .error e st) : Breaks m d e := by
  refine ⟨fun {_ st} _ => ?_⟩
  unfold Ends
  rw [h st]
  exact ⟨.inr rfl, .refl st⟩

theorem Breaks.bind (h : Breaks m d e) (k : Fragment → RenderM Fragment) :
    Breaks (m >>= k) d e :=
  ⟨fun hst => (h.runs hst).bind fun _ _ => False.elim⟩

/-- What goes on from the second outline goes on from the first one. -/
theorem Sketches.bind_ends {t : OpenFragment} {k : Fragment → RenderM Fragment}
    (h : Sketches m d t d₁) {names : Names} {st : RenderState} (hst : st.Follows names d)
    {done : Fragment → RenderState → Prop} {failed : BuildError → RenderState → Prop}
    (hfailed : ∀ e st', st'.Exhausted e → failed e st')
    (hk : ∀ {f st}, t.Describes names f → st.Follows names d₁ →
      Ends (k f) st done (fun e st' => failed e st' ∧ st.Later st')) :
    Ends (m >>= k) st done (fun e st' => failed e st' ∧ st.Later st') := by
  refine ((h.runs hst).mono (fun _ _ h => h) ?_).bind ?_
  · intro e st' hout
    exact ⟨hfailed e st' hout.1, hout.2⟩
  · intro f st₁ hf
    refine (hk hf.1 hf.2).mono (fun _ _ h => h) ?_
    intro e st' hout
    exact ⟨hout.1, (hst.later hf.2 h.leads.grows).trans hout.2⟩

/-- What goes on from the second outline and fails, fails from the first one on. -/
theorem Sketches.bind_breaks {t : OpenFragment} {k : Fragment → RenderM Fragment}
    (h : Sketches m d t d₁)
    (hk : ∀ {names f}, t.Describes names f → Breaks (k f) d₁ e) : Breaks (m >>= k) d e :=
  ⟨fun hst => h.bind_ends hst (fun _ _ => .inl) fun hf hst₁ => (hk hf).runs hst₁⟩

end Bind

namespace RenderM

variable {names : Names} {d : Outline} {st : RenderState}

theorem hoist_follows (hst : st.Follows names d) (v : Value) (ty : Ty) :
    Ends (hoist v ty) st
      (fun f st' => f = ⟨.field (names.field d.kept.length), ty⟩ ∧
        st'.Follows names (d.addField v ty))
      (fun e st' => st'.Exhausted e ∧ st.Later st') := by
  have hname : numbered st.fields.stem st.counter.value = names.field d.kept.length := by
    rw [hst.fieldStem, hst.counter]
    rfl
  refine (hoist_runs v ty st).mono ?_ ?_
  · intro f st' h
    obtain ⟨rfl, rfl⟩ := h
    refine ⟨by rw [hname], hst.fieldStem, ?_, ?_, hst.localStem, hst.locals, hst.drawn⟩
    · rw [RenderState.fields_withField, hst.fields, hname, Outline.addField, fieldRow_append]
      rfl
    · have hcounter := hst.counter
      show st.counter.value + 1 = _
      simp only [Outline.addField, List.length_append, List.length_singleton]
      omega
  · intro e st' h
    rw [h.2]
    exact ⟨h.1, .refl st⟩

/-- A variable that no local keeps yet gets the next local. -/
theorem declare_follows (hst : st.Follows names d) {t : OpenFragment} {f : Fragment}
    (hf : t.Describes names f) {name : String} (hnew : d.place? name = none) :
    Ends (declare name f) st
      (fun g st' => g = ⟨.localVar (names.localVar d.reads.length), f.ty⟩ ∧
        st'.Follows names (d.addLocal ⟨name, t.text, t.ty⟩))
      (fun e st' => st'.Exhausted e ∧ st.Later st') := by
  have hget : st.locals.get? name = none := by
    rw [hst.get? name, hnew]
    rfl
  have hname : st.locals.nextName = names.localVar d.reads.length := by
    rw [ReadCache.nextName, hst.localStem, hst.drawn]
    rfl
  refine (declare_runs name f st).mono ?_ ?_
  · intro g st' h
    obtain ⟨hget, -, rfl, rfl⟩ := h
    refine ⟨by rw [hname], hst.fieldStem, hst.fields, hst.counter, hst.localStem, ?_, ?_⟩
    · have hheld : CachedRead.shown ⟨name, st.locals.nextName, ⟨f.code, f.ty⟩⟩ =
          OpenRead.shown names d.reads.length ⟨name, t.text, t.ty⟩ := by
        have htext : f.code.print = OpenText.fill names t.text := hf.text
        simp only [CachedRead.shown, OpenRead.shown, hname, htext, hf.ty]
      rw [RenderState.locals_withLocal, List.map_append, hst.locals, List.map_singleton, hheld]
      simp [Outline.addLocal, List.mapIdx_append]
    · have hdrawn := hst.drawn
      show st.locals.names.value + 1 = _
      simp only [Outline.addLocal, List.length_append, List.length_singleton]
      omega
  · intro e st' h
    rcases h with ⟨hout, rfl⟩ | ⟨hclash, -⟩
    · exact ⟨hout, .refl _⟩
    · obtain ⟨r, hr, hsame⟩ := hclash hget
      exact absurd hsame (hst.namesDrawn.free r hr)

/-- A variable that a local keeps cannot get another one. -/
theorem declare_breaks {name : String} {j : Nat} (hold : d.place? name = some j) (f : Fragment) :
    Breaks (declare name f) d (.clash (.readCached name)) := by
  refine ⟨fun {names st} hst => ?_⟩
  have hget : st.locals.get? name ≠ none := by
    rw [hst.get? name, hold]
    simp
  unfold Ends
  rw [declare_eq]
  by_cases hlast : st.locals.names.value < Counter.last
  · rw [if_pos hlast, dif_neg hget]
    exact ⟨.inr rfl, Nat.le_refl _, rfl, Nat.le_succ _⟩
  · rw [if_neg hlast]
    exact ⟨.inl (.locals (Nat.not_lt.mp hlast)), .refl st⟩

end RenderM

/-- No variable of the formula is cached inside a cache. -/
def Store.CachesOnceFrom (s : Store) (root : NodeId) : Prop :=
  ∀ id n, s.Reaches root id → s.get? id = some n → n.kind = .var → ¬ n.emission.Nests

theorem Store.CachesOnceFrom.below {s : Store} {id child : NodeId} (h : s.CachesOnceFrom id)
    (hc : s.Child id child) : s.CachesOnceFrom child :=
  fun other n hr => h other n (hr.below hc)

theorem Store.cachesOnceFrom_of_all {s : Store} (h : ∀ n ∈ s.nodes, ¬ n.emission.Nests)
    (root : NodeId) : s.CachesOnceFrom root :=
  fun _ n _ hn _ => h n (Array.mem_of_getElem? hn)

/-- Caching skips what is cached, so no change puts a cache inside a cache. -/
theorem Store.Rewrite.cachesOnceFrom {caching : Bool} {s t : Store} (h : Rewrite caching s t)
    {root : NodeId} (hs : s.CachesOnceFrom root) : t.CachesOnceFrom root := by
  intro id n hr hn hk
  have hr' : s.Reaches root id := (Rewrites.one h).reaches hr
  rcases h.get?_cases hn with hn | ⟨v, hconst, -⟩ | ⟨e, hc, -, he, -⟩
  · exact hs id n hr' hn hk
  · rw [hk] at hconst
    cases hconst
  · intro hnests
    obtain ⟨inner, hinner⟩ := hnests
    rw [he] at hinner
    cases hinner
    cases hc

theorem Store.Rewrites.cachesOnceFrom {caching : Bool} {s t : Store} (h : Rewrites caching s t)
    {root : NodeId} (hs : s.CachesOnceFrom root) : t.CachesOnceFrom root :=
  h.keeps (P := fun a => a.CachesOnceFrom root) (fun hab ha => hab.cachesOnceFrom ha) hs

namespace RenderM

variable {ctx : Context} {d : Outline} {fails : BuildError → Prop}

theorem hoist_sketches (v : Value) (ty : Ty) (d : Outline) :
    Sketches (hoist v ty) d ⟨[.text "Self::", .field d.kept.length], ty⟩ (d.addField v ty) := by
  refine ⟨⟨d.grows_addField v ty, fun h => h.addField v ty, ?_, fun names => ?_⟩, ?_⟩
  · refine OpenText.Within.cons trivial (OpenText.Within.cons ?_ OpenText.within_nil)
    simp [OpenPiece.Within, Outline.addField]
  · rw [OpenText.fill_cons]
    exact Text.isBlank_append_left (show Text.isBlank "Self::" = false by decide) _
  · intro names st hst
    refine (hoist_follows hst v ty).mono ?_ fun _ _ h => h
    intro f st' h
    obtain ⟨rfl, hst'⟩ := h
    refine ⟨⟨?_, rfl⟩, hst'⟩
    simp [Fragment.text, OpenPiece.fill]

theorem const_sketches (v : Value) (d : Outline) :
    Sketches (pure (.const v)) d ⟨[.text v.literal], v.ty⟩ d := by
  refine ⟨⟨.refl d, fun h => h, .cons trivial OpenText.within_nil, fun names => ?_⟩, ?_⟩
  · rw [OpenText.fill_cons]
    exact Text.isBlank_append_left v.isBlank_literal _
  · intro names st hst
    refine Ends.pure ⟨⟨?_, rfl⟩, hst⟩
    simp [Fragment.text, Fragment.const, OpenPiece.fill]

theorem readInPlace_sketches (ctx : Context) (name : String) (d : Outline) :
    Sketches (readVariable ctx name .inPlace) d
      ⟨[.text (Fragment.read ctx name).text], ctx.typeOf name⟩ d := by
  refine ⟨⟨.refl d, fun h => h, .cons trivial OpenText.within_nil, fun names => ?_⟩, ?_⟩
  · rw [OpenText.fill_cons]
    exact Text.isBlank_append_left (Fragment.isBlank_read ctx name) _
  · intro names st hst
    exact Ends.pure ⟨⟨by simp [OpenPiece.fill], rfl⟩, hst⟩

/-- A variable that a local keeps is read from there. -/
theorem readVariable_held {name : String} {j : Nat} (hplace : d.place? name = some j)
    (inner : Emission) :
    Sketches (readVariable ctx name (.cached inner)) d
      ⟨[.localVar j], inner.declared?.getD (ctx.typeOf name)⟩ d := by
  refine ⟨⟨.refl d, fun h => h, ?_, fun names => ?_⟩, ?_⟩
  · exact OpenText.Within.cons (Outline.lt_of_place? hplace) OpenText.within_nil
  · rw [OpenText.fill_cons]
    exact Text.isBlank_append_left (Text.isBlank_numbered _ _) _
  · intro names st hst
    have hget : cachedLocal? name st = .ok (some (names.localVar j)) st := by
      rw [cachedLocal?, hst.get? name, hplace]
      rfl
    rw [readVariable]
    refine Ends.of_eq (bind_of_ok hget) (Ends.pure ⟨⟨?_, rfl⟩, hst⟩)
    simp [Fragment.text, OpenPiece.fill]

/-- A variable that no local keeps goes through the inner way first. -/
theorem readVariable_missed {names : Names} {st : RenderState} (hst : st.Follows names d)
    {name : String} (hplace : d.place? name = none) (inner : Emission) :
    readVariable ctx name (.cached inner) st =
      (readVariable ctx name inner >>= declare name) st := by
  have hget : cachedLocal? name st = .ok none st := by
    rw [cachedLocal?, hst.get? name, hplace]
    rfl
  rw [readVariable, bind_of_ok hget]

/-- Then a new local keeps what that reads. -/
theorem readVariable_declares {name : String} {inner : Emission} {t : OpenFragment}
    {d₁ : Outline} (hplace : d.place? name = none)
    (h : Sketches (readVariable ctx name inner) d t d₁) (hplace₁ : d₁.place? name = none) :
    Sketches (readVariable ctx name (.cached inner)) d ⟨[.localVar d₁.reads.length], t.ty⟩
      (d₁.addLocal ⟨name, t.text, t.ty⟩) := by
  refine ⟨⟨h.leads.grows.trans (d₁.grows_addLocal _),
    fun hd => (h.leads.closed hd).addLocal h.leads.covers, ?_, fun names => ?_⟩, ?_⟩
  · refine OpenText.Within.cons ?_ OpenText.within_nil
    simp [OpenPiece.Within, Outline.addLocal]
  · rw [OpenText.fill_cons]
    exact Text.isBlank_append_left (Text.isBlank_numbered _ _) _
  · intro names st hst
    refine Ends.of_eq (readVariable_missed hst hplace inner) ?_
    refine h.bind_ends hst (fun _ _ hout => hout) fun {f st₁} hf hst₁ => ?_
    refine (declare_follows hst₁ hf hplace₁).mono ?_ fun _ _ h => h
    intro g st' hg
    obtain ⟨rfl, hst'⟩ := hg
    refine ⟨⟨?_, hf.ty⟩, hst'⟩
    simp [Fragment.text, OpenPiece.fill]

/-- Reading a variable fails only through a cache inside a cache. -/
theorem readVariable_outlined (ctx : Context) (name : String) (e : Emission) (d : Outline) :
    Outlined (readVariable ctx name e) d fun _ => e.Nests := by
  induction e generalizing d with
  | inPlace => exact .ok (readInPlace_sketches ctx name d)
  | hoisted v ty => exact .ok (hoist_sketches v ty d)
  | cached inner ih =>
      cases hplace : d.place? name with
      | some j => exact .ok (readVariable_held hplace inner)
      | none =>
          cases inner with
          | inPlace =>
              exact .ok (readVariable_declares hplace (readInPlace_sketches ctx name d) hplace)
          | hoisted v ty => exact .ok (readVariable_declares hplace (hoist_sketches v ty d) hplace)
          | cached inner =>
              cases ih d with
              | error e _ h =>
                  refine .error e ⟨inner, rfl⟩ ⟨fun hst => ?_⟩
                  exact Ends.of_eq (readVariable_missed hst hplace _)
                    ((h.bind (declare name)).runs hst)
              | @ok t d₁ h =>
                  -- The inner cache may have declared the variable in the meantime.
                  cases hplace₁ : d₁.place? name with
                  | none => exact .ok (readVariable_declares hplace h hplace₁)
                  | some j =>
                      refine .error (.clash (.readCached name)) ⟨inner, rfl⟩ ⟨fun hst => ?_⟩
                      exact Ends.of_eq (readVariable_missed hst hplace _)
                        ((h.bind_breaks fun _ => declare_breaks hplace₁ _).runs hst)

theorem operation_outlined {inPlace : RenderM Fragment} (h : Outlined inPlace d fails)
    (hrender : ∀ e, e.stage? = some .render → fails e) (id : NodeId) (label : String)
    (e : Emission) : Outlined (operation id label inPlace e) d fails := by
  cases e with
  | inPlace => exact h
  | hoisted v ty => exact .ok (hoist_sketches v ty d)
  | cached inner => exact .error _ (hrender _ rfl) (breaks_of_eq fun _ => rfl)

end RenderM

namespace Store

open RenderM

variable {s : Store} {ctx : Context} {id : NodeId} {n : Node} {d : Outline}

/-- Without caches inside caches, rendering fails as rendering only. -/
def FailsRendering (s : Store) (id : NodeId) (e : BuildError) : Prop :=
  s.CachesOnceFrom id → e.stage? = some .render

theorem FailsRendering.above {child : NodeId} {e : BuildError} (h : s.FailsRendering child e)
    (hc : s.Child id child) : s.FailsRendering id e :=
  fun honce => h (honce.below hc)

theorem renderWithin_misfit (ctx : Context) (depth : Nat) {m : Misfit}
    (hi : s.inspect id = .error m) (st : RenderState) :
    s.renderWithin ctx (depth + 1) id st = .error (m.buildError .render id) st := by
  rw [renderWithin, bind_of_error (nodeAt_misfit hi)]

/-- A unary operator, when its operand is outlined. -/
theorem unary_outlined (op : UnaryOp) {x : NodeId} {operand : RenderM Fragment} (label : String)
    (hx : Outlined operand d (s.FailsRendering x)) (hc : s.Child id x) :
    Outlined (do
      let f ← operand
      let ty ← typed (op.typeAt id label f.ty)
      pure ⟨op.code ty f, ty⟩) d (s.FailsRendering id) := by
  cases hx with
  | error e hf h => exact .error e (hf.above hc) (h.bind _)
  | @ok t d₁ h =>
      cases hty : op.typeAt id label t.ty with
      | error e =>
          refine .error e (fun _ => UnaryOp.typeAt_stage hty) ?_
          refine h.bind_breaks fun hf => breaks_of_eq fun st => ?_
          rw [hf.ty, hty]
          rfl
      | ok ty =>
          obtain ⟨before, after, hprint⟩ := op.print_code ty
          refine .ok ⟨h.leads.enclose before after ty, fun hst => ?_⟩
          refine h.bind_ends hst (fun _ _ hout => hout) fun {f st₁} hf hst₁ => ?_
          rw [hf.ty, hty]
          refine Ends.pure ⟨⟨?_, rfl⟩, hst₁⟩
          rw [Fragment.text, hprint f, hf.text]
          simp [OpenPiece.fill, String.append_assoc]

/-- A binary operator, when its left operand is outlined and its right one is so whatever the left
one leaves. -/
theorem binary_outlined (op : BinaryOp) {x y : NodeId} {left right : RenderM Fragment}
    (label : String) (hx : Outlined left d (s.FailsRendering x))
    (hy : ∀ d₁, Outlined right d₁ (s.FailsRendering y)) (hcx : s.Child id x) (hcy : s.Child id y) :
    Outlined (do
      let l ← left
      let r ← right
      let ty ← typed (op.typeAt id label l.ty r.ty)
      pure ⟨op.code ty l r, ty⟩) d (s.FailsRendering id) := by
  cases hx with
  | error e hf h => exact .error e (hf.above hcx) (h.bind _)
  | @ok t d₁ h =>
      cases hy d₁ with
      | error e hf h' =>
          exact .error e (hf.above hcy) (h.bind_breaks fun _ => h'.bind _)
      | @ok u d₂ h' =>
          cases hty : op.typeAt id label t.ty u.ty with
          | error e =>
              refine .error e (fun _ => BinaryOp.typeAt_stage hty) ?_
              refine h.bind_breaks fun hl => h'.bind_breaks fun hr => breaks_of_eq fun st => ?_
              rw [hl.ty, hr.ty, hty]
              rfl
          | ok ty =>
              obtain ⟨before, between, after, hprint⟩ := op.print_code ty t.ty u.ty
              refine .ok ⟨(h.leads.join h'.leads between ty).enclose before after ty, fun hst => ?_⟩
              refine h.bind_ends hst (fun _ _ hout => hout) fun {l st₁} hl hst₁ => ?_
              refine h'.bind_ends hst₁ (fun _ _ hout => hout) fun {r st₂} hr hst₂ => ?_
              rw [hl.ty, hr.ty, hty]
              refine Ends.pure ⟨⟨?_, rfl⟩, hst₂⟩
              rw [Fragment.text, hprint l r hl.ty hr.ty, hl.text, hr.text]
              simp [OpenPiece.fill, String.append_assoc]

/-- Every node has one open fragment or one failure from each outline. The induction is on the
depth, for all outlines at once: a right operand starts from what the left one has declared. -/
theorem renderWithin_outlined (s : Store) (ctx : Context) (depth : Nat) (id : NodeId)
    (d : Outline) : Outlined (s.renderWithin ctx depth id) d (s.FailsRendering id) := by
  induction depth generalizing id d with
  | zero => exact .error (.ofCycle .render id) (fun _ => rfl) (breaks_of_eq fun _ => rfl)
  | succ depth ih =>
      rcases hi : s.inspect id with m | ⟨n, shape⟩
      · exact .error _ (fun _ => m.stage_buildError id)
          (breaks_of_eq (renderWithin_misfit ctx depth hi))
      · have hn := ((s.inspect_eq_ok_iff id n shape).mp hi).1
        have hrender : ∀ e, e.stage? = some .render → s.FailsRendering id e := fun e he _ => he
        have hrun : ∀ st, s.renderWithin ctx (depth + 1) id st = _ :=
          fun st => bind_of_ok (nodeAt_ok hi)
        rw [funext hrun]
        cases shape with
        | var =>
            cases readVariable_outlined ctx n.label n.emission d with
            | ok h => exact .ok h
            | error e hnests h =>
                refine .error e (fun honce => ?_) h
                exact absurd hnests (honce id n (Reaches.refl s id) hn (kind_of_inspect hi))
        | const v =>
            exact operation_outlined (.ok (const_sketches v d)) hrender id n.label n.emission
        | unary op x =>
            have hunary := unary_outlined op n.label (ih x d) (child_of_unary hi)
            exact operation_outlined hunary hrender id n.label n.emission
        | binary op l r =>
            obtain ⟨hcl, hcr⟩ := child_of_binary hi
            have hbinary := binary_outlined op n.label (ih l d) (ih r) hcl hcr
            exact operation_outlined hbinary hrender id n.label n.emission

/-- So has every root; narrowing it depends on its type only. -/
theorem renderRoot_outlined (s : Store) (ctx : Context) (id : NodeId) (d : Outline) :
    Outlined (s.renderRoot ctx id) d (s.FailsRendering id) := by
  rcases hi : s.inspect id with m | ⟨n, shape⟩
  · refine .error _ (fun _ => m.stage_buildError id) (breaks_of_eq fun st => ?_)
    rw [renderRoot, bind_of_error (nodeAt_misfit hi)]
  · have hrun : ∀ st, s.renderRoot ctx id st = _ := fun st => bind_of_ok (nodeAt_ok hi)
    rw [funext hrun]
    cases s.renderWithin_outlined ctx s.depth id d with
    | error e hf h => exact .error e hf (h.bind _)
    | @ok t d₁ h =>
        by_cases hnarrow : n.emission.isCached ∧ t.ty = .int
        · have hleads := h.leads.enclose "(" (" as " ++ TargetType.i64.text ++ ")") t.ty
          refine .ok ⟨hleads, fun hst => ?_⟩
          refine h.bind_ends hst (fun _ _ hout => hout) fun {f st₁} hf hst₁ => ?_
          simp only [hf.ty, if_pos hnarrow]
          refine Ends.pure ⟨⟨?_, hf.ty⟩, hst₁⟩
          have htext : f.code.print = OpenText.fill _ t.text := hf.text
          simp [Fragment.text, Fragment.narrow, OpenPiece.fill, htext, String.append_assoc]
        · refine .ok ⟨h.leads, fun hst => ?_⟩
          refine h.bind_ends hst (fun _ _ hout => hout) fun {f st₁} hf hst₁ => ?_
          simp only [hf.ty, if_neg hnarrow]
          exact Ends.pure ⟨hf, hst₁⟩

end Store
end FormulaCompiler
