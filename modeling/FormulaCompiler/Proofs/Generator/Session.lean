import FormulaCompiler.Proofs.Fragment.Outline
import FormulaCompiler.Proofs.Generator.Recompiling

/-!
# Sessions of a generator

A session makes the unit of one formula. Between sessions a generator holds no reads, whatever it
was used for before, so what a session comes to, and how many names it draws, is decided by passes,
context and formula; only the names are the generator's own, and a session ends early where there is
no number left for one of them. Counters never go back, also in a session that fails. A generator
that was put together by hand with reads in it is not covered.
-/

namespace FormulaCompiler

namespace Generator

variable {g : Generator} {ctx : Context} {t u : Tree} {counters : Counters} {e : BuildError}

/-- What rendering starts from. -/
def start (g : Generator) (counters : Counters) : RenderState :=
  ⟨counters.get g.fieldCounter, ⟨g.settings.fieldStem, #[]⟩, g.locals⟩

/-- What the unit of a formula is made of; nothing, if the formula cannot be rendered. -/
def contents (g : Generator) (ctx : Context) (counters : Counters) (t : Tree) : Contents :=
  match g.prepare ctx ⟨counters, g.locals, t⟩ with
  | .ok (f, queue) work => ⟨f.text, queue.drain.1, work.locals.toList⟩
  | .error _ _ => ⟨"", [], []⟩

theorem repeated?_eq_none_iff (seen names : List String) :
    repeated? seen names = none ↔ names.Nodup ∧ ∀ name ∈ names, name ∉ seen := by
  induction names generalizing seen with
  | nil => simp [repeated?]
  | cons name rest ih =>
      by_cases hseen : name ∈ seen
      · simp [repeated?, hseen]
      · rw [repeated?, if_neg hseen, ih (name :: seen), List.nodup_cons]
        constructor
        · intro ⟨hrest, hnew⟩
          refine ⟨⟨fun hname => hnew name hname List.mem_cons_self, hrest⟩, fun other hother => ?_⟩
          rcases List.mem_cons.mp hother with rfl | hother
          · exact hseen
          · exact fun h => hnew other hother (List.mem_cons_of_mem _ h)
        · intro ⟨⟨hname, hrest⟩, hnew⟩
          refine ⟨hrest, fun other hother h => ?_⟩
          rcases List.mem_cons.mp h with rfl | h
          · exact hname hother
          · exact hnew other (List.mem_cons_of_mem _ hother) h

/-- Draining takes all fields, so none is ever found left behind: only a name that is declared twice
keeps a unit from being put together. -/
theorem assemble_eq (g : Generator) (name expression : String) (queue : FieldQueue)
    (locals : ReadCache LocalRead) :
    g.assemble name expression queue locals =
      let c : Contents := ⟨expression, queue.toList, locals.toList⟩
      match repeated? [] c.declared with
      | some twice => .error (.clash (.nameDeclared twice name))
      | none => .ok ⟨name, g.skeleton.fill (c.parts name)⟩ := rfl

/-- A unit is put together exactly when no name is declared twice. -/
theorem assemble_eq_ok_iff (g : Generator) (name expression : String) (queue : FieldQueue)
    (locals : ReadCache LocalRead) (unit : EvalUnit) :
    let c : Contents := ⟨expression, queue.toList, locals.toList⟩
    g.assemble name expression queue locals = .ok unit ↔
      c.declared.Nodup ∧ unit = ⟨name, g.skeleton.fill (c.parts name)⟩ := by
  intro c
  have hnone := repeated?_eq_none_iff [] c.declared
  simp only [List.not_mem_nil, not_false_eq_true, implies_true, and_true] at hnone
  rw [assemble_eq]
  dsimp only
  split <;> rename_i h
  · have hrepeats : ¬ c.declared.Nodup := fun hnodup => by
      have hnil := h.symm.trans (hnone.mpr hnodup)
      cases hnil
    simp [hrepeats]
  · simp only [Except.ok.injEq, hnone.mp h, true_and]
    exact eq_comm

/-- The number of the unit in a session that draws so many field numbers, and the counters after
it. -/
def draw (g : Generator) (counters : Counters) (fields : Nat) : Nat × Counters :=
  let spent := counters.set g.fieldCounter ⟨counters.peek g.fieldCounter + fields⟩
  (spent.peek g.unitCounter, spent.set g.unitCounter ⟨spent.peek g.unitCounter + 1⟩)

/-- The names of a session that draws so many field numbers. The unit's own number is drawn last,
which shows where it comes from the same counter. -/
def names (g : Generator) (counters : Counters) (fields : Nat) : Names :=
  { unit := numbered g.settings.unitStem (g.draw counters fields).1
    fieldStem := g.settings.fieldStem
    firstField := counters.peek g.fieldCounter
    localStem := g.settings.localStem
    firstLocal := g.locals.names.value }

theorem peek_draw (g : Generator) (counters : Counters) (fields : Nat) (id : CounterId) :
    (g.draw counters fields).2.peek id =
      if id = g.unitCounter then (g.draw counters fields).1 + 1
      else if id = g.fieldCounter then counters.peek id + fields
      else counters.peek id := by
  by_cases hu : id = g.unitCounter
  · simp [draw, Counters.peek, hu]
  · by_cases hf : id = g.fieldCounter
    · subst hf
      simp [draw, Counters.peek, hu]
    · simp [draw, Counters.peek, hu, hf]

theorem draw_fst (g : Generator) (counters : Counters) (fields : Nat) :
    (g.draw counters fields).1 =
      if g.unitCounter = g.fieldCounter then counters.peek g.unitCounter + fields
      else counters.peek g.unitCounter := by
  by_cases h : g.unitCounter = g.fieldCounter
  · simp [draw, Counters.peek, h]
  · simp [draw, Counters.peek, h]

/-- The unit's number is one that its counter hands out in the session. -/
theorem draw_unit (g : Generator) (counters : Counters) (fields : Nat) :
    counters.peek g.unitCounter ≤ (g.draw counters fields).1 ∧
      (g.draw counters fields).1 < (g.draw counters fields).2.peek g.unitCounter := by
  have hpeek := g.peek_draw counters fields g.unitCounter
  have hfst := g.draw_fst counters fields
  rw [if_pos rfl] at hpeek
  split at hfst <;> omega

/-- So are the numbers of its fields. -/
theorem draw_fields (g : Generator) (counters : Counters) (fields : Nat) :
    counters.peek g.fieldCounter + fields ≤ (g.draw counters fields).2.peek g.fieldCounter := by
  have hpeek := g.peek_draw counters fields g.fieldCounter
  have hfst := g.draw_fst counters fields
  by_cases h : g.unitCounter = g.fieldCounter
  · rw [if_pos h.symm] at hpeek
    rw [if_pos h, h] at hfst
    omega
  · rw [if_neg (Ne.symm h), if_pos rfl] at hpeek
    omega

theorem peek_le_draw (g : Generator) (counters : Counters) (fields : Nat) (id : CounterId) :
    counters.peek id ≤ (g.draw counters fields).2.peek id := by
  have hpeek := g.peek_draw counters fields id
  by_cases hu : id = g.unitCounter
  · have hunit := g.draw_unit counters fields
    rw [hu]
    omega
  · rw [if_neg hu] at hpeek
    split at hpeek <;> omega

theorem generate_unoptimized (h : g.pipeline.run ctx t = .error e u) (counters : Counters) :
    g.generate ctx counters t = g.finish (.error e) ⟨counters, g.locals, u⟩ := by
  have hopt : g.optimize ctx ⟨counters, g.locals, t⟩ = .error e ⟨counters, g.locals, u⟩ := by
    simp only [optimize, h]
  simp only [generate, produce_eq, bind_of_error hopt]

theorem generate_optimized (h : g.pipeline.run ctx t = .ok ⟨⟩ u) (counters : Counters) :
    (∀ unit work, g.completion ctx ⟨counters, g.locals, u⟩ = .ok unit work →
      g.generate ctx counters t = g.finish (.ok unit) work) ∧
    ∀ e work, g.completion ctx ⟨counters, g.locals, u⟩ = .error e work →
      g.generate ctx counters t = g.finish (.error e) work := by
  have hopt : g.optimize ctx ⟨counters, g.locals, t⟩ = .ok ⟨⟩ ⟨counters, g.locals, u⟩ := by
    simp only [optimize, h]
  constructor
  · intro unit work hc
    simp only [generate, produce_eq, bind_of_ok hopt, hc]
  · intro e work hc
    simp only [generate, produce_eq, bind_of_ok hopt, hc]

theorem generate_unrendered {st : RenderState} (h : g.pipeline.run ctx t = .ok ⟨⟩ u)
    (hr : u.store.renderRoot ctx u.root (g.start counters) = .error e st) :
    g.generate ctx counters t =
      g.finish (.error e) ⟨counters.set g.fieldCounter st.counter, st.locals, u⟩ := by
  have hrender : g.render ctx ⟨counters, g.locals, u⟩ =
      .error e ⟨counters.set g.fieldCounter st.counter, st.locals, u⟩ := by
    rw [start] at hr
    simp only [render, hr]
  exact (generate_optimized h counters).2 e _ (bind_of_error hrender)

theorem drawName_eq (g : Generator) (counters : Counters) (locals : ReadCache LocalRead)
    (t : Tree) :
    let n := counters.peek g.unitCounter
    g.drawName ⟨counters, locals, t⟩ =
      if n < Counter.last then
        .ok (numbered g.settings.unitStem n) ⟨counters.set g.unitCounter ⟨n + 1⟩, locals, t⟩
      else .error (.clash .numbersExhausted) ⟨counters, locals, t⟩ := by
  intro n
  by_cases h : (counters.get g.unitCounter).value < Counter.last
  · rw [if_pos (show n < Counter.last from h)]
    simp only [drawName, Counters.next, Counter.next_of_lt h]
    rfl
  · rw [if_neg (show ¬ n < Counter.last from h)]
    simp only [drawName, Counters.next, Counter.next_of_le (Nat.not_lt.mp h), Counters.set_get]

/-- Once a text is rendered, the unit is put together under its name, if there is a number for it. -/
theorem generate_rendered {f : Fragment} {st : RenderState} (h : g.pipeline.run ctx t = .ok ⟨⟩ u)
    (hr : u.store.renderRoot ctx u.root (g.start counters) = .ok f st)
    (hshows : Text.isBlank f.text = false) :
    let spent := counters.set g.fieldCounter st.counter
    let n := spent.peek g.unitCounter
    g.generate ctx counters t =
      if n < Counter.last then
        g.finish (g.assemble (numbered g.settings.unitStem n) f.text st.fields st.locals)
          ⟨spent.set g.unitCounter ⟨n + 1⟩, st.locals, u⟩
      else g.finish (.error (.clash .numbersExhausted)) ⟨spent, st.locals, u⟩ := by
  intro spent
  dsimp only
  have hrender : g.render ctx ⟨counters, g.locals, u⟩ = .ok (f, st.fields) ⟨spent, st.locals, u⟩ := by
    rw [start] at hr
    simp only [render, hr]
    rfl
  have htext : requireText f.text ⟨spent, st.locals, u⟩ = .ok ⟨⟩ ⟨spent, st.locals, u⟩ := by
    simp [requireText, hshows]
  have hname := g.drawName_eq spent st.locals u
  have hcompletion : g.completion ctx ⟨counters, g.locals, u⟩ = _ :=
    (bind_of_ok hrender).trans (bind_of_ok htext)
  by_cases hn : spent.peek g.unitCounter < Counter.last
  · rw [if_pos hn]
    have hname : g.drawName ⟨spent, st.locals, u⟩ = _ := hname.trans (if_pos hn)
    have hcompletion := hcompletion.trans (bind_of_ok hname)
    cases hassemble : g.assemble (numbered g.settings.unitStem (spent.peek g.unitCounter)) f.text
        st.fields st.locals with
    | ok unit =>
        simp only [hassemble] at hcompletion
        exact (generate_optimized h counters).1 unit _ hcompletion
    | error e =>
        simp only [hassemble] at hcompletion
        exact (generate_optimized h counters).2 e _ hcompletion
  · rw [if_neg hn]
    have hname : g.drawName ⟨spent, st.locals, u⟩ = _ := hname.trans (if_neg hn)
    exact (generate_optimized h counters).2 _ _ (hcompletion.trans (bind_of_error hname))

theorem prepare_rendered {f : Fragment} {st : RenderState} (h : g.pipeline.run ctx t = .ok ⟨⟩ u)
    (hr : u.store.renderRoot ctx u.root (g.start counters) = .ok f st) :
    g.prepare ctx ⟨counters, g.locals, t⟩ =
      .ok (f, st.fields) ⟨counters.set g.fieldCounter st.counter, st.locals, u⟩ := by
  have hopt : g.optimize ctx ⟨counters, g.locals, t⟩ = .ok ⟨⟩ ⟨counters, g.locals, u⟩ := by
    simp only [optimize, h]
  refine (bind_of_ok hopt).trans ?_
  rw [start] at hr
  simp only [render, hr]

/-- What is prepared for a unit was optimised and rendered. -/
theorem rendered_of_prepare {f : Fragment} {queue : FieldQueue} {work : Work}
    (h : g.prepare ctx ⟨counters, g.locals, t⟩ = .ok (f, queue) work) :
    ∃ u st, g.pipeline.run ctx t = .ok ⟨⟩ u ∧
      u.store.renderRoot ctx u.root (g.start counters) = .ok f st ∧
      queue = st.fields ∧ work.locals = st.locals := by
  cases hrun : g.pipeline.run ctx t with
  | error e u =>
      have hopt : g.optimize ctx ⟨counters, g.locals, t⟩ = .error e ⟨counters, g.locals, u⟩ := by
        simp only [optimize, hrun]
      cases h.symm.trans (bind_of_error hopt)
  | ok _ u =>
      cases hrender : u.store.renderRoot ctx u.root (g.start counters) with
      | ok f' st =>
          cases h.symm.trans (prepare_rendered hrun hrender)
          exact ⟨u, st, rfl, hrender, rfl, rfl⟩
      | error e st =>
          have hopt : g.optimize ctx ⟨counters, g.locals, t⟩ = .ok ⟨⟩ ⟨counters, g.locals, u⟩ := by
            simp only [optimize, hrun]
          have hprepare : g.prepare ctx ⟨counters, g.locals, t⟩ = _ := bind_of_ok hopt
          rw [start] at hrender
          simp only [h, render, hrender] at hprepare
          cases hprepare

/-- The contents are what rendering gives. -/
theorem contents_rendered {f : Fragment} {st : RenderState} (h : g.pipeline.run ctx t = .ok ⟨⟩ u)
    (hr : u.store.renderRoot ctx u.root (g.start counters) = .ok f st) :
    g.contents ctx counters t = ⟨f.text, st.fields.toList, st.locals.toList⟩ := by
  simp only [contents, prepare_rendered h hr]
  rfl

/-- The error says that a counter of the generator has come to its end, and so it has. -/
inductive Exhausted (g : Generator) (after : Generation) : BuildError → Prop
  | units (h : Counter.last ≤ after.counters.peek g.unitCounter) :
      Exhausted g after (.clash .numbersExhausted)
  | fields (h : Counter.last ≤ after.counters.peek g.fieldCounter) :
      Exhausted g after (.clash .numbersExhausted)
  | locals (h : Counter.last ≤ after.generator.locals.names.value) :
      Exhausted g after (.clash .localNumbersExhausted)

/-- The session failed for want of a number. -/
def RanOut (g : Generator) (after : Generation) : Prop :=
  ∃ e, after.result = .error e ∧ g.Exhausted after e

/-- The session failed with the error. Numbers for fields and locals were drawn by then, if
anything. -/
def Fails (g : Generator) (counters : Counters) (e : BuildError) (after : Generation) : Prop :=
  ∃ st u, (g.start counters).Later st ∧
    after = g.finish (.error e) ⟨counters.set g.fieldCounter st.counter, st.locals, u⟩

namespace Fails

variable {after : Generation}

theorem result (h : g.Fails counters e after) : after.result = .error e := by
  obtain ⟨st, u, -, rfl⟩ := h
  rfl

end Fails

/-- What rendering runs out of, the session does. -/
theorem exhausted_of_render {st : RenderState} (h : st.Exhausted e) (u : Tree) :
    g.Exhausted (g.finish (.error e) ⟨counters.set g.fieldCounter st.counter, st.locals, u⟩) e := by
  cases h with
  | fields h =>
      refine .fields ?_
      change Counter.last ≤ (counters.set g.fieldCounter st.counter).peek g.fieldCounter
      simpa [Counters.peek] using h
  | locals h => exact .locals h

/-- No reads are held, and locals are named as the settings say. -/
structure Idle (g : Generator) : Prop where
  empty : g.locals.toList = []
  stem : g.locals.stem = g.settings.localStem

theorem Idle.follows (hg : g.Idle) (counters : Counters) (fields : Nat) :
    (g.start counters).Follows (g.names counters fields) {} := by
  refine ⟨rfl, rfl, rfl, hg.stem, ?_, rfl⟩
  change g.locals.toList.map CachedRead.shown = []
  rw [hg.empty]
  rfl

end Generator

/-- What becomes of a formula, whatever names are drawn for it: the passes fail, rendering fails, or
there is one open text for its unit. -/
inductive Forecast (passes : List Pass) (ctx : Context) (t : Tree) : Prop
  | unoptimized {e : BuildError} {u : Tree} (hrun : Pipeline.runAll ctx passes t = .error e u)
  | unrendered {e : BuildError} {u : Tree} (hrun : Pipeline.runAll ctx passes t = .ok ⟨⟩ u)
      (hfails : u.store.FailsRendering u.root e)
      (h : Breaks (u.store.renderRoot ctx u.root) {} e)
  | drafted {u : Tree} {draft : OpenFragment} {d : Outline}
      (hrun : Pipeline.runAll ctx passes t = .ok ⟨⟩ u)
      (h : Sketches (u.store.renderRoot ctx u.root) {} draft d)

theorem forecast (passes : List Pass) (ctx : Context) (t : Tree) : Forecast passes ctx t := by
  cases hrun : Pipeline.runAll ctx passes t with
  | error e u => exact .unoptimized hrun
  | ok _ u =>
      cases u.store.renderRoot_outlined ctx u.root {} with
      | error e hfails h => exact .unrendered hrun hfails h
      | ok h => exact .drafted hrun h

/-- Default passes put no cache inside a cache, so rendering after them fails as rendering. -/
theorem stage_of_unrendered {passes : List Pass} {ctx : Context} {t u : Tree} {e : BuildError}
    (hdefault : ∀ p ∈ passes, p ∈ Pipeline.default.passes) (ht : t.store.Acyclic)
    (honce : t.store.CachesOnceFrom t.root) (hrun : Pipeline.runAll ctx passes t = .ok ⟨⟩ u)
    (hfails : u.store.FailsRendering u.root e) : e.stage? = some .render := by
  obtain ⟨hrewrites, hroot⟩ := (Pipeline.runAll_ends hdefault ctx t ht).of_ok hrun
  refine hfails ?_
  rw [hroot]
  exact hrewrites.cachesOnceFrom honce

namespace Generator

variable {g : Generator} {ctx : Context} {t u : Tree} {e : BuildError}

/-- A session that a pass ends draws no numbers. -/
theorem unoptimized_fails (hrun : g.pipeline.run ctx t = .error e u) (counters : Counters) :
    g.Fails counters e (g.generate ctx counters t) := by
  refine ⟨g.start counters, u, .refl _, ?_⟩
  rw [generate_unoptimized hrun]
  simp [start]

/-- A session that rendering ends draws numbers, if anything. -/
theorem Idle.unrendered_fails (hg : g.Idle) (hrun : g.pipeline.run ctx t = .ok ⟨⟩ u)
    (h : Breaks (u.store.renderRoot ctx u.root) {} e) (counters : Counters) :
    let after := g.generate ctx counters t
    ∃ e', g.Fails counters e' after ∧ (g.Exhausted after e' ∨ e' = e) := by
  intro after
  have hruns := h.runs (hg.follows counters 0)
  cases hrender : u.store.renderRoot ctx u.root (g.start counters) with
  | ok f st => exact (hruns.of_ok hrender).elim
  | error e' st =>
      obtain ⟨hcause, hlater⟩ := hruns.of_error hrender
      have hafter : after = _ := generate_unrendered hrun hrender
      refine ⟨e', ⟨st, u, hlater, hafter⟩, hcause.imp_left fun hout => ?_⟩
      rw [hafter]
      exact exhausted_of_render hout u

/-- A session with an open text for its unit fills in its own names, and fails only where one of
them is declared twice or has no number left. -/
theorem Idle.generate_drafted {draft : OpenFragment} {d : Outline} (hg : g.Idle)
    (hrun : g.pipeline.run ctx t = .ok ⟨⟩ u)
    (h : Sketches (u.store.renderRoot ctx u.root) {} draft d) (counters : Counters) :
    let after := g.generate ctx counters t
    (∃ e, g.Fails counters e after ∧ g.Exhausted after e) ∨
    ∃ (f : Fragment) (st : RenderState), draft.Describes (g.names counters d.kept.length) f ∧
      st.Follows (g.names counters d.kept.length) d ∧
      g.contents ctx counters t = ⟨f.text, st.fields.toList, st.locals.toList⟩ ∧
      after = g.finish (g.assemble (g.names counters d.kept.length).unit f.text st.fields
        st.locals) ⟨(g.draw counters d.kept.length).2, st.locals, u⟩ := by
  intro after
  have hstart := hg.follows counters d.kept.length
  have hruns := h.runs hstart
  cases hrender : u.store.renderRoot ctx u.root (g.start counters) with
  | error e st =>
      obtain ⟨hout, hlater⟩ := hruns.of_error hrender
      have hafter : after = _ := generate_unrendered hrun hrender
      refine .inl ⟨e, ⟨st, u, hlater, hafter⟩, ?_⟩
      rw [hafter]
      exact exhausted_of_render hout u
  | ok f st =>
      obtain ⟨hf, hst⟩ := hruns.of_ok hrender
      have hshows : Text.isBlank f.text = false := by
        rw [hf.text]
        exact h.leads.shows _
      -- The counter that rendering leaves is the one that the outline foretells.
      have hcounter : st.counter = ⟨counters.peek g.fieldCounter + d.kept.length⟩ :=
        congrArg Counter.mk hst.counter
      have hafter : after = _ := generate_rendered hrun hrender hshows
      by_cases hn : (counters.set g.fieldCounter st.counter).peek g.unitCounter < Counter.last
      · rw [if_pos hn, hcounter] at hafter
        exact .inr ⟨f, st, hf, hst, contents_rendered hrun hrender, hafter⟩
      · rw [if_neg hn] at hafter
        refine .inl ⟨_, ⟨st, u, hstart.later hst h.leads.grows, hafter⟩, ?_⟩
        rw [hafter]
        exact .units (Nat.not_lt.mp hn)

/-- With the stems of fields and locals apart, no name is declared twice. -/
theorem Idle.generate_apart {draft : OpenFragment} {d : Outline} (hg : g.Idle)
    (hstems : StemsApart 0 g.settings.fieldStem g.settings.localStem)
    (hrun : g.pipeline.run ctx t = .ok ⟨⟩ u)
    (h : Sketches (u.store.renderRoot ctx u.root) {} draft d) (counters : Counters) :
    let after := g.generate ctx counters t
    (∃ e, g.Fails counters e after ∧ g.Exhausted after e) ∨
    ∃ (f : Fragment) (st : RenderState), draft.Describes (g.names counters d.kept.length) f ∧
      st.Follows (g.names counters d.kept.length) d ∧
      let c : Contents := ⟨f.text, st.fields.toList, st.locals.toList⟩
      let name := (g.names counters d.kept.length).unit
      g.contents ctx counters t = c ∧ c.declared.Nodup ∧
      after = g.finish (.ok ⟨name, g.skeleton.fill (c.parts name)⟩)
        ⟨(g.draw counters d.kept.length).2, st.locals, u⟩ := by
  intro after
  rcases hg.generate_drafted hrun h counters with hfails | ⟨f, st, hf, hst, hcontents, hafter⟩
  · exact .inl hfails
  · have hnodup : (Contents.mk f.text st.fields.toList st.locals.toList).declared.Nodup := by
      rw [Contents.declared, hst.fieldNames, hst.localNames]
      exact nodup_namesBetween_append hstems ..
    refine .inr ⟨f, st, hf, hst, hcontents, hnodup, hafter.trans ?_⟩
    rw [(g.assemble_eq_ok_iff ..).mpr ⟨hnodup, rfl⟩]

/-- Generating changes the reads of a generator and nothing else of it. -/
theorem generator_generate (g : Generator) (ctx : Context) (counters : Counters) (t : Tree) :
    (g.generate ctx counters t).generator =
      { g with locals := (g.generate ctx counters t).generator.locals } := by
  unfold generate
  split <;> rfl

/-- How a session leaves things: no read is held, and no counter went back. -/
structure Onward (g : Generator) (counters : Counters) (after : Generation) : Prop where
  idle : after.generator.Idle
  counters : ∀ id, counters.peek id ≤ after.counters.peek id
  drawn : g.locals.names.value ≤ after.generator.locals.names.value

theorem Fails.onward {after : Generation} (h : g.Fails counters e after) (hg : g.Idle) :
    Onward g counters after := by
  obtain ⟨st, u, hlater, rfl⟩ := h
  refine ⟨⟨rfl, hlater.localStem.trans hg.stem⟩, fun id => ?_, hlater.drawn⟩
  change counters.peek id ≤ (counters.set g.fieldCounter st.counter).peek id
  by_cases hid : id = g.fieldCounter
  · have hcounter : counters.peek g.fieldCounter ≤ st.counter.value := hlater.counter
    simpa [Counters.peek, hid] using hcounter
  · simp [Counters.peek, hid]

theorem Idle.onward (hg : g.Idle) (ctx : Context) (counters : Counters) (t : Tree) :
    Onward g counters (g.generate ctx counters t) := by
  cases forecast g.pipeline.enabled ctx t with
  | unoptimized hrun => exact (unoptimized_fails hrun counters).onward hg
  | unrendered hrun _ h =>
      obtain ⟨e, hfails, -⟩ := hg.unrendered_fails hrun h counters
      exact hfails.onward hg
  | @drafted u draft d hrun h =>
      rcases hg.generate_drafted hrun h counters with
        ⟨e, hfails, -⟩ | ⟨f, st, -, hst, -, hgenerate⟩
      · exact hfails.onward hg
      · rw [hgenerate]
        refine ⟨⟨rfl, hst.localStem⟩, g.peek_le_draw counters d.kept.length, ?_⟩
        change g.locals.names.value ≤ st.locals.names.value
        have hdrawn : st.locals.names.value = g.locals.names.value + d.reads.length := hst.drawn
        omega

/-- A unit that was made holds its contents, and its names have numbers that the session drew. -/
theorem Idle.made (hg : g.Idle) {counters : Counters} {unit : EvalUnit}
    (h : (g.generate ctx counters t).result = .ok unit) :
    let after := g.generate ctx counters t
    let c := g.contents ctx counters t
    unit.source = g.skeleton.fill (c.parts unit.name) ∧ c.declared.Nodup ∧
    (∃ n, counters.peek g.unitCounter ≤ n ∧ n < after.counters.peek g.unitCounter ∧
      unit.name = numbered g.settings.unitStem n) ∧
    (∃ last ≤ after.counters.peek g.fieldCounter, c.fields.map (·.name) =
      namesBetween g.settings.fieldStem (counters.peek g.fieldCounter) last) ∧
    c.locals.map (·.name) = namesBetween g.settings.localStem g.locals.names.value
      after.generator.locals.names.value := by
  intro after c
  have hnot : ∀ {e}, ¬ g.Fails counters e (g.generate ctx counters t) := by
    intro e hfails
    cases h.symm.trans hfails.result
  cases forecast g.pipeline.enabled ctx t with
  | unoptimized hrun => exact absurd (unoptimized_fails hrun counters) hnot
  | unrendered hrun _ hbreaks =>
      obtain ⟨e, hfails, -⟩ := hg.unrendered_fails hrun hbreaks counters
      exact absurd hfails hnot
  | @drafted u draft d hrun hd =>
      rcases hg.generate_drafted hrun hd counters with
        ⟨e, hfails, -⟩ | ⟨f, st, -, hst, hcontents, hgenerate⟩
      · exact absurd hfails hnot
      · rw [hgenerate] at h
        obtain ⟨hnodup, rfl⟩ := (g.assemble_eq_ok_iff ..).mp h
        have hafter : after = _ := hgenerate
        have hc : c = _ := hcontents
        rw [hafter, hc]
        obtain ⟨hfirst, hlast⟩ := g.draw_unit counters d.kept.length
        refine ⟨rfl, hnodup, ⟨_, hfirst, hlast, rfl⟩, ⟨st.counter.value, ?_, hst.fieldNames⟩, ?_⟩
        · rw [hst.counter]
          exact g.draw_fields counters d.kept.length
        · exact hst.localNames

/-- Generators as they come about: made from settings, set up, and used any number of times for any
formulas, with or without success. -/
inductive InUse : Generator → Prop
  | made {files : Files} {settings : Settings} {g : Generator}
      (h : ofSettings files settings = .ok g) : InUse g
  | withCounters {g : Generator} (h : InUse g) (unitCounter fieldCounter : CounterId) :
      InUse (g.withCounters unitCounter fieldCounter)
  | addPass {g : Generator} (h : InUse g) (pass : Pass) : InUse (g.addPass pass)
  | used {g : Generator} (h : InUse g) (ctx : Context) (counters : Counters) (t : Tree) :
      InUse (g.generate ctx counters t).generator

/-- Between sessions no reads are held, whatever came before. -/
theorem InUse.idle (h : g.InUse) : g.Idle := by
  induction h with
  | @made files settings g h =>
      unfold ofSettings at h
      obtain ⟨skeleton, -, hg⟩ := exists_ok_of_bind h
      cases hg
      exact ⟨rfl, rfl⟩
  | withCounters _ _ _ ih => exact ⟨ih.empty, ih.stem⟩
  | addPass _ _ ih => exact ⟨ih.empty, ih.stem⟩
  | used _ ctx counters t ih => exact (ih.onward ctx counters t).idle

/-- A generator for short units: each slot on a line of its own. -/
def terse (unitStem fieldStem localStem : String) : Generator :=
  { settings :=
      { unitStem, fieldStem, localStem
        skeleton := .inline
          "$\x7bunit_name\x7d\n$\x7bfields\x7d\n$\x7blocals\x7d\n$\x7bexpression\x7d" }
    skeleton :=
      ⟨[.slot .unitName, .text "\n", .slot .fields, .text "\n", .slot .locals, .text "\n",
        .slot .expression]⟩
    pipeline := .default
    locals := { stem := localStem } }

theorem terse_inUse (unitStem fieldStem localStem : String) :
    (terse unitStem fieldStem localStem).InUse := by
  let g := terse unitStem fieldStem localStem
  let files : Files := fun _ => .error .notFound
  have hload : g.settings.skeleton.load files = .ok g.skeleton := by with_unfolding_all rfl
  have hmade : ofSettings files g.settings = .ok g := by
    rw [ofSettings, hload]
    rfl
  exact .made hmade

end Generator

/-- `x * x + 3`, in which `x` is a cached read of a field. -/
def heldSquare : Tree :=
  { store := ⟨#[.binary .add ⟨1⟩ ⟨3⟩, .binary .mul ⟨2⟩ ⟨2⟩,
      { Node.var "x" with emission := .cached (.hoisted (.int 7) .int) }, .const (.int 3)]⟩
    root := ⟨0⟩ }

theorem heldSquare_acyclic : heldSquare.store.Acyclic :=
  Store.acyclic_of_rank (fun id => 3 - id.index) (by decide)

theorem heldSquare_cachesOnce : heldSquare.store.CachesOnceFrom heldSquare.root :=
  Store.cachesOnceFrom_of_all (by decide) _

end FormulaCompiler
