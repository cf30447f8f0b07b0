import FormulaCompiler.Proofs.Generator.Session
import FormulaCompiler.Proofs.Pass.Failure

/-!
# Generating is deterministic up to names

A unit's text is its skeleton with declarations and the expression in it, and all of these are open
texts under the names of the session. So sessions of two generators, with whatever behind them, make
of one formula the same text up to their names, or fail alike, as long as there are numbers for the
names. Stems of fields and locals that can meet are left out, because there names decide whether a
unit can be put together. So are formulas in which a variable is cached inside a cache.
-/

namespace FormulaCompiler

open Generator

namespace OpenText

/-- Texts, each on a line of its own behind the indent. -/
def lines (indent : String) : List OpenText → OpenText
  | [] => []
  | [t] => .text indent :: t
  | t :: u :: rest => (.text indent :: t) ++ .text "\n" :: lines indent (u :: rest)

theorem fill_lines (names : Names) (indent : String) (ts : List OpenText) :
    fill names (lines indent ts) = block indent (ts.map (fill names)) := by
  induction ts using lines.induct with
  | case1 => rfl
  | case2 t => simp [lines, block, OpenPiece.fill]
  | case3 t u rest ih =>
      have hblock : block indent ((t :: u :: rest).map (fill names)) =
          indent ++ fill names t ++ "\n" ++ block indent ((u :: rest).map (fill names)) := by
        simp only [block, List.map_cons]
        rw [String.intercalate_cons_of_ne_nil (by simp)]
      rw [lines, fill_append, fill_cons, fill_cons, ih, hblock]
      simp only [OpenPiece.fill, String.append_assoc]

theorem within_lines {fields locals : Nat} {ts : List OpenText} (indent : String)
    (h : ∀ t ∈ ts, Within fields locals t) : Within fields locals (lines indent ts) := by
  induction ts using lines.induct with
  | case1 => exact within_nil
  | case2 t => exact .cons trivial (h t List.mem_cons_self)
  | case3 t u rest ih =>
      have hrest := ih fun v hv => h v (List.mem_cons_of_mem t hv)
      exact .append (.cons trivial (h t List.mem_cons_self)) (.cons trivial hrest)

end OpenText

/-- The declaration of the field at a place. -/
def openField (i : Nat) (kept : Value × Ty) : OpenText :=
  [.text "const ", .field i,
    .text (": " ++ kept.2.fieldType.text ++ " = " ++ kept.1.literal ++ ";")]

/-- The declaration of the local at a place. -/
def OpenRead.declaration (j : Nat) (r : OpenRead) : OpenText :=
  [.text "let ", .localVar j, .text (": " ++ r.ty.localType.text ++ " = ")] ++ r.init ++
    [.text ((if r.ty.isNumeric then " as f64" else "") ++ ";   // " ++ commentText r.text)]

/-- What a declared local shows is all that its declaration is made of. -/
theorem fill_declaration (names : Names) (j : Nat) (r : OpenRead) {held : CachedRead LocalRead}
    (h : held.shown = r.shown names j) :
    held.declaration = OpenText.fill names (r.declaration j) := by
  obtain ⟨text, name, init, ty⟩ := held
  simp only [CachedRead.shown, OpenRead.shown, CachedRead.mk.injEq, Prod.mk.injEq] at h
  obtain ⟨rfl, rfl, hinit, rfl⟩ := h
  by_cases hn : r.ty.isNumeric = true <;>
    simp [CachedRead.declaration, OpenRead.declaration, OpenPiece.fill, hinit, hn,
      String.append_assoc]

namespace Outline

/-- What fills a slot of the unit. -/
def part (d : Outline) (expression : OpenText) : Slot → OpenText
  | .unitName => [.unitName]
  | .fields => OpenText.lines "    " (d.kept.mapIdx openField)
  | .locals => OpenText.lines "        " (d.reads.mapIdx fun j r => r.declaration j)
  | .expression => expression

/-- The unit's text. -/
def unitText (d : Outline) (expression : OpenText) (s : Skeleton) : OpenText :=
  s.pieces.flatMap fun
    | .text s => [.text s]
    | .slot slot => d.part expression slot

variable {names : Names} {d : Outline} {st : RenderState}

theorem field_declarations (hst : st.Follows names d) :
    st.fields.toList.map (·.declaration) =
      (d.kept.mapIdx openField).map (OpenText.fill names) := by
  rw [hst.fields]
  apply List.ext_getElem?
  intro i
  by_cases hi : i < d.kept.length
  · simp [fieldRow, openField, Field.declaration, OpenPiece.fill, Names.field, hi,
      String.append_assoc]
  · simp [fieldRow, hi]

theorem local_declarations (hst : st.Follows names d) :
    st.locals.toList.map (·.declaration) =
      (d.reads.mapIdx fun j r => r.declaration j).map (OpenText.fill names) := by
  have hlength : st.locals.toList.length = d.reads.length := by
    simpa using congrArg List.length hst.locals
  apply List.ext_getElem (by simp [hlength])
  intro j hj _
  have hshown := List.getElem_of_eq hst.locals (i := j) (by simpa using hj)
  simp only [List.getElem_map, List.getElem_mapIdx] at hshown ⊢
  exact fill_declaration names j _ hshown

theorem fill_part (hst : st.Follows names d) {draft : OpenFragment} {f : Fragment}
    (hf : draft.Describes names f) (slot : Slot) :
    OpenText.fill names (d.part draft.text slot) =
      (Contents.parts ⟨f.text, st.fields.toList, st.locals.toList⟩ names.unit).get slot := by
  cases slot with
  | unitName => simp [part, OpenPiece.fill, Parts.get, Contents.parts]
  | fields =>
      simp only [part, OpenText.fill_lines, Parts.get, Contents.parts, field_declarations hst]
  | locals =>
      simp only [part, OpenText.fill_lines, Parts.get, Contents.parts, local_declarations hst]
  | expression => exact hf.text.symm

theorem fill_unitText (hst : st.Follows names d) {draft : OpenFragment} {f : Fragment}
    (hf : draft.Describes names f) (s : Skeleton) :
    OpenText.fill names (d.unitText draft.text s) =
      s.fill (Contents.parts ⟨f.text, st.fields.toList, st.locals.toList⟩ names.unit) := by
  obtain ⟨pieces⟩ := s
  induction pieces with
  | nil => rfl
  | cons piece rest ih =>
      simp only [unitText, Skeleton.fill, List.flatMap_cons, List.map_cons, String.join_cons,
        OpenText.fill_append] at ih ⊢
      rw [ih]
      cases piece with
      | text s => simp [OpenPiece.fill, Piece.fill]
      | slot slot => rw [fill_part hst hf slot, Piece.fill]

theorem within_part {expression : OpenText} (hd : d.Closed) (h : d.Covers expression)
    (slot : Slot) : d.Covers (d.part expression slot) := by
  cases slot with
  | unitName => exact .cons trivial OpenText.within_nil
  | expression => exact h
  | fields =>
      refine OpenText.within_lines _ fun t ht => ?_
      obtain ⟨i, hi, rfl⟩ := List.mem_mapIdx.mp ht
      exact .cons trivial (.cons hi (.cons trivial OpenText.within_nil))
  | locals =>
      refine OpenText.within_lines _ fun t ht => ?_
      obtain ⟨j, hj, rfl⟩ := List.mem_mapIdx.mp ht
      refine .append (.append ?_ (hd _ (List.getElem_mem hj))) (.cons trivial OpenText.within_nil)
      exact .cons trivial (.cons hj (.cons trivial OpenText.within_nil))

/-- The unit names no field and no local that it does not declare. -/
theorem within_unitText {expression : OpenText} (hd : d.Closed) (h : d.Covers expression)
    (s : Skeleton) : d.Covers (d.unitText expression s) := by
  intro p hp
  obtain ⟨piece, -, hpiece⟩ := List.mem_flatMap.mp hp
  cases piece with
  | text s =>
      rw [List.mem_singleton.mp hpiece]
      trivial
  | slot slot => exact within_part hd h slot p hpiece

end Outline

namespace Generator

variable {g : Generator} {ctx : Context} {t u : Tree}

/-- The session made a unit whose text is the open one under the session's own names, and drew so
many numbers for fields and for locals. -/
structure Writes (g : Generator) (counters : Counters) (after : Generation) (pieces : OpenText)
    (fields locals : Nat) : Prop where
  result : after.result =
    .ok ⟨(g.names counters fields).unit, pieces.fill (g.names counters fields)⟩
  counters : after.counters = (g.draw counters fields).2
  locals : after.generator.locals.names.value = g.locals.names.value + locals

theorem Idle.writes {draft : OpenFragment} {d : Outline} (hg : g.Idle)
    (hstems : StemsApart 0 g.settings.fieldStem g.settings.localStem)
    (hrun : g.pipeline.run ctx t = .ok ⟨⟩ u)
    (h : Sketches (u.store.renderRoot ctx u.root) {} draft d) (counters : Counters)
    (hleft : ¬ g.RanOut (g.generate ctx counters t)) :
    g.Writes counters (g.generate ctx counters t) (d.unitText draft.text g.skeleton) d.kept.length
      d.reads.length := by
  rcases hg.generate_apart hstems hrun h counters with
    ⟨e, hfails, hout⟩ | ⟨f, st, hf, hst, -, -, hgenerate⟩
  · exact absurd ⟨e, hfails.result, hout⟩ hleft
  · rw [hgenerate]
    refine ⟨?_, rfl, hst.drawn⟩
    rw [Outline.fill_unitText hst hf]
    rfl

theorem Idle.unrendered_result (hg : g.Idle) {e : BuildError}
    (hrun : g.pipeline.run ctx t = .ok ⟨⟩ u) (h : Breaks (u.store.renderRoot ctx u.root) {} e)
    (counters : Counters) (hleft : ¬ g.RanOut (g.generate ctx counters t)) :
    (g.generate ctx counters t).result = .error e := by
  obtain ⟨e', hfails, hout | rfl⟩ := hg.unrendered_fails hrun h counters
  · exact absurd ⟨e', hfails.result, hout⟩ hleft
  · exact hfails.result

theorem cachedReads_generate (g : Generator) (ctx : Context) (counters : Counters) (t : Tree) :
    (g.generate ctx counters t).generator.cachedReads = 0 := by
  unfold generate
  split <;> rfl

end Generator

/-- Generating depends on history through names only. Two generators with the same skeleton and the
same default passes enabled, whatever they were used for and whatever their counters say, leave the
same formula behind. With numbers left for the names, they fail with the same defect, or they make
units that come from one list of pieces, each filled with the names of its own session. No reads
stay cached. -/
theorem generate_deterministic (g g' : Generator) (hg : g.InUse) (hg' : g'.InUse)
    (hskeleton : g'.skeleton = g.skeleton) (hpasses : g'.pipeline.enabled = g.pipeline.enabled)
    (hdefault : ∀ p ∈ g.pipeline.enabled, p ∈ Pipeline.default.passes)
    (hstems : StemsApart 0 g.settings.fieldStem g.settings.localStem)
    (hstems' : StemsApart 0 g'.settings.fieldStem g'.settings.localStem) (t : Tree)
    (ht : t.store.Acyclic) (honce : t.store.CachesOnceFrom t.root) (ctx : Context)
    (counters counters' : Counters) :
    let one := g.generate ctx counters t
    let other := g'.generate ctx counters' t
    one.tree = other.tree ∧ one.generator.cachedReads = 0 ∧ other.generator.cachedReads = 0 ∧
    (¬ g.RanOut one → ¬ g'.RanOut other →
      (∃ pieces fields locals, OpenText.Within fields locals pieces ∧
        g.Writes counters one pieces fields locals ∧
        g'.Writes counters' other pieces fields locals) ∨
      ∃ stage node fragment defect,
        one.result = .error (.malformed stage node fragment defect) ∧
        other.result = .error (.malformed stage node fragment defect)) := by
  intro one other
  have hrun' : g'.pipeline.run ctx t = g.pipeline.run ctx t := by
    rw [Pipeline.run, hpasses, Pipeline.run]
  have htree : one.tree = other.tree := by
    have hone := tree_generate g ctx counters t
    have hother := tree_generate g' ctx counters' t
    cases hrun : g.pipeline.run ctx t with
    | ok _ u => rw [hone.of_ok hrun, hother.of_ok (hrun'.trans hrun)]
    | error e u => rw [hone.of_error hrun, hother.of_error (hrun'.trans hrun)]
  refine ⟨htree, cachedReads_generate g .., cachedReads_generate g' .., fun hleft hleft' => ?_⟩
  -- A forecast mentions no names, so one serves both sessions.
  cases forecast g.pipeline.enabled ctx t with
  | @unoptimized e u hrun =>
      obtain ⟨node, fragment, defect, rfl⟩ :=
        BuildError.eq_malformed_of_stage? (Pipeline.runAll_stage hdefault hrun)
      refine .inr ⟨.optimize, node, fragment, defect, ?_, ?_⟩
      · exact (unoptimized_fails hrun counters).result
      · exact (unoptimized_fails (hrun'.trans hrun) counters').result
  | @unrendered e u hrun hfails h =>
      obtain ⟨node, fragment, defect, rfl⟩ :=
        BuildError.eq_malformed_of_stage? (stage_of_unrendered hdefault ht honce hrun hfails)
      refine .inr ⟨.render, node, fragment, defect, ?_, ?_⟩
      · exact hg.idle.unrendered_result hrun h counters hleft
      · exact hg'.idle.unrendered_result (hrun'.trans hrun) h counters' hleft'
  | @drafted u draft d hrun h =>
      have hclosed : d.Closed := h.leads.closed fun r hr => by cases hr
      refine .inl ⟨d.unitText draft.text g.skeleton, d.kept.length, d.reads.length, ?_, ?_, ?_⟩
      · exact Outline.within_unitText hclosed h.leads.covers g.skeleton
      · exact hg.idle.writes hstems hrun h counters hleft
      · rw [← hskeleton]
        exact hg'.idle.writes hstems' (hrun'.trans hrun) h counters' hleft'

/-- A fresh generator, and one that has failed on a formula and made a unit of another one. -/
theorem generate_deterministic_heldSquare :
    let unit (name field held : String) : EvalUnit := ⟨name, name ++ "\n    const " ++ field ++
      ": i64 = 7_i64;\n        let " ++ held ++ ": f64 = Self::" ++ field ++ " as f64;   // x\n" ++
      "((((" ++ held ++ " as i64) * (" ++ held ++ " as i64)) as i64) + (3_i64 as i64))"⟩
    let ctx := Bindings.empty.context
    let fresh := terse "U" "f" "v"
    let failed := (terse "Fel_" "attr_" "var_").generate ctx {} brokenSum
    let made := failed.generator.generate ctx failed.counters heldSquare
    let one := fresh.generate ctx {} heldSquare
    let other := made.generator.generate ctx made.counters heldSquare
    one.result.toOption = some (unit "U0" "f0" "v0") ∧
    other.result.toOption = some (unit "Fel_1" "attr_1" "var_1") ∧
    ∃ pieces fields locals, OpenText.Within fields locals pieces ∧
      fresh.Writes {} one pieces fields locals ∧
      made.generator.Writes made.counters other pieces fields locals := by
  intro unit ctx fresh failed made one other
  have hone : one.result.toOption = some (unit "U0" "f0" "v0") := by decide +kernel
  have hother : other.result.toOption = some (unit "Fel_1" "attr_1" "var_1") := by decide +kernel
  have hinUse : made.generator.InUse := ((terse_inUse ..).used ..).used ..
  have hsame : made.generator =
      { terse "Fel_" "attr_" "var_" with locals := made.generator.locals } := by
    have hfailed : failed.generator = _ := generator_generate ..
    have hmade : made.generator = _ := generator_generate ..
    rw [hmade, hfailed]
  have hstems : StemsApart 0 "f" "v" := stemsApart_of_incomparable (by decide) (by decide)
  have hstems' : StemsApart 0 "attr_" "var_" := stemsApart_of_incomparable (by decide) (by decide)
  have h := generate_deterministic fresh made.generator (terse_inUse ..) hinUse
    (by rw [hsame]; rfl) (by rw [hsame]; rfl) (fun p hp => (List.mem_filter.mp hp).1) hstems
    (by rw [hsame]; exact hstems') heldSquare heldSquare_acyclic heldSquare_cachesOnce ctx {}
    made.counters
  -- A session that made a unit did not run out of numbers.
  have hleft : ∀ {g : Generator} {after : Generation} {unit : EvalUnit},
      after.result.toOption = some unit → ¬ g.RanOut after := by
    intro g after unit hmade hout
    obtain ⟨e, herror, -⟩ := hout
    rw [herror] at hmade
    cases hmade
  refine ⟨hone, hother, ?_⟩
  rcases h.2.2.2 (hleft hone) (hleft hother) with hwrites | ⟨_, _, _, _, herror, -⟩
  · exact hwrites
  · have hresult : one.result = _ := herror
    rw [hresult] at hone
    cases hone

end FormulaCompiler
