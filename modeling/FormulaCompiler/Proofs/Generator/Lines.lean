import FormulaCompiler.Proofs.Decimal.Natural
import FormulaCompiler.Proofs.Generator.Session
import FormulaCompiler.Proofs.Text.Quoting

/-!
# Declarations on lines of their own

A unit declares its fields and locals in two blocks, one declaration a line. Values, types and names
of variables are anything at all, but none of them brings a line break into a declaration: strings
and names are quoted, and in the comment behind a local line breaks are replaced. Stems are the
settings' own and are taken to be without line breaks. The unit's expression is not covered.
-/

namespace FormulaCompiler

open Text

theorem breakless_toDigits (n : Nat) : Breakless (Nat.toDigits 10 n) := by
  intro c hc
  have hdigit := Nat.isDigit_of_mem_toDigits (by decide) (by decide) hc
  constructor
  · intro hlf
    rw [hlf] at hdigit
    cases hdigit
  · intro hcr
    rw [hcr] at hdigit
    cases hdigit

theorem oneLine_numbered (stem : String) (n : Nat) : OneLine (numbered stem n) ↔ OneLine stem := by
  rw [OneLine, toList_numbered, breakless_append]
  exact and_iff_left (breakless_toDigits n)

theorem oneLine_toString_int (n : Int) : OneLine (toString n) := by
  rw [Decimal.toString_int, oneLine_ofList, breakless_append]
  refine ⟨?_, breakless_toDigits _⟩
  split <;> decide

namespace Decimal

theorem breakless_positional (layout : Layout) (d : Digits) : Breakless (layout.positional d) := by
  have hdigits : Breakless d.text := breakless_toDigits d.digits
  have hzeros : ∀ count, Breakless (Layout.zeros count) := by
    intro count c hc
    rw [List.eq_of_mem_replicate hc]
    decide
  unfold Layout.positional
  dsimp only
  split
  · simp [hdigits, hzeros]
  split
  · simp only [breakless_append]
    refine ⟨⟨hdigits, hzeros _⟩, ?_⟩
    split <;> decide
  · simp only [breakless_append, breakless_cons]
    exact ⟨fun c hc => hdigits c (List.mem_of_mem_take hc), by decide,
      fun c hc => hdigits c (List.mem_of_mem_drop hc)⟩

theorem breakless_exponential (d : Digits) : Breakless (Layout.exponential d) := by
  have hdigits : Breakless d.text := breakless_toDigits d.digits
  have htail : Breakless (d.text.drop 1) := fun c hc => hdigits c (List.mem_of_mem_drop hc)
  unfold Layout.exponential
  simp only [breakless_append, breakless_cons]
  refine ⟨⟨fun c hc => hdigits c (List.mem_of_mem_take hc), ?_⟩, by decide,
    oneLine_toString_int _⟩
  split
  · decide
  · exact (breakless_cons ..).mpr ⟨by decide, htail⟩

theorem oneLine_write (layout : Layout) (x : Binary64) : OneLine (layout.write x) := by
  cases x with
  | nan =>
      show OneLine "NaN"
      decide
  | infinite negative =>
      show OneLine (if negative then "-inf" else "inf")
      split <;> decide
  | finite negative significand exponent =>
      rw [Layout.write, oneLine_ofList, breakless_append]
      refine ⟨by cases negative <;> decide, ?_⟩
      unfold Layout.magnitude
      split
      · cases layout.fraction <;> decide
      · dsimp only
        split
        · exact breakless_exponential _
        · exact breakless_positional layout _

end Decimal

theorem Value.oneLine_literal (v : Value) : OneLine v.literal := by
  cases v with
  | null => decide
  | int n => exact (oneLine_append ..).mpr ⟨oneLine_toString_int _, by decide⟩
  | float x =>
      rw [literal]
      split
      · decide
      · split <;> decide
      · exact (oneLine_append ..).mpr ⟨Decimal.oneLine_write _ _, by decide⟩
  | bool b => cases b <;> decide
  | text s => exact Quoted.oneLine_quoteWith _ s

theorem TargetType.oneLine_text (type : TargetType) : OneLine type.text := by
  cases type <;> decide

theorem Getter.oneLine_name (getter : Getter) : OneLine getter.name := by
  cases getter <;> decide

theorem oneLine_commentText (s : String) : OneLine (commentText s) := by
  intro c hc
  rw [commentText, String.toList_map] at hc
  obtain ⟨d, -, rfl⟩ := List.mem_map.mp hc
  split
  · decide
  · rename_i hd
    rw [not_or] at hd
    exact ⟨hd.2, hd.1⟩

theorem Code.oneLine_read (getter : Getter) (name : String) :
    OneLine (Code.read getter name).print := by
  simp only [print_read, oneLine_append, getter.oneLine_name, Quoted.quote, Quoted.oneLine_quoteWith, and_true]
  decide

/-- Whatever the constant and its type are, only the name can bring a line break. -/
theorem Field.oneLine_declaration {f : Field} (h : OneLine f.name) : OneLine f.declaration := by
  simp only [declaration, oneLine_append, h, f.ty.fieldType.oneLine_text, f.value.oneLine_literal,
    and_true]
  decide

/-- Whatever the variable is called, only the local's name and what it starts with can bring a line
break. -/
theorem CachedRead.oneLine_declaration {r : CachedRead LocalRead} (h : OneLine r.name)
    (hinit : OneLine r.body.init.print) : OneLine r.declaration := by
  have hstart : OneLine (if r.body.ty.isNumeric then r.body.init.print ++ " as f64"
      else r.body.init.print) := by
    split
    · exact (oneLine_append ..).mpr ⟨hinit, by decide⟩
    · exact hinit
  simp only [declaration, oneLine_append, h, r.body.ty.localType.oneLine_text, hstart,
    oneLine_commentText r.text, and_true]
  decide

namespace RenderState

/-- Names and starts of what is declared are without line breaks. -/
def Lined : RenderState → Prop := Spelled OneLine fun c => OneLine c.print

/-- Rendering declares everything on a line of its own. -/
theorem InUse.lined {st : RenderState} (h : st.InUse) (hfield : OneLine st.fields.stem)
    (hlocal : OneLine st.locals.stem) : st.Lined := by
  refine h.spelled Code.oneLine_read ?_ ⟨?_, ?_⟩
  · intro held hheld
    rw [Code.print_field, oneLine_append]
    exact ⟨by decide, hheld⟩
  · exact fun n => (oneLine_numbered ..).mpr hfield
  · exact fun n => (oneLine_numbered ..).mpr hlocal

theorem Lined.declarations {st : RenderState} (h : st.Lined) :
    (∀ f ∈ st.fields.toList, OneLine f.declaration) ∧
      ∀ r ∈ st.locals.toList, OneLine r.declaration := by
  constructor
  · intro f hf
    exact Field.oneLine_declaration (h.fields f hf)
  · intro r hr
    exact CachedRead.oneLine_declaration (h.locals r hr).1 (h.locals r hr).2

end RenderState

/-- The lines of a text; the empty text has none. -/
def linesOf (s : String) : List String :=
  if s = "" then [] else (s.toList.splitOn '\n').map String.ofList

/-- A cache without reads has nothing in its index either. -/
theorem ReadCache.eq_of_toList {α : Type} {c : ReadCache α} (h : c.toList = []) :
    c = { stem := c.stem, names := c.names } := by
  obtain ⟨stem, names, ⟨index, entries⟩, hstep⟩ := c
  obtain rfl : entries = #[] := Array.toList_eq_nil_iff.mp h
  obtain rfl : index = [] := hstep.1
  rfl

theorem RenderState.inUse_of_empty {st : RenderState} (hfields : st.fields.toList = [])
    (hlocals : st.locals.toList = []) : st.InUse := by
  obtain ⟨counter, ⟨stem, entries⟩, locals⟩ := st
  obtain rfl : entries = #[] := Array.toList_eq_nil_iff.mp hfields
  have hcache : locals = { stem := locals.stem, names := locals.names } :=
    ReadCache.eq_of_toList hlocals
  rw [hcache]
  exact .empty ..

namespace Generator

/-- A block has one line for each declaration. -/
theorem linesOf_block {α : Type} {indent : String} (hindent : OneLine indent) (hne : indent ≠ "")
    {xs : List α} {declaration : α → String} (h : ∀ x ∈ xs, OneLine (declaration x)) :
    linesOf (block indent (xs.map declaration)) = xs.map fun x => indent ++ declaration x := by
  cases xs with
  | nil => rfl
  | cons first rest =>
      let rows := (first :: rest).map fun x => (indent ++ declaration x).toList
      have hlist : (block indent ((first :: rest).map declaration)).toList =
          ['\n'].intercalate rows := by
        rw [block, String.toList_intercalate, List.map_map, List.map_map]
        rfl
      have hbreak : ∀ row ∈ rows, '\n' ∉ row := by
        intro row hrow hmem
        obtain ⟨x, hx, rfl⟩ := List.mem_map.mp hrow
        have hone : OneLine (indent ++ declaration x) := (oneLine_append ..).mpr ⟨hindent, h x hx⟩
        exact (hone _ hmem).1 rfl
      have hsplit := List.splitOn_intercalate '\n' hbreak (List.cons_ne_nil _ _)
      rw [← hlist] at hsplit
      have hsome : block indent ((first :: rest).map declaration) ≠ "" := by
        intro hempty
        rw [hempty] at hsplit
        have hfirst : some ([] : List Char) = some (indent ++ declaration first).toList :=
          congrArg List.head? hsplit
        simp at hfirst
        exact hne hfirst.1
      rw [linesOf, if_neg hsome, hsplit, List.map_map]
      simp [Function.comp_def]

variable {g : Generator}

theorem Idle.start_inUse (hg : g.Idle) (counters : Counters) : (g.start counters).InUse := by
  exact RenderState.inUse_of_empty rfl hg.empty

/-- What a unit is made of is declared without line breaks. -/
theorem Idle.contents_lined (hg : g.Idle) (hfield : OneLine g.settings.fieldStem)
    (hlocal : OneLine g.settings.localStem) (ctx : Context) (counters : Counters) (t : Tree) :
    (∀ f ∈ (g.contents ctx counters t).fields, OneLine f.declaration) ∧
      ∀ r ∈ (g.contents ctx counters t).locals, OneLine r.declaration := by
  unfold contents
  split
  · rename_i f queue work hprepare
    obtain ⟨u, st, -, hrender, rfl, hlocals⟩ := rendered_of_prepare hprepare
    have hsteps := (u.store.renderRoot_proceeds ctx u.root (g.start counters)).of_ok hrender
    obtain ⟨kept, reads, happ⟩ := hsteps.appends
    have hlined := ((hg.start_inUse counters).renderedRoot (RenderM.leaves_of_ok hrender)).lined
    rw [happ.fieldStem, happ.localStem] at hlined
    rw [← hg.stem] at hlocal
    rw [hlocals]
    exact (hlined hfield hlocal).declarations
  · simp

end Generator

/-- A string in a literal, and the name in a read, cannot be taken for anything else: it ends where
its quotes end, it reads back, and different ones look different. No declaration that rendering
makes has a line break, so that the blocks of a unit have one line for each declaration. -/
theorem text_stays_in_place :
    (∀ s : String, ∃ inside, Quoted.Encloses (Value.text s).literal s inside) ∧
    Function.Injective (fun s : String => (Value.text s).literal) ∧
    (∀ (ctx : Context) (name : String), ∃ quoted inside, Quoted.Encloses quoted name inside ∧
      (Fragment.read ctx name).text =
        "ctx." ++ (ctx.typeOf name).getter.name ++ "(" ++ quoted ++ ")") ∧
    (∀ getter : Getter, Function.Injective fun name => (Code.read getter name).print) ∧
    (∀ st : RenderState, st.InUse → OneLine st.fields.stem → OneLine st.locals.stem →
      (∀ f ∈ st.fields.toList, OneLine f.declaration) ∧
        ∀ r ∈ st.locals.toList, OneLine r.declaration) ∧
    ∀ (g : Generator) (ctx : Context) (counters : Counters) (t : Tree) (unit : EvalUnit),
      g.InUse → OneLine g.settings.fieldStem → OneLine g.settings.localStem →
      (g.generate ctx counters t).result = .ok unit →
      let c := g.contents ctx counters t
      let parts := c.parts unit.name
      unit.source = g.skeleton.fill parts ∧
        linesOf parts.fields = c.fields.map (fun f => "    " ++ f.declaration) ∧
        linesOf parts.locals = c.locals.map (fun r => "        " ++ r.declaration) := by
  refine ⟨fun s => ⟨_, Quoted.encloses_quoteWith _ s⟩, Quoted.quoteWith_injective _, ?_, ?_, ?_, ?_⟩
  · intro ctx name
    refine ⟨_, _, Quoted.encloses_quoteWith isHidden name, ?_⟩
    exact Code.print_read ..
  · intro getter name name' hsame
    simp only [Code.print_read, String.append_left_inj, String.append_right_inj] at hsame
    exact Quoted.quoteWith_injective _ hsame
  · intro st hst hfield hlocal
    exact (hst.lined hfield hlocal).declarations
  · intro g ctx counters t unit hg hfield hlocal hmade c parts
    obtain ⟨hfields, hlocals⟩ := hg.idle.contents_lined hfield hlocal ctx counters t
    refine ⟨(hg.idle.made hmade).1, ?_, ?_⟩
    · exact Generator.linesOf_block (by decide) (by decide) hfields
    · exact Generator.linesOf_block (by decide) (by decide) hlocals

/-- A variable whose name would end its quotes, and the comment behind its local. -/
def escapingRead : Tree := { store := ⟨#[.var "a\n\"); b"]⟩, root := ⟨0⟩ }

theorem text_stays_in_place_escapingRead :
    let g := Generator.terse "U" "F" "v"
    ∃ unit, (g.generate Bindings.empty.context {} escapingRead).result = .ok unit ∧
      linesOf ((g.contents Bindings.empty.context {} escapingRead).parts unit.name).locals =
        ["        let v0: Value = ctx.get_value(\"a\\n\\\"); b\");   // a \"); b"] := by
  intro g
  have hmade : (g.generate Bindings.empty.context {} escapingRead).result.toOption.isSome = true := by
    decide +kernel
  cases hresult : (g.generate Bindings.empty.context {} escapingRead).result with
  | error e =>
      rw [hresult] at hmade
      cases hmade
  | ok unit =>
      refine ⟨unit, rfl, ?_⟩
      obtain ⟨-, -, -, -, -, hunits⟩ := text_stays_in_place
      obtain ⟨-, -, hlocals⟩ := hunits g Bindings.empty.context {} escapingRead unit
        (Generator.terse_inUse ..) (by decide) (by decide) hresult
      rw [hlocals]
      decide +kernel

end FormulaCompiler
