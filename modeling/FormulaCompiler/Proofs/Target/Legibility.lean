import FormulaCompiler.Proofs.Generator.Lines
import FormulaCompiler.Proofs.Target.RoundTrip

/-!
# What rendering writes can be read

The texts that fill the slots of a unit, read as declarations and an expression. For a prepared
formula they read back as the code that rendering built and as the fields and locals it declared,
each local with the cast that its text shows, if the two stems are identifiers. Other stems are not
covered: they may run into what stands around them.
-/

namespace FormulaCompiler

open Reading Text

/-- What a unit declares, as its text says it. -/
structure Declarations where
  fields : List (Declared Value)
  locals : List (Declared Code)
  deriving DecidableEq, Repr

/-- The declarations and the expression that the texts of a unit are. -/
def Parts.read? (p : Parts) : Option (Declarations × Code) := do
  let fields ← (linesOf p.fields).mapM constant?
  let locals ← (linesOf p.locals).mapM local?
  let c ← whole? p.expression.toList
  some (⟨fields, locals⟩, c)

/-- The code from which a local starts. Numbers are kept as floats. -/
def LocalRead.initialiser (r : LocalRead) : Code :=
  if r.ty.isNumeric then .cast r.init .f64 else r.init

/-- What the field's declaration says. -/
def Field.declared (f : Field) : Declared Value := ⟨f.name, f.ty.fieldType, f.value⟩

/-- What the local's declaration says. -/
def CachedRead.declared (r : CachedRead LocalRead) : Declared Code :=
  ⟨r.name, r.body.ty.localType, r.body.initialiser⟩

def Scope.declarations (u : Scope) : Declarations :=
  ⟨u.fields.map (·.declared), u.locals.map (·.declared)⟩

theorem Field.constant?_declaration {f : Field} (h : isName f.name.toList = true) {indent : String}
    (hindent : ∀ c ∈ indent.toList, c = ' ') :
    constant? (indent ++ f.declaration) = some f.declared := by
  have htext : (indent ++ f.declaration).toList = indent.toList ++ ("const ".toList ++
      (f.name.toList ++ (": ".toList ++ (f.ty.fieldType.text.toList ++ (" = ".toList ++
        ((Code.literal f.value).print.toList ++ [';'])))))) := by
    simp only [declaration, String.toList_append, List.append_assoc, Code.print_literal]
    rfl
  have hread : declaration? "const " (indent ++ f.declaration).toList =
      some ⟨f.name, f.ty.fieldType, .literal f.value⟩ := by
    rw [htext]
    exact declaration?_eq hindent ⟨'c', "onst ".toList, rfl, by decide⟩ h
      (initial?_print (.literal f.value) []) rfl
  rw [constant?, hread]
  rfl

theorem isRemark_commentText (s : String) :
    isRemark ("   // ".toList ++ (commentText s).toList) = true := by
  have hlist : ("   // ".toList ++ (commentText s).toList).dropWhile (· = ' ') =
      "//".toList ++ ' ' :: (commentText s).toList := rfl
  have hline : Breakless ("//".toList ++ ' ' :: (commentText s).toList) := by
    rw [breakless_append, breakless_cons]
    exact ⟨by decide, by decide, oneLine_commentText s⟩
  unfold isRemark
  dsimp only
  rw [hlist, expect_append, decide_eq_true hline]
  rfl

/-- The text of a local's declaration shows what it starts with. -/
theorem CachedRead.local?_declaration {r : CachedRead LocalRead} (h : isName r.name.toList = true)
    (hinit : r.body.init.Legible) {indent : String} (hindent : ∀ c ∈ indent.toList, c = ' ') :
    local? (indent ++ r.declaration) = some r.declared := by
  let start := if r.body.ty.isNumeric then r.body.init.print ++ " as f64" else r.body.init.print
  let remark := "   // ".toList ++ (commentText r.text).toList
  have htext : (indent ++ r.declaration).toList = indent.toList ++ ("let ".toList ++
      (r.name.toList ++ (": ".toList ++ (r.body.ty.localType.text.toList ++ (" = ".toList ++
        (start.toList ++ ';' :: remark)))))) := by
    simp only [declaration, String.toList_append, List.append_assoc]
    rfl
  have hstart : initial? (start.toList ++ ';' :: remark) =
      some (r.body.initialiser, ';' :: remark) := by
    by_cases hn : r.body.ty.isNumeric = true
    · have hlist : start.toList = r.body.init.print.toList ++ (" as ".toList ++
          TargetType.f64.text.toList) := by
        simp only [start, if_pos hn, String.toList_append]
        rfl
      rw [hlist, LocalRead.initialiser, if_pos hn, List.append_assoc, List.append_assoc]
      exact initial?_cast hinit _ rfl
    · have hlist : start.toList = r.body.init.print.toList := by simp only [start, if_neg hn]
      rw [hlist, LocalRead.initialiser, if_neg hn]
      exact initial?_print hinit _
  rw [local?, htext]
  exact declaration?_eq hindent ⟨'l', "et ".toList, rfl, by decide⟩ h hstart
    (isRemark_commentText r.text)

/-- An identifier with a number behind it is a name. -/
theorem isName_numbered {stem : String} (h : isIdentifier stem.toList = true) (n : Nat) :
    isName (numbered stem n).toList = true := by
  have hdigits : ∀ c ∈ Nat.toDigits 10 n, c.isDigit = true := fun c hc =>
    Nat.isDigit_of_mem_toDigits (by decide) (by decide) hc
  have hidentifier : isIdentifier (stem.toList ++ Nat.toDigits 10 n) = true := by
    cases hstem : stem.toList with
    | nil =>
        rw [hstem] at h
        cases h
    | cons c rest =>
        rw [hstem] at h
        rw [List.cons_append, isIdentifier, List.all_append]
        rw [isIdentifier, Bool.and_eq_true] at h
        rw [h.1, h.2, Bool.true_and, Bool.true_and, List.all_eq_true]
        intro d hd
        simp [isNameChar, Char.isAlphanum, hdigits d hd]
  have hreserved : ∀ word : List Char, (∀ c ∈ word.getLast?, c.isDigit = false) →
      stem.toList ++ Nat.toDigits 10 n ≠ word := by
    rintro word hlast rfl
    rw [List.getLast?_append_of_ne_nil _ Nat.toDigits_ne_nil] at hlast
    have hdigit := hdigits _ (List.getLast_mem Nat.toDigits_ne_nil)
    rw [hlast _ (List.getLast?_eq_some_getLast Nat.toDigits_ne_nil)] at hdigit
    cases hdigit
  rw [toList_numbered, isName, hidentifier]
  simp [hreserved ['t', 'r', 'u', 'e'] (by simp), hreserved ['f', 'a', 'l', 's', 'e'] (by simp)]

theorem oneLine_of_isIdentifier {s : String} (h : isIdentifier s.toList = true) : OneLine s := by
  intro c hc
  have hname := List.all_eq_true.mp (all_isNameChar h) c hc
  refine ⟨?_, ?_⟩
  · rintro rfl
    cases hname
  · rintro rfl
    cases hname

theorem Ty.isNumber_of_promote? {l r t : Ty} (h : l.promote? r = some t) :
    t.exprType.isNumber = true := by
  cases l <;> cases r <;> cases h <;> rfl

namespace BinaryOp

theorem legible_code (op : BinaryOp) (ty : Ty) {l r : Fragment} (hl : l.code.Legible)
    (hr : r.code.Legible) : (op.code ty l r).Legible := by
  unfold code
  split
  · exact .concat hl hr
  · split
    · exact .binary _ hl hr
    · exact .binary _ hl hr
    · exact .binary _ (.cast hl rfl) (.cast hr rfl)
    · split
      · rename_i hpromote
        have hnumber := Ty.isNumber_of_promote? hpromote
        exact .binary _ (.cast hl hnumber) (.cast hr hnumber)
      · exact .binary _ hl hr

end BinaryOp

theorem UnaryOp.legible_code {op : UnaryOp} {ty : Ty} {f : Fragment} (hf : f.code.Legible)
    (ht : op.resultType? f.ty = some ty) : (op.code ty f).Legible := by
  cases op with
  | neg =>
      have hnumber : ty.exprType.isNumber = true := by
        obtain ⟨hn, rfl⟩ : f.ty.isNumeric = true ∧ f.ty = ty := by simpa [resultType?] using ht
        cases hty : f.ty <;> rw [hty] at hn <;> first | rfl | cases hn
      exact .neg (.cast hf hnumber)
  | not => exact .not hf

/-- The code of a node is legible if the names it may mention are names. -/
theorem Rendered.legible {s : Store} {ctx : Context} {u : Scope} {id : NodeId} {f : Fragment}
    (h : Rendered s ctx u id f) (hfields : ∀ f ∈ u.fields, isName f.name.toList = true)
    (hlocals : ∀ r ∈ u.locals, isName r.name.toList = true) : f.code.Legible := by
  induction h with
  | const hi => exact .literal _
  | field hi hf => exact .field (hfields _ hf)
  | read hi he => exact .read _ _
  | cached hi he hr ht => exact .localVar (hlocals _ hr)
  | unary hi hx ht ih => exact UnaryOp.legible_code ih ht
  | binary hi hl hr ht ihl ihr => exact BinaryOp.legible_code _ _ ihl ihr

theorem mapM_eq_some_map {α β : Type} {read : String → Option β} {text : α → String} {found : α → β}
    {xs : List α} (h : ∀ x ∈ xs, read (text x) = some (found x)) :
    (xs.map text).mapM read = some (xs.map found) := by
  induction xs with
  | nil => rfl
  | cons x xs ih =>
      rw [List.map_cons, List.mapM_cons, h x List.mem_cons_self,
        ih fun y hy => h y (List.mem_cons_of_mem _ hy)]
      rfl

/-- The texts of a unit. -/
def RenderState.parts (st : RenderState) (f : Fragment) (name : String) : Parts :=
  Generator.Contents.parts ⟨f.text, st.fields.toList, st.locals.toList⟩ name

/-- What rendering a prepared formula leaves reads back. -/
theorem Store.read?_renderRoot {s : Store} {ctx : Context} {id : NodeId}
    (hprep : s.PreparedFrom id) {st st' : RenderState} (hfields : st.fields.toList = [])
    (hlocals : st.locals.toList = []) {f : Fragment} (hrender : s.renderRoot ctx id st = .ok f st')
    (hfield : isIdentifier st.fields.stem.toList = true)
    (hlocal : isIdentifier st.locals.stem.toList = true) (name : String) :
    (st'.parts f name).read? = some (st'.scope.declarations, f.code) := by
  have huse : st'.InUse :=
    (RenderState.inUse_of_empty hfields hlocals).renderedRoot (RenderM.leaves_of_ok hrender)
  obtain ⟨kept, reads, happ⟩ := ((s.renderRoot_proceeds ctx id st).of_ok hrender).appends
  rw [← happ.fieldStem] at hfield
  rw [← happ.localStem] at hlocal
  have hnamed : st'.Spelled (fun held => isName held.toList = true) Code.Legible :=
    huse.spelled .read (fun _ => .field) ⟨isName_numbered hfield, isName_numbered hlocal⟩
  obtain ⟨hfieldLines, hlocalLines⟩ :=
    (huse.lined (oneLine_of_isIdentifier hfield) (oneLine_of_isIdentifier hlocal)).declarations
  have hcode : f.code.Legible := by
    obtain ⟨-, -, n, shape, g, -, hg, rfl⟩ :=
      Store.renderRoot_ok hprep (RenderState.sound_of_empty ctx hfields hlocals) hrender
    have hlegible := hg.legible hnamed.fields fun r hr => (hnamed.locals r hr).1
    split
    · exact .cast hlegible rfl
    · exact hlegible
  have hreadFields : (linesOf (st'.parts f name).fields).mapM constant? =
      some st'.scope.declarations.fields := by
    refine (congrArg _ (Generator.linesOf_block (by decide) (by decide) hfieldLines)).trans ?_
    exact mapM_eq_some_map fun g hg => Field.constant?_declaration (hnamed.fields g hg) (by simp)
  have hreadLocals : (linesOf (st'.parts f name).locals).mapM local? =
      some st'.scope.declarations.locals := by
    refine (congrArg _ (Generator.linesOf_block (by decide) (by decide) hlocalLines)).trans ?_
    exact mapM_eq_some_map fun r hr =>
      CachedRead.local?_declaration (hnamed.locals r hr).1 (hnamed.locals r hr).2 (by simp)
  have hreadCode : whole? (st'.parts f name).expression.toList = some f.code := hcode.whole?_print
  simp only [Parts.read?, hreadFields, hreadLocals, hreadCode, Option.bind_eq_bind,
    Option.bind_some]

end FormulaCompiler
