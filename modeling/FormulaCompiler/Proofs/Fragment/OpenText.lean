import FormulaCompiler.Fragment.Render
import FormulaCompiler.Proofs.Fragment.Rendering
import FormulaCompiler.Proofs.Naming

/-!
# Texts with names left open

Names enter a unit's text from two counters and two stems. Here they are left open: a text is a list
of pieces in which a field or a local stands by its place among those of the unit, and an outline is
what has been declared so far. What an operator writes around its operands depends on types only, so
open texts combine as fragments do, and none of them is blank. No run is looked at.
-/

namespace FormulaCompiler

/-- A piece of a text in which generated names are left open. -/
inductive OpenPiece where
  | text (s : String)
  | unitName
  | field (i : Nat)
  | localVar (j : Nat)
  deriving DecidableEq

abbrev OpenText := List OpenPiece

/-- The names that a unit generates: its own, and where those of its fields and locals start. -/
structure Names where
  unit : String
  fieldStem : String
  firstField : Nat
  localStem : String
  firstLocal : Nat

/-- The name of the unit's field at a place. -/
def Names.field (names : Names) (i : Nat) : String :=
  numbered names.fieldStem (names.firstField + i)

/-- The name of the unit's local at a place. -/
def Names.localVar (names : Names) (j : Nat) : String :=
  numbered names.localStem (names.firstLocal + j)

namespace OpenPiece

/-- The piece under given names. -/
def fill (names : Names) : OpenPiece → String
  | .text s => s
  | .unitName => names.unit
  | .field i => names.field i
  | .localVar j => names.localVar j

/-- A field or a local in the piece is among the first so many. -/
def Within (fields locals : Nat) : OpenPiece → Prop
  | .field i => i < fields
  | .localVar j => j < locals
  | .text _ | .unitName => True

end OpenPiece

namespace OpenText

/-- The text under given names. -/
def fill (names : Names) (t : OpenText) : String := String.join (t.map (·.fill names))

def Within (fields locals : Nat) (t : OpenText) : Prop := ∀ p ∈ t, p.Within fields locals

variable {fields locals fields' locals' : Nat} {t u : OpenText}

@[simp] theorem fill_nil (names : Names) : fill names [] = "" := rfl

@[simp] theorem fill_cons (names : Names) (p : OpenPiece) (t : OpenText) :
    fill names (p :: t) = p.fill names ++ fill names t := by
  simp [fill]

@[simp] theorem fill_append (names : Names) (t u : OpenText) :
    fill names (t ++ u) = fill names t ++ fill names u := by
  simp [fill]

theorem Within.append (ht : Within fields locals t) (hu : Within fields locals u) :
    Within fields locals (t ++ u) := by
  intro p hp
  rcases List.mem_append.mp hp with hp | hp
  · exact ht p hp
  · exact hu p hp

theorem Within.cons {p : OpenPiece} (hp : p.Within fields locals)
    (ht : Within fields locals t) : Within fields locals (p :: t) := by
  intro q hq
  rcases List.mem_cons.mp hq with rfl | hq
  · exact hp
  · exact ht q hq

theorem within_nil : Within fields locals [] := by
  intro p hp
  cases hp

theorem Within.mono (ht : Within fields locals t) (hf : fields ≤ fields') (hl : locals ≤ locals') :
    Within fields' locals' t := by
  intro p hp
  have hw := ht p hp
  cases p with
  | text s => trivial
  | unitName => trivial
  | field i => exact Nat.lt_of_lt_of_le hw hf
  | localVar j => exact Nat.lt_of_lt_of_le hw hl

end OpenText

/-- The read of a variable that a local keeps, names left open. -/
structure OpenRead where
  text : String
  init : OpenText
  ty : Ty

/-- What a unit's text shows of a local. -/
def CachedRead.shown (r : CachedRead LocalRead) : CachedRead (String × Ty) :=
  ⟨r.text, r.name, r.body.init.print, r.body.ty⟩

/-- The local at a place under given names. -/
def OpenRead.shown (names : Names) (j : Nat) (r : OpenRead) : CachedRead (String × Ty) :=
  ⟨r.text, names.localVar j, OpenText.fill names r.init, r.ty⟩

/-- What is declared, names left open. -/
structure Outline where
  kept : List (Value × Ty) := []
  reads : List OpenRead := []

namespace Outline

/-- The text names only what the outline declares. -/
def Covers (d : Outline) (t : OpenText) : Prop := t.Within d.kept.length d.reads.length

/-- So do the reads that its locals keep. -/
def Closed (d : Outline) : Prop := ∀ r ∈ d.reads, d.Covers r.init

structure Grows (d d' : Outline) : Prop where
  kept : d.kept <+: d'.kept
  reads : d.reads <+: d'.reads

variable {d d' d'' : Outline}

theorem Grows.refl (d : Outline) : d.Grows d := ⟨List.prefix_rfl, List.prefix_rfl⟩

theorem Grows.trans (h : d.Grows d') (h' : d'.Grows d'') : d.Grows d'' :=
  ⟨h.kept.trans h'.kept, h.reads.trans h'.reads⟩

theorem Covers.mono {t : OpenText} (h : d.Covers t) (hg : d.Grows d') : d'.Covers t :=
  OpenText.Within.mono h hg.kept.length_le hg.reads.length_le

/-- The place of the local that keeps a variable. -/
def place? (d : Outline) (name : String) : Option Nat :=
  (d.reads.zipIdx.find? fun r => r.1.text = name).map (·.2)

theorem lt_of_place? {name : String} {j : Nat} (h : d.place? name = some j) :
    j < d.reads.length := by
  obtain ⟨⟨r, i⟩, hfind, rfl⟩ := Option.map_eq_some_iff.mp h
  have hmem := List.mem_zipIdx (List.mem_of_find?_eq_some hfind)
  omega

/-- One more constant in a field. -/
def addField (d : Outline) (value : Value) (ty : Ty) : Outline :=
  { d with kept := d.kept ++ [(value, ty)] }

/-- One more local. -/
def addLocal (d : Outline) (r : OpenRead) : Outline := { d with reads := d.reads ++ [r] }

theorem grows_addField (d : Outline) (value : Value) (ty : Ty) : d.Grows (d.addField value ty) :=
  ⟨List.prefix_append _ _, List.prefix_rfl⟩

theorem grows_addLocal (d : Outline) (r : OpenRead) : d.Grows (d.addLocal r) :=
  ⟨List.prefix_rfl, List.prefix_append _ _⟩

theorem Closed.addField (h : d.Closed) (value : Value) (ty : Ty) : (d.addField value ty).Closed :=
  fun r hr => (h r hr).mono (d.grows_addField value ty)

theorem Closed.addLocal (h : d.Closed) {r : OpenRead} (hr : d.Covers r.init) :
    (d.addLocal r).Closed := by
  intro q hq
  rcases List.mem_append.mp hq with hq | hq
  · exact (h q hq).mono (d.grows_addLocal r)
  · rw [List.mem_singleton.mp hq]
    exact hr.mono (d.grows_addLocal r)

end Outline

/-- A fragment in which names are left open. -/
structure OpenFragment where
  text : OpenText
  ty : Ty

/-- The fragment is the open one under the given names. -/
structure OpenFragment.Describes (names : Names) (t : OpenFragment) (f : Fragment) : Prop where
  text : f.text = OpenText.fill names t.text
  ty : f.ty = t.ty

/-- From one outline to the other a fragment was rendered: it names only what is declared by then,
and it is not blank. -/
structure Outline.Leads (d : Outline) (t : OpenFragment) (d' : Outline) : Prop where
  grows : d.Grows d'
  closed : d.Closed → d'.Closed
  covers : d'.Covers t.text
  shows : ∀ names, Text.isBlank (OpenText.fill names t.text) = false

namespace Outline.Leads

variable {d d₁ d₂ : Outline} {l r t : OpenFragment}

theorem enclose (h : d.Leads t d₁) (before after : String) (ty : Ty) :
    d.Leads ⟨.text before :: t.text ++ [.text after], ty⟩ d₁ := by
  refine ⟨h.grows, h.closed, ?_, fun names => ?_⟩
  · exact .append (.cons trivial h.covers) (.cons trivial OpenText.within_nil)
  · rw [OpenText.fill_append, OpenText.fill_cons]
    exact Text.isBlank_append_left (Text.isBlank_append_right (h.shows names) _) _

theorem join (h : d.Leads l d₁) (h' : d₁.Leads r d₂) (between : String) (ty : Ty) :
    d.Leads ⟨l.text ++ .text between :: r.text, ty⟩ d₂ := by
  refine ⟨h.grows.trans h'.grows, fun hd => h'.closed (h.closed hd), ?_, fun names => ?_⟩
  · exact .append (h.covers.mono h'.grows) (.cons trivial h'.covers)
  · rw [OpenText.fill_append]
    exact Text.isBlank_append_left (h.shows names) _

end Outline.Leads

namespace BinaryOp

/-- An operator that does not concatenate stands between its operands, which are both cast to one
type or both not cast. Which it is depends on types only. -/
theorem code_casts (op : BinaryOp) (ty left right : Ty) (h : ¬ (op = .add ∧ ty = .text)) :
    (∀ l r : Fragment, l.ty = left → r.ty = right →
        op.code ty l r = .binary op l.code r.code) ∨
      ∃ type, ∀ l r : Fragment, l.ty = left → r.ty = right →
        op.code ty l r = .binary op (.cast l.code type) (.cast r.code type) := by
  by_cases hlogic : op = .and ∨ op = .or
  · refine .inl fun l r _ _ => ?_
    rcases hlogic with rfl | rfl <;> rfl
  by_cases hdiv : op = .div
  · subst hdiv
    exact .inr ⟨.f64, fun l r _ _ => rfl⟩
  rw [not_or] at hlogic
  cases hp : left.promote? right with
  | none =>
      refine .inl fun l r hl hr => ?_
      subst hl hr
      rw [code.eq_def, if_neg h]
      split <;> simp_all
  | some t =>
      refine .inr ⟨t.exprType, fun l r hl hr => ?_⟩
      subst hl hr
      rw [code.eq_def, if_neg h]
      split <;> simp_all

/-- The text of an operator is put together from the texts of its operands, and what stands around
them depends on types only. -/
theorem print_code (op : BinaryOp) (ty left right : Ty) :
    ∃ before between after : String, ∀ l r : Fragment, l.ty = left → r.ty = right →
      (op.code ty l r).print = before ++ l.text ++ between ++ r.text ++ after := by
  by_cases hconcat : op = .add ∧ ty = .text
  · refine ⟨"format!(\"\x7b\x7d\x7b\x7d\", ", ", ", ")", fun l r _ _ => ?_⟩
    simp only [code, if_pos hconcat, Code.print_concat, Fragment.text]
  rcases op.code_casts ty left right hconcat with hcode | ⟨type, hcode⟩
  · refine ⟨"(", " " ++ op.symbol ++ " ", ")", fun l r hl hr => ?_⟩
    simp only [hcode l r hl hr, Code.print_binary, Fragment.text, String.append_assoc]
  · refine ⟨"(" ++ "(", " as " ++ type.text ++ ")" ++ " " ++ op.symbol ++ " " ++ "(",
      " as " ++ type.text ++ ")" ++ ")", fun l r hl hr => ?_⟩
    simp only [hcode l r hl hr, Code.print_binary, Code.print_cast, Fragment.text,
      String.append_assoc]

end BinaryOp

theorem UnaryOp.print_code (op : UnaryOp) (ty : Ty) :
    ∃ before after : String, ∀ f : Fragment,
      (op.code ty f).print = before ++ f.text ++ after := by
  cases op with
  | neg =>
      refine ⟨"(" ++ UnaryOp.neg.symbol ++ "(", " as " ++ ty.exprType.text ++ ")" ++ ")",
        fun f => ?_⟩
      simp only [code, Code.print_unary, Code.print_cast, Fragment.text, String.append_assoc]
  | not =>
      refine ⟨"(" ++ UnaryOp.not.symbol, ")", fun f => ?_⟩
      simp only [code, Code.print_unary, Fragment.text]

theorem Text.isBlank_quote (s : String) : isBlank (Quoted.quote s) = false :=
  isBlank_append_right (by decide) _

theorem Value.isBlank_literal (v : Value) : Text.isBlank v.literal = false := by
  cases v with
  | null => decide
  | int n => exact Text.isBlank_append_right (by decide) _
  | float x =>
      rw [literal]
      split
      · decide
      · split <;> decide
      · exact Text.isBlank_append_right (by decide) _
  | bool b => cases b <;> decide
  | text s => exact Text.isBlank_quote s

theorem Fragment.isBlank_read (ctx : Context) (name : String) :
    Text.isBlank (Fragment.read ctx name).text = false := by
  simp only [Fragment.text, Fragment.read, Code.print_read, String.append_assoc]
  exact Text.isBlank_append_left (by decide) _

end FormulaCompiler
