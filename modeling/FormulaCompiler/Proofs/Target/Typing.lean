import FormulaCompiler.Proofs.Operator.Route
import FormulaCompiler.Proofs.Target.Legibility

/-!
# Types of generated code

The rules by which the target language types an expression, as far as generated code goes: casts
between the two number types, operators on two numbers of one type, equality of unlike texts, and
text formatting of what can be shown. A prepared formula renders to code that these rules accept
among the declarations it leaves, every declaration has the type it says, and the texts of the unit
read back as this code and these declarations. Conversions that the target language makes by itself
are not part of the rules.
-/

namespace FormulaCompiler

open Reading

namespace TargetType

def isText : TargetType → Bool
  | .staticText | .ownedText => true
  | _ => false

/-- Whether formatting can show an expression of this type. -/
def isShown (t : TargetType) : Bool := t.isNumber || t.isText || t = .bool

end TargetType

/-- What a getter answers. -/
def Getter.type : Getter → TargetType
  | .int => .i64
  | .float => .f64
  | .bool => .bool
  | .text => .ownedText
  | .value => .value

namespace Declarations

/-- The field with this name. -/
def field? (ds : Declarations) (name : String) : Option (Declared Value) :=
  ds.fields.find? fun d => d.name = name

/-- The local with this name. -/
def local? (ds : Declarations) (name : String) : Option (Declared Code) :=
  ds.locals.find? fun d => d.name = name

end Declarations

/-- The type of an operator between operands of these types. Numbers are only compared for equality
when both were cast. -/
def BinaryOp.targetType? (op : BinaryOp) (cast : Bool) (l r : TargetType) : Option TargetType :=
  match op with
  | .add | .sub | .mul | .div | .mod => if l = r ∧ l.isNumber then some l else none
  | .lt | .le | .gt | .ge => if l = r ∧ l.isNumber then some .bool else none
  | .eq | .ne =>
      if cast then if l = r ∧ l.isNumber then some .bool else none
      else if l = r ∧ (l = .bool ∨ l = .unit) ∨ l.isText ∧ r.isText then some .bool else none
  | .and | .or => if l = .bool ∧ r = .bool then some .bool else none

/-- The type of an operator before an operand of this type. -/
def UnaryOp.targetType? (op : UnaryOp) (t : TargetType) : Option TargetType :=
  match op with
  | .neg => if t.isNumber then some t else none
  | .not => if t = .bool then some .bool else none

namespace Code

def isCast : Code → Bool
  | .cast _ _ => true
  | _ => false

/-- The type of an expression among declarations, or nothing when the expression is ill-typed or
mentions what is not declared. -/
def type? (ds : Declarations) : Code → Option TargetType
  | .literal value => some value.ty.fieldType
  | .field name => (ds.field? name).map (·.type)
  | .localVar name => (ds.local? name).map (·.type)
  | .read getter _ => some getter.type
  | .cast operand type => do
      let t ← operand.type? ds
      if t.isNumber ∧ type.isNumber then some type else none
  | .unary op operand => do
      let t ← operand.type? ds
      op.targetType? t
  | .binary op left right => do
      let l ← left.type? ds
      let r ← right.type? ds
      op.targetType? (left.isCast && right.isCast) l r
  | .concat left right => do
      let l ← left.type? ds
      let r ← right.type? ds
      if l.isShown ∧ r.isShown then some .ownedText else none

end Code

namespace Scope.Sound

variable {ctx : Context} {u : Scope}

theorem nodup_fields (hu : u.Sound ctx) : (u.declarations.fields.map (·.name)).Nodup := by
  rw [Scope.declarations, List.map_map]
  exact hu.fieldNames

theorem nodup_locals (hu : u.Sound ctx) : (u.declarations.locals.map (·.name)).Nodup := by
  rw [Scope.declarations, List.map_map]
  exact hu.localNames

theorem field?_eq (hu : u.Sound ctx) {f : Field} (hf : f ∈ u.fields) :
    u.declarations.field? f.name = some f.declared :=
  find?_key_of_mem hu.nodup_fields (List.mem_map_of_mem hf)

theorem local?_eq (hu : u.Sound ctx) {r : CachedRead LocalRead} (hr : r ∈ u.locals) :
    u.declarations.local? r.name = some r.declared :=
  find?_key_of_mem hu.nodup_locals (List.mem_map_of_mem hr)

end Scope.Sound

/-- The target types that code of a static type can have: a widened integer is a float, and a text
is static or owned. -/
def Ty.allows : Ty → TargetType → Bool
  | .null, .unit | .int, .i64 | .int, .f64 | .float, .f64 | .bool, .bool | .text, .staticText
  | .text, .ownedText | .dynamic, .value => true
  | _, _ => false

theorem Ty.allows_exprType (t : Ty) : t.allows t.exprType = true := by cases t <;> rfl

theorem Ty.allows_fieldType (t : Ty) : t.allows t.fieldType = true := by cases t <;> rfl

theorem Ty.allows_localType (t : Ty) : t.allows t.localType = true := by cases t <;> rfl

theorem Ty.type_getter {t : Ty} (h : t ≠ .null) : t.getter.type = t.exprType := by
  cases t <;> first | rfl | exact absurd rfl h

theorem Ty.isNumber_of_allows {t : Ty} {a : TargetType} (h : t.isNumeric = true)
    (ha : t.allows a = true) : a.isNumber = true := by
  cases t <;> cases a <;> simp_all [allows, isNumeric, TargetType.isNumber]

theorem Ty.not_isNumber_of_allows {t : Ty} {a : TargetType}
    (h : t = .bool ∨ t = .text ∨ t = .null) (ha : t.allows a = true) : a.isNumber = false := by
  rcases h with rfl | rfl | rfl <;> cases a <;> simp_all [allows, TargetType.isNumber]

theorem Ty.isShown_of_allows {t : Ty} {a : TargetType} (h : t.isShown = true)
    (ha : t.allows a = true) : a.isShown = true := by
  cases t <;> cases a <;> simp_all [allows, isShown, TargetType.isShown, TargetType.isNumber,
    TargetType.isText]

namespace Code

variable {ds : Declarations} {c d : Code} {a b type : TargetType}

theorem type?_cast (hc : c.type? ds = some a) (ha : a.isNumber = true) (ht : type.isNumber = true) :
    (cast c type).type? ds = some type := by
  simp [Code.type?, hc, ha, ht]

/-- Only numbers come from casts. -/
theorem isCast_eq_false (hc : c.type? ds = some a) (ha : a.isNumber = false) : c.isCast = false := by
  cases c with
  | cast operand type =>
      simp only [Code.type?, Option.bind_eq_bind, Option.bind_eq_some_iff,
        Option.ite_none_right_eq_some, Option.some.injEq] at hc
      obtain ⟨t, _, ⟨_, hn⟩, rfl⟩ := hc
      rw [hn] at ha
      cases ha
  | _ => rfl

theorem type?_unary (op : UnaryOp) (hc : c.type? ds = some a) :
    (unary op c).type? ds = op.targetType? a := by
  simp [Code.type?, hc]

theorem type?_binary (op : BinaryOp) (hc : c.type? ds = some a) (hd : d.type? ds = some b) :
    (binary op c d).type? ds = op.targetType? (c.isCast && d.isCast) a b := by
  simp [Code.type?, hc, hd]

theorem type?_concat (hc : c.type? ds = some a) (hd : d.type? ds = some b)
    (ha : a.isShown = true) (hb : b.isShown = true) :
    (concat c d).type? ds = some .ownedText := by
  simp [Code.type?, hc, hd, ha, hb]

/-- Two numbers cast to one type meet in an operator of that type. -/
theorem type?_casts (op : BinaryOp) (hc : c.type? ds = some a) (hd : d.type? ds = some b)
    (ha : a.isNumber = true) (hb : b.isNumber = true) (ht : type.isNumber = true) :
    (binary op (cast c type) (cast d type)).type? ds = op.targetType? true type type :=
  type?_binary op (type?_cast hc ha ht) (type?_cast hd hb ht)

end Code

namespace BinaryOp

theorem targetType?_ints {op : BinaryOp} {ty : Ty} (hd : op ≠ .div)
    (h : op.resultType? .int .int = some ty) :
    op.targetType? true .i64 .i64 = some ty.exprType := by
  cases op <;> simp_all [resultType?, sumType?, comparable, Ty.promote?] <;> subst h <;> rfl

theorem targetType?_floats {op : BinaryOp} {l r ty : Ty} (hl : l.isNumeric = true)
    (hr : r.isNumeric = true) (hf : op = .div ∨ l.promote? r = some .float)
    (h : op.resultType? l r = some ty) : op.targetType? true .f64 .f64 = some ty.exprType := by
  cases l <;> cases r <;> cases op <;>
    simp_all [resultType?, sumType?, comparable, Ty.promote?, Ty.isNumeric] <;> subst h <;> rfl

theorem targetType?_alike {op : BinaryOp} (ho : op = .eq ∨ op = .ne) {t : Ty} {a b : TargetType}
    (ht : t = .bool ∨ t = .text ∨ t = .null) (ha : t.allows a = true) (hb : t.allows b = true) :
    op.targetType? false a b = some .bool := by
  rcases ht with rfl | rfl | rfl <;> cases a <;> simp [Ty.allows] at ha <;> cases b <;>
    simp [Ty.allows] at hb <;> rcases ho with rfl | rfl <;> rfl

/-- The code of a typed operator has the type of its result, whichever of their types the operands
have. -/
theorem type?_code {op : BinaryOp} {ty : Ty} {f g : Fragment} {ds : Declarations} {a b : TargetType}
    (hf : f.code.type? ds = some a) (ha : f.ty.allows a = true) (hg : g.code.type? ds = some b)
    (hb : g.ty.allows b = true) (h : op.resultType? f.ty g.ty = some ty) :
    (op.code ty f g).type? ds = some ty.exprType := by
  obtain ⟨c, l⟩ := f
  obtain ⟨d, r⟩ := g
  cases route h with
  | ints hd h =>
      rw [code_ints hd rfl rfl h, Code.type?_casts op hf hg (Ty.isNumber_of_allows rfl ha)
        (Ty.isNumber_of_allows rfl hb) rfl]
      exact targetType?_ints hd h
  | floats hl hr hm h =>
      rw [code_floats hm h, Code.type?_casts op hf hg (Ty.isNumber_of_allows hl ha)
        (Ty.isNumber_of_allows hr hb) rfl]
      exact targetType?_floats hl hr hm h
  | texts _ hl hr =>
      rw [code_texts]
      exact Code.type?_concat hf hg (Ty.isShown_of_allows hl ha) (Ty.isShown_of_allows hr hb)
  | alike ho ht =>
      have hc : c.isCast = false := Code.isCast_eq_false hf (Ty.not_isNumber_of_allows ht ha)
      rw [code_alike (f := ⟨c, l⟩) (g := ⟨d, l⟩) ho rfl rfl ht, Code.type?_binary op hf hg, hc]
      exact targetType?_alike ho ht ha hb
  | bools ho =>
      rw [code_bools ho, Code.type?_binary op hf hg]
      cases a <;> simp [Ty.allows] at ha
      cases b <;> simp [Ty.allows] at hb
      rcases ho with rfl | rfl <;> rfl

end BinaryOp

theorem UnaryOp.type?_code {op : UnaryOp} {ty : Ty} {f : Fragment} {ds : Declarations} {a : TargetType}
    (hf : f.code.type? ds = some a) (ha : f.ty.allows a = true)
    (h : op.resultType? f.ty = some ty) : (op.code ty f).type? ds = some ty.exprType := by
  cases op with
  | neg =>
      obtain ⟨hn, rfl⟩ : f.ty.isNumeric = true ∧ f.ty = ty := by simpa [resultType?] using h
      have he : f.ty.exprType.isNumber = true := Ty.isNumber_of_allows hn f.ty.allows_exprType
      have hc := Code.type?_cast hf (Ty.isNumber_of_allows hn ha) he
      simp [code, Code.type?_unary .neg hc, targetType?, he]
  | not =>
      obtain ⟨hb, rfl⟩ : f.ty = .bool ∧ .bool = ty := by simpa [resultType?] using h
      rw [hb] at ha
      cases a <;> simp [Ty.allows] at ha
      exact Code.type?_unary .not hf

namespace Rendered

variable {s : Store} {ctx : Context} {u : Scope} {id : NodeId} {f : Fragment}

/-- The code of a node is well typed, in a type that its static type allows. -/
theorem type? (hu : u.Sound ctx) (h : Rendered s ctx u id f) :
    ∃ a, f.code.type? u.declarations = some a ∧ f.ty.allows a = true := by
  induction h with
  | const hi => exact ⟨_, rfl, Ty.allows_fieldType _⟩
  | @field _ _ g hi hg =>
      refine ⟨g.value.ty.fieldType, ?_, Ty.allows_fieldType _⟩
      simp [Code.type?, hu.field?_eq hg, Field.declared, hu.fieldTypes g hg]
  | @read _ n hi =>
      refine ⟨_, rfl, ?_⟩
      rw [Ty.type_getter (ctx.typeOf_ne_null n.label)]
      exact Ty.allows_exprType _
  | @cached _ n r hi he hr ht =>
      refine ⟨(ctx.typeOf n.label).localType, ?_, Ty.allows_localType _⟩
      simp [Code.type?, hu.local?_eq hr, CachedRead.declared, hu.localReads r hr, LocalRead.of, ht]
  | unary hi hx ht ihx =>
      obtain ⟨a, hf, ha⟩ := ihx
      exact ⟨_, UnaryOp.type?_code hf ha ht, Ty.allows_exprType _⟩
  | binary hi hl hr ht ihl ihr =>
      obtain ⟨a, hf, ha⟩ := ihl
      obtain ⟨b, hg, hb⟩ := ihr
      exact ⟨_, BinaryOp.type?_code hf ha hg hb ht, Ty.allows_exprType _⟩

/-- A whole expression has the type it is said to have; only a constant text may still be static.
The emission decides whether a local is narrowed, and every local of a prepared formula is one that
the emission asked for. -/
theorem type?_root (hu : u.Sound ctx) (h : Rendered s ctx u id f) {n : Node} {shape : Shape}
    (hi : s.inspect id = .ok (n, shape)) :
    ∃ a, (if n.emission.isCached ∧ f.ty = .int then f.narrow else f).code.type? u.declarations = some a ∧
      (a = f.ty.exprType ∨ f.ty = .text ∧ a = .staticText ∧ s.IsConstant id) := by
  split
  · rename_i hnarrow
    obtain ⟨a, hf, ha⟩ := h.type? hu
    have hn : f.ty.isNumeric = true := by rw [hnarrow.2]; rfl
    refine ⟨.i64, Code.type?_cast hf (Ty.isNumber_of_allows hn ha) rfl, .inl ?_⟩
    rw [hnarrow.2]
    rfl
  · rename_i hwide
    have literal : ∀ t : Ty, s.IsConstant id →
        t.fieldType = t.exprType ∨ t = .text ∧ t.fieldType = .staticText ∧ s.IsConstant id := by
      intro t hc
      cases t <;> first | exact .inl rfl | exact .inr ⟨rfl, rfl, hc⟩
    cases h with
    | @const _ n v hi => exact ⟨_, rfl, literal v.ty ⟨n, v, hi⟩⟩
    | @field _ n g hi hg =>
        refine ⟨g.value.ty.fieldType, ?_, literal _ ⟨n, g.value, hi⟩⟩
        simp [Code.type?, hu.field?_eq hg, Field.declared, hu.fieldTypes g hg]
    | @read _ n hi => exact ⟨_, rfl, .inl (Ty.type_getter (ctx.typeOf_ne_null n.label))⟩
    | @cached _ m r hm he hr ht =>
        have hne : ctx.typeOf m.label ≠ .int := by
          cases hi.symm.trans hm
          exact fun hint => hwide ⟨he, hint⟩
        refine ⟨(ctx.typeOf m.label).localType, ?_, .inl ?_⟩
        · simp [Code.type?, hu.local?_eq hr, CachedRead.declared, hu.localReads r hr, LocalRead.of, ht]
        · cases hty : ctx.typeOf m.label <;> first | rfl | exact absurd hty hne
    | unary hi hx ht =>
        obtain ⟨a, hf, ha⟩ := hx.type? hu
        exact ⟨_, UnaryOp.type?_code hf ha ht, .inl rfl⟩
    | binary hi hl hr ht =>
        obtain ⟨a, hf, ha⟩ := hl.type? hu
        obtain ⟨b, hg, hb⟩ := hr.type? hu
        exact ⟨_, BinaryOp.type?_code hf ha hg hb ht, .inl rfl⟩

end Rendered

/-- Every declaration has a name of its own and exactly the type it says. What a local starts from
is typed without any local in scope. -/
structure Declarations.WellTyped (ds : Declarations) : Prop where
  fieldNames : (ds.fields.map (·.name)).Nodup
  localNames : (ds.locals.map (·.name)).Nodup
  fields : ∀ d ∈ ds.fields, (Code.literal d.content).type? ds = some d.type
  locals : ∀ d ∈ ds.locals, d.content.type? { ds with locals := [] } = some d.type

theorem Scope.Sound.wellTyped {ctx : Context} {u : Scope} (hu : u.Sound ctx) :
    u.declarations.WellTyped := by
  refine ⟨hu.nodup_fields, hu.nodup_locals, ?_, ?_⟩
  · intro d hd
    obtain ⟨f, hf, rfl⟩ := List.mem_map.mp hd
    rw [Field.declared, hu.fieldTypes f hf]
    rfl
  · intro d hd
    obtain ⟨r, hr, rfl⟩ := List.mem_map.mp hd
    rw [CachedRead.declared, hu.localReads r hr]
    have hn := ctx.typeOf_ne_null r.text
    cases hty : ctx.typeOf r.text <;>
      simp_all [LocalRead.of, LocalRead.initialiser, Fragment.read, Code.type?, Ty.getter,
        Getter.type, Ty.isNumeric, Ty.localType, TargetType.isNumber]

/-- Generated code is well scoped and well typed. Whichever of the default passes run on a formula
without emissions of its own, the expression it renders to has a type among the declarations that
are left, the one its fragment says except for constant texts, and the declarations have the types
they say. This is so of what the texts of the unit say: where the stems are identifiers, they read
back as these declarations and this expression. -/
theorem renderRoot_wellTyped {t t' : Tree} (ht : t.store.Acyclic) (hp : t.store.PlainFrom t.root)
    (disabled : List String) (ctx : Context)
    (hrun : Pipeline.run { Pipeline.default with disabled } ctx t = .ok ⟨⟩ t')
    {st st' : RenderState} (hfields : st.fields.toList = []) (hlocals : st.locals.toList = [])
    {f : Fragment} (hrender : t'.store.renderRoot ctx t'.root st = .ok f st') :
    let ds := st'.scope.declarations
    ds.WellTyped ∧
    (∃ a, f.code.type? ds = some a ∧
      (a = f.ty.exprType ∨ f.ty = .text ∧ a = .staticText ∧ t'.store.IsConstant t'.root)) ∧
    (isIdentifier st.fields.stem.toList = true → isIdentifier st.locals.stem.toList = true →
      ∀ name, (st'.parts f name).read? = some (ds, f.code)) := by
  obtain ⟨hrw, hroot⟩ := Pipeline.run_ok ht hrun
  have hprep : t'.store.PreparedFrom t'.root := hroot ▸ hrw.prepared hp
  have hread := Store.read?_renderRoot hprep hfields hlocals hrender
  obtain ⟨hst', -, n, shape, g, hi, hg, rfl⟩ :=
    Store.renderRoot_ok hprep (RenderState.sound_of_empty ctx hfields hlocals) hrender
  refine ⟨hst'.scope.wellTyped, ?_, hread⟩
  have hty : (if n.emission.isCached ∧ g.ty = .int then g.narrow else g).ty = g.ty := by
    split <;> rfl
  rw [hty]
  exact hg.type?_root hst'.scope hi

/-- `"n=" + n + 2 * 3`, a text of a literal, a number read at run time and a number known before. -/
def labelledSum : Tree :=
  { store := ⟨#[.binary .add ⟨1⟩ ⟨4⟩, .binary .add ⟨2⟩ ⟨3⟩, .const (.text "n="), .var "n",
      .binary .mul ⟨5⟩ ⟨6⟩, .const (.int 2), .const (.int 3)]⟩
    root := ⟨0⟩ }

/-- The formula when all default passes have run. -/
def labelledSumPrepared : Tree :=
  { store := ⟨#[.binary .add ⟨1⟩ ⟨4⟩, .binary .add ⟨2⟩ ⟨3⟩, .const (.text "n="),
      { Node.var "n" with emission := .cached .inPlace },
      ⟨"*", .const (.int 6), [], .ofConstant (.int 6)⟩, .const (.int 2), .const (.int 3)]⟩
    root := ⟨0⟩ }

/-- What rendering the formula leaves. -/
def labelledSumState : RenderState :=
  { counter := ⟨1⟩
    fields := { stem := "F", entries := #[⟨"F0", .int 6, .int⟩] }
    locals :=
      { stem := "v"
        names := ⟨1⟩
        table := ⟨[("n", 0)], #[⟨"n", "v0", ⟨.read .int "n", .int⟩⟩]⟩
        inStep := by decide } }

/-- The code that the formula renders to. -/
def labelledSumCode : Fragment :=
  ⟨.concat (.concat (.literal (.text "n=")) (.localVar "v0")) (.field "F0"), .text⟩

theorem labelledSum_acyclic : labelledSum.store.Acyclic :=
  Store.acyclic_of_rank (fun id => 9 - id.index) (by decide)

theorem labelledSum_run (n : Int64) :
    Pipeline.run { Pipeline.default with disabled := [] }
      (Bindings.empty.insert "n" (.int n)).context labelledSum = .ok ⟨⟩ labelledSumPrepared := by
  with_unfolding_all rfl

theorem labelledSum_render (n : Int64) :
    labelledSumPrepared.store.renderRoot (Bindings.empty.insert "n" (.int n)).context ⟨0⟩
        { fields := { stem := "F" }, locals := { stem := "v" } } =
      .ok labelledSumCode labelledSumState := by
  with_unfolding_all rfl

theorem renderRoot_wellTyped_labelledSum :
    let ds := labelledSumState.scope.declarations
    ds.WellTyped ∧
    (∃ a, labelledSumCode.code.type? ds = some a ∧
      (a = .ownedText ∨ Ty.text = .text ∧ a = .staticText ∧
        labelledSumPrepared.store.IsConstant ⟨0⟩)) ∧
    labelledSumState.parts labelledSumCode "U" =
      { unitName := "U"
        fields := "    const F0: i64 = 6_i64;"
        locals := "        let v0: f64 = ctx.get_int(\"n\") as f64;   // n"
        expression := "format!(\"\x7b\x7d\x7b\x7d\", format!(\"\x7b\x7d\x7b\x7d\", \"n=\", v0), Self::F0)" } ∧
    (labelledSumState.parts labelledSumCode "U").read? = some (ds, labelledSumCode.code) := by
  intro ds
  obtain ⟨htyped, hcode, hread⟩ := renderRoot_wellTyped labelledSum_acyclic
    (Store.plainFrom_of_all (by decide) _) [] _ (labelledSum_run 7) rfl rfl (labelledSum_render 7)
  exact ⟨htyped, hcode, by decide +kernel, hread rfl rfl "U"⟩

end FormulaCompiler
