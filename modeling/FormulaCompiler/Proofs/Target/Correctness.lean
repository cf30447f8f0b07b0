import FormulaCompiler.Proofs.Decimal.Natural
import FormulaCompiler.Proofs.Target.Semantics
import FormulaCompiler.Proofs.Tree.TypedEvaluation

/-!
# Generated code computes the formula

Wherever a formula has a value, the unit that is generated from it has that value too, as it was
built and as its texts are read. The two sides differ where an integer was cached: its local holds a
float, which every operator casts back, which formatting shows as the integer, and which the root
narrows. All three are right for integers up to `2 ^ 53` only. Where a formula has no value, nothing
is said about its unit.
-/

namespace FormulaCompiler

open Reading

/-- The datum stands for the value: it is the value's own, or the float of an integer that floats
represent. -/
inductive Datum.Holds : Datum → Value → Prop
  | own (v : Value) : Holds v.datum v
  | widened {n : Int64} (h : n.toInt.natAbs ≤ 2 ^ 53) :
      Holds (.f64 (Binary64.floatOfInt n)) (.int n)

namespace Datum.Holds

variable {d : Datum} {v : Value}

theorem cast_i64 {n : Int64} (h : d.Holds (.int n)) : d.cast? .i64 = some (.i64 n) := by
  cases h with
  | own => rfl
  | widened h => rw [Datum.cast?, Binary64.intOfFloat_floatOfInt h]

theorem cast_f64 (h : d.Holds v) {x : Float} (hx : v.number? = some x) :
    d.cast? .f64 = some (.f64 x) := by
  cases h with
  | own => cases v <;> cases hx <;> rfl
  | widened h => cases hx; rfl

theorem display (h : d.Holds v) (hv : v.ty.isShown = true) : d.display? = some v.display := by
  cases h with
  | own => cases v <;> first | rfl | cases hv
  | widened h => rw [Datum.display?, Value.display_floatOfInt h]

theorem eq_datum (h : d.Holds v) (hv : v.ty ≠ .int) : d = v.datum := by
  cases h with
  | own => rfl
  | widened h => exact absurd rfl hv

end Datum.Holds

namespace BinaryOp

theorem exactInt_eq_ok {symbol : String} {n : Int} {v : Value} (h : exactInt symbol n = .ok v) :
    (fitInt64? n).map Datum.i64 = some v.datum := by
  unfold exactInt at h
  split at h
  · rename_i m hm
    cases h
    rw [hm]
    rfl
  · cases h

theorem onSame?_eq (same : Bool) : eq.onSame? same = some (Value.bool (same != false)).datum := by
  cases same <;> rfl

theorem onSame?_ne (same : Bool) : ne.onSame? same = some (Value.bool (same != true)).datum := by
  cases same <;> rfl

/-- On integers the code computes what the operator does. -/
theorem onInts?_of_apply {op : BinaryOp} (hd : op ≠ .div) {a b : Int64} {v : Value}
    (h : op.apply (.int a) (.int b) = .ok v) : op.onInts? a b = some v.datum := by
  cases op with
  | add => exact exactInt_eq_ok h
  | sub => exact exactInt_eq_ok h
  | mul => exact exactInt_eq_ok h
  | div => exact absurd rfl hd
  | mod =>
      simp only [apply, rest] at h
      split at h
      · cases h
      · split at h
        · cases h
        · rename_i hzero hleast
          rw [onInts?, if_neg (not_or.mpr ⟨hzero, hleast⟩)]
          exact exactInt_eq_ok h
  | eq =>
      cases h
      exact onSame?_eq _
  | ne =>
      cases h
      exact onSame?_ne _
  | lt | le | gt | ge =>
      cases h
      rfl
  | and | or => cases h

/-- On two numbers, of which one is a float or which are divided, the code computes what the
operator does to the floats of both. -/
theorem onDoubles?_of_apply {op : BinaryOp} {a b v : Value} {x y : Float}
    (hx : a.number? = some x) (hy : b.number? = some y)
    (hf : op = .div ∨ a.ty.promote? b.ty = some .float) (h : op.apply a b = .ok v) :
    op.onDoubles? x y = some v.datum := by
  rcases hf with rfl | hp
  · simp only [apply, quotient, onFloats, hx, hy] at h
    split at h <;> cases h
    rfl
  · cases a <;> cases hx <;> cases b <;> cases hy <;> cases hp
    all_goals
      cases op with
      | add | sub | mul | lt | le | gt | ge => cases h; rfl
      | div | mod =>
          simp only [apply, quotient, rest, onFloats, Value.number?] at h
          split at h <;> cases h
          rfl
      | eq =>
          cases h
          exact onSame?_eq _
      | ne =>
          cases h
          exact onSame?_ne _
      | and | or => cases h

/-- Where one value is a text and none is null, a sum joins what they show. -/
theorem sum_texts {a b : Value} (h : a.ty = .text ∨ b.ty = .text) (ha : a.ty.isShown = true)
    (hb : b.ty.isShown = true) : sum a b = .ok (.text (a.display ++ b.display)) := by
  cases a <;> cases b <;> simp_all [sum, Value.ty, Ty.isShown]

/-- Values of one type other than a number are compared as their data are. -/
theorem compute?_alike {op : BinaryOp} (ho : op = .eq ∨ op = .ne) {a b v : Value} {t : Ty}
    (ha : a.ty = t) (hb : b.ty = t) (ht : t = .bool ∨ t = .text ∨ t = .null)
    (h : op.apply a b = .ok v) : op.compute? a.datum b.datum = some v.datum := by
  rcases ho with rfl | rfl
  · rcases ht with rfl | rfl | rfl <;> cases a <;> cases ha <;> cases b <;> cases hb <;> cases h <;>
      exact onSame?_eq _
  · rcases ht with rfl | rfl | rfl <;> cases a <;> cases ha <;> cases b <;> cases hb <;> cases h <;>
      exact onSame?_ne _

end BinaryOp

namespace Code

variable {ds : Declarations} {ctx : Context} {locals : Locals} {c e : Code} {l r d : Datum}

theorem eval?_cast {type : TargetType} (hc : c.eval? ds ctx locals = some l)
    (hd : l.cast? type = some d) : (cast c type).eval? ds ctx locals = some d := by
  simp [Code.eval?, hc, hd]

theorem eval?_unary {op : UnaryOp} (hc : c.eval? ds ctx locals = some l)
    (hd : op.compute? l = some d) : (unary op c).eval? ds ctx locals = some d := by
  simp [Code.eval?, hc, hd]

/-- A connective that the left operand decides gives what both operands give. -/
theorem eval?_binary {op : BinaryOp} (hc : c.eval? ds ctx locals = some l)
    (he : e.eval? ds ctx locals = some r) (hd : op.compute? l r = some d) :
    (binary op c e).eval? ds ctx locals = some d := by
  have hsettled : ∀ d', op.settled? l = some d' → d' = d := by
    intro d' hs
    unfold BinaryOp.settled? at hs
    split at hs <;> cases hs <;> cases r <;> cases hd <;> rfl
  simp only [Code.eval?, hc, Option.bind_eq_bind, Option.bind_some]
  split
  · rename_i d' hs
    rw [hsettled d' hs]
  · rw [he]
    exact hd

theorem eval?_concat {a b : String} (hc : c.eval? ds ctx locals = some l)
    (he : e.eval? ds ctx locals = some r) (ha : l.display? = some a) (hb : r.display? = some b) :
    (concat c e).eval? ds ctx locals = some (.text (a ++ b)) := by
  simp [Code.eval?, hc, he, ha, hb]

end Code

section Operators

variable {ds : Declarations} {ctx : Context} {locals : Locals} {f g : Fragment} {d e : Datum}
  {a b v : Value} {ty : Ty}

/-- The code of an operator evaluates to the operator's value. -/
theorem BinaryOp.eval?_code {op : BinaryOp} (hf : f.code.eval? ds ctx locals = some d)
    (hd : d.Holds a) (ha : a.ty = f.ty) (hg : g.code.eval? ds ctx locals = some e)
    (he : e.Holds b) (hb : b.ty = g.ty) (ht : op.resultType? f.ty g.ty = some ty)
    (hv : op.apply a b = .ok v) : (op.code ty f g).eval? ds ctx locals = some v.datum := by
  obtain ⟨c, l⟩ := f
  obtain ⟨c', r⟩ := g
  simp only at hf ha hg hb
  cases route ht with
  | ints hne h =>
      rw [code_ints hne rfl rfl h]
      cases a <;> cases ha
      cases b <;> cases hb
      exact Code.eval?_binary (Code.eval?_cast hf hd.cast_i64) (Code.eval?_cast hg he.cast_i64)
        (onInts?_of_apply hne hv)
  | floats hl hr hm h =>
      rw [code_floats hm h]
      rw [← ha] at hl hm
      rw [← hb] at hr hm
      obtain ⟨x, hx⟩ := Option.isSome_iff_exists.mp (a.number?_isSome_iff.mpr hl)
      obtain ⟨y, hy⟩ := Option.isSome_iff_exists.mp (b.number?_isSome_iff.mpr hr)
      exact Code.eval?_binary (Code.eval?_cast hf (hd.cast_f64 hx))
        (Code.eval?_cast hg (he.cast_f64 hy)) (onDoubles?_of_apply hx hy hm hv)
  | texts hone hl hr =>
      rw [code_texts]
      rw [← ha] at hone hl
      rw [← hb] at hone hr
      rw [apply, sum_texts hone hl hr] at hv
      cases hv
      exact Code.eval?_concat hf hg (hd.display hl) (he.display hr)
  | alike ho h =>
      have hint : l ≠ .int := by rcases h with rfl | rfl | rfl <;> decide
      rw [hd.eq_datum (ha ▸ hint)] at hf
      rw [he.eq_datum (hb ▸ hint)] at hg
      rw [code_alike (f := ⟨c, l⟩) (g := ⟨c', l⟩) ho rfl rfl h]
      exact Code.eval?_binary hf hg (compute?_alike ho ha hb h hv)
  | bools ho =>
      rw [code_bools ho]
      cases a <;> cases ha
      cases b <;> cases hb
      rw [hd.eq_datum (by simp [Value.ty])] at hf
      rw [he.eq_datum (by simp [Value.ty])] at hg
      refine Code.eval?_binary hf hg ?_
      rcases ho with rfl | rfl <;> cases hv <;> rfl

theorem UnaryOp.eval?_code {op : UnaryOp} (hf : f.code.eval? ds ctx locals = some d)
    (hd : d.Holds a) (ha : a.ty = f.ty) (ht : op.resultType? f.ty = some ty)
    (hv : op.apply a = .ok v) : (op.code ty f).eval? ds ctx locals = some v.datum := by
  cases op with
  | neg =>
      obtain ⟨hn, rfl⟩ : f.ty.isNumeric = true ∧ f.ty = ty := by simpa [resultType?] using ht
      rw [← ha] at hn
      cases a <;> cases hn
      · rw [code, ← ha]
        exact Code.eval?_unary (Code.eval?_cast hf hd.cast_i64) (BinaryOp.exactInt_eq_ok hv)
      · rw [code, ← ha]
        cases hv
        exact Code.eval?_unary (Code.eval?_cast hf (hd.cast_f64 rfl)) rfl
  | not =>
      obtain ⟨hb, rfl⟩ : f.ty = .bool ∧ .bool = ty := by simpa [resultType?] using ht
      rw [hb] at ha
      cases a <;> cases ha
      rw [hd.eq_datum (by simp [Value.ty])] at hf
      cases hv
      exact Code.eval?_unary hf rfl

end Operators

/-- What a local holds of what was read. -/
def Datum.widen : Datum → Datum
  | .i64 n => .f64 (Binary64.floatOfInt n)
  | d => d

/-- The getter of a value's own type answers the value. -/
theorem Getter.read_typed {ctx : Context} {name : String} {v : Value} (h : ctx.get? name = some v)
    (hn : v.ty ≠ .null) : v.ty.getter.read ctx name = v.datum := by
  have hv : ctx.getValue name = v := by rw [Context.getValue, h]; rfl
  cases v with
  | null => exact absurd rfl hn
  | int n => simp [Value.ty, Ty.getter, read, Context.getInt, hv, Value.toInt64, Value.datum]
  | float x =>
      simp [Value.ty, Ty.getter, read, Context.getFloat, hv, Value.toFloat, Value.number?,
        Value.datum]
  | bool b => simp [Value.ty, Ty.getter, read, Context.getBool, hv, Value.isTrue, Value.datum]
  | text s => simp [Value.ty, Ty.getter, read, Context.getText, hv, Value.display, Value.datum]

/-- A local can always be declared, and what it holds depends on no other local. -/
theorem LocalRead.eval?_initialiser (ds : Declarations) (ctx ctx' : Context) (name : String)
    (locals : Locals) :
    (LocalRead.of ctx name).initialiser.eval? ds ctx' locals =
      some ((ctx.typeOf name).getter.read ctx' name).widen := by
  have hn := ctx.typeOf_ne_null name
  cases hty : ctx.typeOf name <;>
    simp_all [LocalRead.of, LocalRead.initialiser, Fragment.read, Code.eval?, Ty.isNumeric,
      Ty.getter, Getter.read, Datum.cast?, Datum.widen]

namespace Scope

variable {u : Scope} {ctx : Context}

/-- Every local of the scope holds the read of its variable. -/
def Filled (u : Scope) (ctx ctx' : Context) (locals : Locals) : Prop :=
  ∀ r ∈ u.locals, locals r.name = some ((ctx.typeOf r.text).getter.read ctx' r.text).widen

theorem declare?_reads (ds : Declarations) (ctx' : Context) {rs : List (CachedRead LocalRead)}
    (hreads : ∀ r ∈ rs, r.body = .of ctx r.text) (hn : (rs.map (·.name)).Nodup) (locals : Locals) :
    ∃ filled, ds.declare? ctx' (rs.map (·.declared)) locals = some filled ∧
      (∀ r ∈ rs, filled r.name = some ((ctx.typeOf r.text).getter.read ctx' r.text).widen) ∧
      ∀ name, name ∉ rs.map (·.name) → filled name = locals name := by
  induction rs generalizing locals with
  | nil => exact ⟨locals, rfl, by simp, fun _ _ => rfl⟩
  | cons r rest ih =>
      rw [List.map_cons, List.nodup_cons] at hn
      obtain ⟨filled, hfilled, hrest, hother⟩ :=
        ih (fun q hq => hreads q (List.mem_cons_of_mem _ hq)) hn.2
          fun name => if name = r.name then
            some ((ctx.typeOf r.text).getter.read ctx' r.text).widen else locals name
      refine ⟨filled, ?_, ?_, ?_⟩
      · rw [List.map_cons, Declarations.declare?, CachedRead.declared,
          hreads r List.mem_cons_self, LocalRead.eval?_initialiser]
        exact hfilled
      · intro q hq
        rcases List.mem_cons.mp hq with rfl | hq
        · rw [hother _ hn.1, if_pos rfl]
        · exact hrest q hq
      · intro name hname
        rw [List.map_cons, List.mem_cons, not_or] at hname
        rw [hother name hname.2, if_neg hname.1]

theorem Sound.declare?_filled (hu : u.Sound ctx) (ctx' : Context) :
    ∃ locals, u.declarations.declare? ctx' u.declarations.locals (fun _ => none) = some locals ∧
      u.Filled ctx ctx' locals := by
  obtain ⟨locals, hl, hfilled, -⟩ :=
    declare?_reads u.declarations ctx' hu.localReads hu.localNames fun _ => none
  exact ⟨locals, hl, hfilled⟩

end Scope

/-- How the datum of a node's fragment stands for the node's value: as the value's own, as the float
of a cached integer, or unconverted when the type was not known. -/
inductive Carries (s : Store) (id : NodeId) (ty : Ty) : Datum → Value → Prop
  | own {v : Value} (ht : v.ty = ty) : Carries s id ty v.datum v
  | widened {n : Node} {k : Int64} (hi : s.inspect id = .ok (n, .var))
      (he : n.emission.isCached = true) (ht : ty = .int) (hk : k.toInt.natAbs ≤ 2 ^ 53) :
      Carries s id ty (.f64 (Binary64.floatOfInt k)) (.int k)
  | unknown {v : Value} (ht : ty = .dynamic) : Carries s id ty (.value v) v

theorem Carries.holds {s : Store} {id : NodeId} {ty : Ty} {d : Datum} {v : Value}
    (h : Carries s id ty d v) (hty : ty ≠ .dynamic) : d.Holds v ∧ v.ty = ty := by
  cases h with
  | own ht => exact ⟨.own v, ht⟩
  | widened _ _ ht hk => exact ⟨.widened hk, ht.symm⟩
  | unknown ht => exact absurd ht hty

/-- The integers that locals hold as floats are floats. -/
def Scope.Exact (u : Scope) (ctx' : Context) : Prop :=
  ∀ r ∈ u.locals, r.body.ty = .int → ∀ n, ctx'.get? r.text = some (.int n) →
    n.toInt.natAbs ≤ 2 ^ 53

section Simulation

variable {s : Store} {ctx ctx' : Context} {u : Scope} {locals : Locals}

/-- What is read of a variable that has a value, under the type that generation gave it. -/
theorem Context.AgreesAt.read {id : NodeId} {n : Node} {v : Value}
    (hctx : ctx.AgreesAt ctx' s id) (hi : s.inspect id = .ok (n, .var))
    (hv : s.eval ctx' id = .ok v) :
    ctx'.get? n.label = some v ∧
      ((ctx.typeOf n.label = .dynamic ∧
          (ctx.typeOf n.label).getter.read ctx' n.label = .value v) ∨
        (v.ty = ctx.typeOf n.label ∧
          (ctx.typeOf n.label).getter.read ctx' n.label = v.datum)) := by
  have hget : ctx'.get? n.label = some v := by
    rw [Store.eval_var ctx' hi, Store.lookUp] at hv
    split at hv
    · rename_i w hw
      cases hv
      exact hw
    · cases hv
  refine ⟨hget, ?_⟩
  by_cases hty : ctx.typeOf n.label = .dynamic
  · refine .inl ⟨hty, ?_⟩
    rw [hty]
    change Datum.value (ctx'.getValue n.label) = _
    rw [Context.getValue, hget]
    rfl
  · have hsame := hctx n.label (Store.mentions_of_var hi) hty
    obtain ⟨w, hw, hwty⟩ := Context.get?_of_typeOf (hsame.symm ▸ hty)
    cases hget.symm.trans hw
    have hvty : v.ty = ctx.typeOf n.label := hwty.trans hsame
    refine .inr ⟨hvty, ?_⟩
    rw [← hvty]
    exact Getter.read_typed hget (hvty ▸ ctx.typeOf_ne_null n.label)

/-- The code of a node that has a value evaluates to it. -/
theorem Rendered.eval? (hs : s.Acyclic) (hu : u.Sound ctx) (hfill : u.Filled ctx ctx' locals)
    (hexact : u.Exact ctx') {id : NodeId} {f : Fragment} (h : Rendered s ctx u id f)
    (hctx : ctx.AgreesAt ctx' s id) {v : Value} (hv : s.eval ctx' id = .ok v) :
    ∃ d, f.code.eval? u.declarations ctx' locals = some d ∧ Carries s id f.ty d v := by
  induction h generalizing v with
  | const hi =>
      rw [Store.eval_const ctx' hi] at hv
      cases hv
      exact ⟨_, rfl, .own rfl⟩
  | @field _ _ g hi hg =>
      rw [Store.eval_const ctx' hi] at hv
      cases hv
      refine ⟨g.value.datum, ?_, .own rfl⟩
      simp [Code.eval?, hu.field?_eq hg, Field.declared]
  | @read _ n hi =>
      obtain ⟨_, ⟨hty, hread⟩ | ⟨hty, hread⟩⟩ := hctx.read hi hv
      · exact ⟨.value v, congrArg some hread, .unknown hty⟩
      · exact ⟨v.datum, congrArg some hread, .own hty⟩
  | @cached id n r hi he hr ht =>
      have hlocal := hfill r hr
      rw [ht] at hlocal
      obtain ⟨hget, ⟨hty, hread⟩ | ⟨hty, hread⟩⟩ := hctx.read hi hv
      · rw [hread] at hlocal
        exact ⟨.value v, hlocal, .unknown hty⟩
      · rw [hread] at hlocal
        refine ⟨v.datum.widen, hlocal, ?_⟩
        by_cases hint : v.ty = .int
        · cases v <;> cases hint
          have hbody : r.body.ty = .int := by
            rw [hu.localReads r hr, ht]
            exact hty.symm
          exact .widened hi he hty.symm (hexact r hr hbody _ (ht ▸ hget))
        · have hsame : v.datum.widen = v.datum := by
            cases v <;> first | rfl | exact absurd rfl hint
          rw [hsame]
          exact .own hty
  | @unary _ x _ op g ty hi hx ht ih =>
      obtain ⟨a, ha, happly⟩ := hs.eval_unary_ok hi hv
      obtain ⟨d, hd, hcarries⟩ := ih (hctx.below (Store.child_of_unary hi)) ha
      obtain ⟨hx, hxty⟩ := hcarries.holds (op.resultType?_dynamic g.ty ty ht).1
      have hvty := UnaryOp.ty_of_apply (hxty ▸ ht) happly
      exact ⟨v.datum, UnaryOp.eval?_code hd hx hxty ht happly, .own hvty⟩
  | @binary _ l r _ op g g' ty hi hl hr ht ihl ihr =>
      obtain ⟨hcl, hcr⟩ := Store.child_of_binary hi
      obtain ⟨a, b, ha, hb, happly⟩ := hs.eval_binary_ok hi hv
      obtain ⟨d, hd, hcl⟩ := ihl (hctx.below hcl) ha
      obtain ⟨e, he, hcr⟩ := ihr (hctx.below hcr) hb
      obtain ⟨hdl, hdr, _⟩ := op.resultType?_dynamic g.ty g'.ty ty ht
      obtain ⟨hl, hlty⟩ := hcl.holds hdl
      obtain ⟨hr, hrty⟩ := hcr.holds hdr
      have hvty := BinaryOp.ty_of_apply (hlty ▸ hrty ▸ ht) happly
      exact ⟨v.datum, BinaryOp.eval?_code hd hl hlty he hr hrty ht happly, .own hvty⟩

/-- The whole expression of a node that has a value evaluates to that value. -/
theorem Rendered.eval?_root (hs : s.Acyclic) (hu : u.Sound ctx)
    (hfill : u.Filled ctx ctx' locals) (hexact : u.Exact ctx') {id : NodeId} {f : Fragment}
    (h : Rendered s ctx u id f) (hctx : ctx.AgreesAt ctx' s id) {n : Node} {shape : Shape}
    (hi : s.inspect id = .ok (n, shape)) {v : Value} (hv : s.eval ctx' id = .ok v) :
    ∃ d, (if n.emission.isCached ∧ f.ty = .int then f.narrow else f).code.eval? u.declarations ctx'
        locals = some d ∧ d.toValue = v := by
  obtain ⟨d, hd, hcarries⟩ := h.eval? hs hu hfill hexact hctx hv
  split
  · rename_i hnarrow
    obtain ⟨hholds, hty⟩ := hcarries.holds (by rw [hnarrow.2]; decide)
    rw [hnarrow.2] at hty
    cases v <;> cases hty
    exact ⟨_, Code.eval?_cast hd hholds.cast_i64, rfl⟩
  · rename_i hwide
    refine ⟨d, hd, ?_⟩
    cases hcarries with
    | own ht => exact v.toValue_datum
    | widened hm he ht hk =>
        cases hi.symm.trans hm
        exact absurd ⟨he, ht⟩ hwide
    | unknown ht => rfl

end Simulation

/-- A unit computes what its formula computes. Whichever of the default passes run on a formula
without emissions of its own, and whatever the run-time context binds the variables to as long as it
keeps the types that generation saw, a formula that has a value has the same value as a unit, and,
where the stems are identifiers, as the texts of that unit. An integer that a local keeps as a float
has to be one that floats represent. -/
theorem run?_renderRoot {t t' : Tree} (ht : t.store.Acyclic) (hp : t.store.PlainFrom t.root)
    (disabled : List String) (ctx : Context)
    (hrun : Pipeline.run { Pipeline.default with disabled } ctx t = .ok ⟨⟩ t')
    {st st' : RenderState} (hfields : st.fields.toList = []) (hlocals : st.locals.toList = [])
    {f : Fragment} (hrender : t'.store.renderRoot ctx t'.root st = .ok f st')
    (ctx' : Context) (hctx : ctx.AgreesAt ctx' t.store t.root) (hexact : st'.scope.Exact ctx')
    {v : Value} (hv : t.eval ctx' = .ok v) :
    ∃ d, st'.scope.declarations.run? ctx' f.code = some d ∧ d.toValue = v ∧
      (isIdentifier st.fields.stem.toList = true → isIdentifier st.locals.stem.toList = true →
        ∀ name, (st'.parts f name).run? ctx' = some d) := by
  obtain ⟨hrw, hroot⟩ := Pipeline.run_ok ht hrun
  have hprep : t'.store.PreparedFrom t'.root := hroot ▸ hrw.prepared hp
  have hctx' : ctx.AgreesAt ctx' t'.store t'.root :=
    fun name hm => hctx name (hrw.mentions (hroot ▸ hm))
  have hv' : t'.store.eval ctx' t'.root = .ok v := by
    rw [hroot, hrw.eval_eq ht]
    exact hv
  have hread := Store.read?_renderRoot hprep hfields hlocals hrender
  obtain ⟨hst', -, n, shape, g, hi, hg, rfl⟩ :=
    Store.renderRoot_ok hprep (RenderState.sound_of_empty ctx hfields hlocals) hrender
  obtain ⟨locals, hdeclare, hfill⟩ := hst'.scope.declare?_filled ctx'
  obtain ⟨d, hd, hdv⟩ :=
    hg.eval?_root (hrw.acyclic ht) hst'.scope hfill hexact hctx' hi hv'
  have hunit : st'.scope.declarations.run? ctx'
      (if n.emission.isCached ∧ g.ty = .int then g.narrow else g).code = some d := by
    rw [Declarations.run?, hdeclare]
    exact hd
  refine ⟨d, hunit, hdv, ?_⟩
  intro hfield hlocal name
  rw [Parts.run?, hread hfield hlocal name]
  exact hunit

/-- A unit that was generated for another number, at the largest one that a local may hold. -/
theorem run?_renderRoot_labelledSum :
    let ctx' := (Bindings.empty.insert "n" (.int 9007199254740992)).context
    labelledSumState.scope.Exact ctx' ∧
    labelledSum.eval ctx' = .ok (.text "n=90071992547409926") ∧
    ∃ d, labelledSumState.scope.declarations.run? ctx' labelledSumCode.code = some d ∧
      d.toValue = .text "n=90071992547409926" ∧
      (labelledSumState.parts labelledSumCode "U").run? ctx' = some d := by
  intro ctx'
  have hexact : labelledSumState.scope.Exact ctx' := by
    intro r _ _ n hn
    have hn : n = 9007199254740992 := by
      simp only [ctx', Bindings.context, Bindings.get?_insert, Bindings.get?_empty] at hn
      split at hn <;> cases hn
      rfl
    rw [hn]
    decide
  have hv : labelledSum.eval ctx' = .ok (.text "n=90071992547409926") := by cbv
  obtain ⟨d, hunit, hd, htexts⟩ := run?_renderRoot labelledSum_acyclic
    (Store.plainFrom_of_all (by decide) _) [] _ (labelledSum_run 7) rfl rfl (labelledSum_render 7)
    ctx' (agreesAt_ints "n" 7 _ _ _) hexact hv
  exact ⟨hexact, hv, d, hunit, hd, htexts rfl rfl "U"⟩

end FormulaCompiler
