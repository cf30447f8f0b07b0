import FormulaCompiler.Fragment.Render
import FormulaCompiler.Proofs.Ends
import FormulaCompiler.Proofs.Naming
import FormulaCompiler.Proofs.Pass.Prepared
import FormulaCompiler.Proofs.Tree.Typing

/-!
# What rendering a prepared formula gives

`Rendered` says which fragment belongs to a node in a scope, the fields and locals of a unit, one
rule for each way in which a prepared node enters code. Rendering only adds to the scope, gives
every field and every local a name of its own, and its fragment belongs to its node in the scope it
leaves. What queueing a field and declaring a local come to is said for any state; formulas that are
not prepared are left out.
-/

namespace FormulaCompiler

/-- A list of names stays without repetition when a new name comes last. -/
theorem nodup_names_append {α : Type} {name : α → String} {xs : List α} {x : α}
    (hn : (xs.map name).Nodup) (hx : name x ∉ xs.map name) : ((xs ++ [x]).map name).Nodup := by
  rw [List.map_append, List.nodup_append]
  refine ⟨hn, by simp, ?_⟩
  intro a ha b hb hab
  rw [List.map_singleton, List.mem_singleton] at hb
  exact hx (hb ▸ hab ▸ ha)

/-- An element is found by a key that no other element has. -/
theorem find?_key_of_mem {α : Type} {key : α → String} {xs : List α} {x : α}
    (hn : (xs.map key).Nodup) (hx : x ∈ xs) : xs.find? (fun y => key y = key x) = some x := by
  induction xs with
  | nil => cases hx
  | cons y rest ih =>
      rw [List.map_cons, List.nodup_cons] at hn
      rcases List.mem_cons.mp hx with rfl | hx
      · simp
      · have hne : key y ≠ key x := fun h => hn.1 (h ▸ List.mem_map_of_mem hx)
        rw [List.find?_cons_of_neg (by simpa using hne)]
        exact ih hn.2 hx

/-- What a unit declares. -/
structure Scope where
  fields : List Field
  locals : List (CachedRead LocalRead)

/-- The second scope has the declarations of the first, and others after them. -/
structure Scope.Grows (u v : Scope) : Prop where
  fields : u.fields <+: v.fields
  locals : u.locals <+: v.locals

theorem Scope.Grows.refl (u : Scope) : u.Grows u := ⟨List.prefix_rfl, List.prefix_rfl⟩

theorem Scope.Grows.trans {u v w : Scope} (h : u.Grows v) (h' : v.Grows w) : u.Grows w :=
  ⟨h.fields.trans h'.fields, h.locals.trans h'.locals⟩

/-- The declaration of a variable's read. -/
def LocalRead.of (ctx : Context) (name : String) : LocalRead :=
  ⟨(Fragment.read ctx name).code, ctx.typeOf name⟩

/-- The fragment belongs to the node: in place it is put together from the fragments of the
operands, a kept constant is a field with its value, and a cached variable is a local with its
read. -/
inductive Rendered (s : Store) (ctx : Context) (u : Scope) : NodeId → Fragment → Prop
  | const {id : NodeId} {n : Node} {v : Value} (hi : s.inspect id = .ok (n, .const v)) :
      Rendered s ctx u id (.const v)
  | field {id : NodeId} {n : Node} {f : Field} (hi : s.inspect id = .ok (n, .const f.value))
      (hf : f ∈ u.fields) : Rendered s ctx u id ⟨.field f.name, f.value.ty⟩
  | read {id : NodeId} {n : Node} (hi : s.inspect id = .ok (n, .var))
      (he : n.emission.isCached = false) : Rendered s ctx u id (.read ctx n.label)
  | cached {id : NodeId} {n : Node} {r : CachedRead LocalRead}
      (hi : s.inspect id = .ok (n, .var)) (he : n.emission.isCached = true) (hr : r ∈ u.locals)
      (ht : r.text = n.label) : Rendered s ctx u id ⟨.localVar r.name, ctx.typeOf n.label⟩
  | unary {id x : NodeId} {n : Node} {op : UnaryOp} {f : Fragment} {ty : Ty}
      (hi : s.inspect id = .ok (n, .unary op x)) (hx : Rendered s ctx u x f)
      (ht : op.resultType? f.ty = some ty) : Rendered s ctx u id ⟨op.code ty f, ty⟩
  | binary {id l r : NodeId} {n : Node} {op : BinaryOp} {f g : Fragment} {ty : Ty}
      (hi : s.inspect id = .ok (n, .binary op l r)) (hl : Rendered s ctx u l f)
      (hr : Rendered s ctx u r g) (ht : op.resultType? f.ty g.ty = some ty) :
      Rendered s ctx u id ⟨op.code ty f g, ty⟩

theorem Rendered.mono {s : Store} {ctx : Context} {u v : Scope} {id : NodeId} {f : Fragment}
    (h : Rendered s ctx u id f) (hg : u.Grows v) : Rendered s ctx v id f := by
  induction h with
  | const hi => exact .const hi
  | field hi hf => exact .field hi (hg.fields.subset hf)
  | read hi he => exact .read hi he
  | cached hi he hr ht => exact .cached hi he (hg.locals.subset hr) ht
  | unary hi _ ht ihx => exact .unary hi ihx ht
  | binary hi _ _ ht ihl ihr => exact .binary hi ihl ihr ht

/-- Names tell the declarations of a scope apart, a field has the type of its value, and a local
keeps the read of a variable. -/
structure Scope.Sound (ctx : Context) (u : Scope) : Prop where
  fieldNames : (u.fields.map (·.name)).Nodup
  fieldTypes : ∀ f ∈ u.fields, f.ty = f.value.ty
  localNames : (u.locals.map (·.name)).Nodup
  localReads : ∀ r ∈ u.locals, r.body = .of ctx r.text

theorem Scope.Sound.addField {ctx : Context} {u : Scope} (hu : u.Sound ctx) {name : String}
    (hn : name ∉ u.fields.map (·.name)) (v : Value) :
    Scope.Sound ctx { u with fields := u.fields ++ [⟨name, v, v.ty⟩] } := by
  refine ⟨nodup_names_append hu.fieldNames hn, ?_, hu.localNames, hu.localReads⟩
  intro f hf
  rcases List.mem_append.mp hf with hf | hf
  · exact hu.fieldTypes f hf
  · rw [List.mem_singleton.mp hf]

theorem Scope.Sound.addLocal {ctx : Context} {u : Scope} (hu : u.Sound ctx) {name : String}
    (hn : name ∉ u.locals.map (·.name)) (text : String) :
    Scope.Sound ctx { u with locals := u.locals ++ [⟨text, name, .of ctx text⟩] } := by
  refine ⟨hu.fieldNames, hu.fieldTypes, nodup_names_append hu.localNames hn, ?_⟩
  intro r hr
  rcases List.mem_append.mp hr with hr | hr
  · exact hu.localReads r hr
  · rw [List.mem_singleton.mp hr]

namespace ReadCache

variable {α : Type} {c c' : ReadCache α} {text name : String}

theorem nodup_texts (c : ReadCache α) : (c.toList.map (·.text)).Nodup := c.inStep.2

/-- Texts do not repeat, so looking up finds the first read with a text. -/
theorem get?_eq (c : ReadCache α) (text : String) :
    c.get? text = (c.toList.find? fun r => r.text = text).map (·.name) := by
  cases hget : c.get? text with
  | none =>
      have hfree := get?_eq_none_iff.mp hget
      rw [List.find?_eq_none.mpr fun r hr => by simpa using hfree r hr]
      rfl
  | some name =>
      obtain ⟨r, hr, rfl, rfl⟩ := get?_eq_some_iff.mp hget
      rw [find?_key_of_mem c.nodup_texts hr]
      rfl

/-- A read that is cached stays cached when others come after it. -/
theorem get?_of_append {more : List (CachedRead α)} (h : c'.toList = c.toList ++ more)
    (hg : c.get? text = some name) : c'.get? text = some name := by
  obtain ⟨r, hr, htext, hname⟩ := get?_eq_some_iff.mp hg
  exact get?_eq_some_iff.mpr ⟨r, by rw [h]; exact List.mem_append_left _ hr, htext, hname⟩

/-- A read is found under the name it is added with. -/
theorem get?_of_new {body : α} (h : c'.toList = c.toList ++ [⟨text, name, body⟩]) :
    c'.get? text = some name :=
  get?_eq_some_iff.mpr ⟨⟨text, name, body⟩, by simp [h], rfl, rfl⟩

/-- The name that the next local gets. -/
def nextName (c : ReadCache α) : String := numbered c.stem c.names.value

end ReadCache

namespace RenderState

/-- The state with one more field. -/
def withField (st : RenderState) (v : Value) (ty : Ty) : RenderState :=
  { st with
    counter := ⟨st.counter.value + 1⟩
    fields := st.fields.add ⟨numbered st.fields.stem st.counter.value, v, ty⟩ }

/-- The state after the number of a local was drawn. -/
def withNumber (st : RenderState) : RenderState :=
  { st with locals := { st.locals with names := ⟨st.locals.names.value + 1⟩ } }

/-- The state with one more local, for a variable that had none. -/
def withLocal (st : RenderState) (text : String) (read : Fragment)
    (hnew : st.locals.get? text = none) : RenderState :=
  let drawn := st.withNumber.locals
  have hplace := (drawn.new_iff text).mpr (ReadCache.get?_eq_none_iff.mp hnew)
  { st with locals := drawn.add ⟨text, st.locals.nextName, ⟨read.code, read.ty⟩⟩ hplace }

@[simp] theorem fields_withField (st : RenderState) (v : Value) (ty : Ty) :
    (st.withField v ty).fields.toList =
      st.fields.toList ++ [⟨numbered st.fields.stem st.counter.value, v, ty⟩] :=
  FieldQueue.toList_add ..

@[simp] theorem locals_withNumber (st : RenderState) :
    st.withNumber.locals.toList = st.locals.toList :=
  rfl

@[simp] theorem locals_withLocal (st : RenderState) (text : String) (read : Fragment)
    (hnew : st.locals.get? text = none) :
    (st.withLocal text read hnew).locals.toList =
      st.locals.toList ++ [⟨text, st.locals.nextName, ⟨read.code, read.ty⟩⟩] := by
  simp [withLocal]

/-- The error says that a counter has come to its end, and so it has. -/
inductive Exhausted (st : RenderState) : BuildError → Prop
  | fields (h : Counter.last ≤ st.counter.value) : Exhausted st (.clash .numbersExhausted)
  | locals (h : Counter.last ≤ st.locals.names.value) :
      Exhausted st (.clash .localNumbersExhausted)

/-- The declarations collected so far. -/
def scope (st : RenderState) : Scope := ⟨st.fields.toList, st.locals.toList⟩

/-- The scope is sound, and its fields have drawn their numbers from the counter. -/
structure Sound (ctx : Context) (st : RenderState) : Prop where
  scope : st.scope.Sound ctx
  drawn : ∀ f ∈ st.scope.fields, ∃ k < st.counter.value, f.name = numbered st.fields.stem k

/-- Nothing is declared yet. -/
theorem sound_of_empty (ctx : Context) {st : RenderState} (hf : st.fields.toList = [])
    (hl : st.locals.toList = []) : st.Sound ctx := by
  have hs : st.scope = ⟨[], []⟩ := by rw [RenderState.scope, hf, hl]
  constructor
  · constructor <;> simp [hs]
  · simp [hs]

end RenderState

/-- How a part of rendering ends well: the scope has grown, is still sound, and stands in a relation
to the fragment. -/
def Renders (ctx : Context) (st : RenderState) (rel : Scope → Fragment → Prop) (f : Fragment)
    (st' : RenderState) : Prop :=
  st'.Sound ctx ∧ st.scope.Grows st'.scope ∧ rel st'.scope f

namespace RenderM

variable {s : Store} {ctx : Context} {st : RenderState}

theorem nodeAt_misfit {id : NodeId} {m : Store.Misfit} (hi : s.inspect id = .error m) :
    nodeAt s id st = .error (m.buildError .render id) st := by
  rw [nodeAt, Store.inspectAt_misfit hi]

theorem nodeAt_ok {id : NodeId} {found : Node × Shape} (hi : s.inspect id = .ok found) :
    nodeAt s id st = .ok found st := by
  rw [nodeAt, Store.inspectAt_ok hi]

theorem nodeAt_ends (s : Store) (id : NodeId) (st : RenderState) :
    Ends (nodeAt s id) st (fun found st' => st' = st ∧ s.inspect id = .ok found)
      (fun _ _ => True) := by
  unfold Ends nodeAt
  cases h : s.inspect id with
  | error m => simp [Store.inspectAt_misfit h]
  | ok found => simp [Store.inspectAt_ok h]

theorem typed_ends (ty : Except BuildError Ty) (st : RenderState) :
    Ends (typed ty) st (fun t st' => st' = st ∧ ty = .ok t) (fun _ _ => True) := by
  unfold Ends typed
  cases ty <;> simp

theorem cachedLocal?_ends (name : String) (st : RenderState) :
    Ends (cachedLocal? name) st (fun found st' => st' = st ∧ st.locals.get? name = found)
      (fun _ _ => True) :=
  ⟨rfl, rfl⟩

/-- A field is queued under the next number, if there is one. -/
theorem hoist_eq (v : Value) (ty : Ty) (st : RenderState) :
    hoist v ty st =
      if st.counter.value < Counter.last then
        .ok ⟨.field (numbered st.fields.stem st.counter.value), ty⟩ (st.withField v ty)
      else .error (.clash .numbersExhausted) st := by
  obtain ⟨counter, fields, locals⟩ := st
  by_cases h : counter.value < Counter.last
  · simp only [hoist, FieldQueue.push_of_lt h, if_pos h]
    rfl
  · simp only [hoist, FieldQueue.push_of_le (Nat.not_lt.mp h), if_neg h]

theorem hoist_runs (v : Value) (ty : Ty) (st : RenderState) :
    Ends (hoist v ty) st
      (fun f st' => f = ⟨.field (numbered st.fields.stem st.counter.value), ty⟩ ∧
        st' = st.withField v ty)
      (fun e st' => st.Exhausted e ∧ st' = st) := by
  unfold Ends
  rw [hoist_eq]
  by_cases h : st.counter.value < Counter.last
  · rw [if_pos h]
    exact ⟨rfl, rfl⟩
  · rw [if_neg h]
    exact ⟨.fields (Nat.not_lt.mp h), rfl⟩

/-- A local is declared under the next number, if there is one and neither its variable nor its name
is taken. Where one of them is, the number is lost. -/
theorem declare_eq (name : String) (read : Fragment) (st : RenderState) :
    declare name read st =
      if st.locals.names.value < Counter.last then
        if hnew : st.locals.get? name = none then
          if ∃ r ∈ st.locals.toList, r.name = st.locals.nextName then
            .error (.clash (.localDeclared st.locals.nextName)) st.withNumber
          else .ok ⟨.localVar st.locals.nextName, read.ty⟩ (st.withLocal name read hnew)
        else .error (.clash (.readCached name)) st.withNumber
      else .error (.clash .localNumbersExhausted) st := by
  obtain ⟨counter, fields, locals⟩ := st
  let drawn : ReadCache LocalRead := { locals with names := ⟨locals.names.value + 1⟩ }
  by_cases hlast : locals.names.value < Counter.last
  · have hfresh : withLocals (·.freshName) ⟨counter, fields, locals⟩ =
        .ok locals.nextName ⟨counter, fields, drawn⟩ := by
      simp only [withLocals, ReadCache.freshName_of_lt hlast]
      rfl
    rw [if_pos hlast]
    refine (bind_of_ok hfresh).trans ?_
    by_cases hnew : locals.get? name = none
    · rw [dif_pos hnew]
      have htexts := ReadCache.get?_eq_none_iff.mp hnew
      by_cases hname : ∃ r ∈ locals.toList, r.name = locals.nextName
      · rw [if_pos hname]
        have hinsert := ReadCache.insert_of_declared (c := drawn) htexts hname
          ⟨read.code, read.ty⟩
        refine bind_of_error ?_
        simp only [withLocals, hinsert]
        rfl
      · rw [if_neg hname]
        have hinsert := ReadCache.insert_of_new (c := drawn) ((locals.new_iff name).mpr htexts)
          (fun r hr h => hname ⟨r, hr, h⟩) ⟨read.code, read.ty⟩
        refine (bind_of_ok (a := ⟨⟩) ?_).trans rfl
        simp only [withLocals, hinsert]
        rfl
    · rw [dif_neg hnew]
      obtain ⟨held, hheld⟩ := Option.ne_none_iff_exists'.mp hnew
      obtain ⟨r, hr, htext, -⟩ := ReadCache.get?_eq_some_iff.mp hheld
      have hinsert := ReadCache.insert_of_cached (c := drawn) ⟨r, hr, htext⟩ locals.nextName
        ⟨read.code, read.ty⟩
      refine bind_of_error ?_
      simp only [withLocals, hinsert]
      rfl
  · rw [if_neg hlast]
    refine bind_of_error ?_
    simp only [withLocals, ReadCache.freshName_of_le (Nat.not_lt.mp hlast)]

theorem declare_runs (name : String) (read : Fragment) (st : RenderState) :
    Ends (declare name read) st
      (fun f st' => ∃ hnew : st.locals.get? name = none,
        (∀ r ∈ st.locals.toList, r.name ≠ st.locals.nextName) ∧
        f = ⟨.localVar st.locals.nextName, read.ty⟩ ∧ st' = st.withLocal name read hnew)
      (fun e st' => st.Exhausted e ∧ st' = st ∨
        (st.locals.get? name = none → ∃ r ∈ st.locals.toList, r.name = st.locals.nextName) ∧
          st' = st.withNumber) := by
  unfold Ends
  rw [declare_eq]
  by_cases hlast : st.locals.names.value < Counter.last
  · rw [if_pos hlast]
    by_cases hnew : st.locals.get? name = none
    · rw [dif_pos hnew]
      by_cases hname : ∃ r ∈ st.locals.toList, r.name = st.locals.nextName
      · rw [if_pos hname]
        exact .inr ⟨fun _ => hname, rfl⟩
      · rw [if_neg hname]
        exact ⟨hnew, fun r hr h => hname ⟨r, hr, h⟩, rfl, rfl⟩
    · rw [dif_neg hnew]
      exact .inr ⟨fun h => absurd h hnew, rfl⟩
  · rw [if_neg hlast]
    exact .inl ⟨.locals (Nat.not_lt.mp hlast), rfl⟩

/-- A new field has a number that no field has drawn before. -/
theorem hoist_ends (hst : st.Sound ctx) (v : Value) :
    Ends (hoist v v.ty) st
      (Renders ctx st fun u f => ∃ g ∈ u.fields, g.value = v ∧ f = ⟨.field g.name, v.ty⟩)
      (fun _ _ => True) := by
  refine (hoist_runs v v.ty st).mono ?_ fun _ _ _ => trivial
  intro f st' h
  obtain ⟨rfl, rfl⟩ := h
  have hnew : numbered st.fields.stem st.counter.value ∉ st.scope.fields.map (·.name) := by
    intro hmem
    obtain ⟨g, hg, hname⟩ := List.mem_map.mp hmem
    obtain ⟨k, hk, hgk⟩ := hst.drawn g hg
    have hkc : k = st.counter.value := (numbered_inj st.fields.stem).mp (hgk.symm.trans hname)
    omega
  have hscope : (st.withField v v.ty).scope =
      ⟨st.scope.fields ++ [⟨numbered st.fields.stem st.counter.value, v, v.ty⟩],
        st.scope.locals⟩ := by
    rw [RenderState.scope, RenderState.fields_withField]
    rfl
  refine ⟨⟨?_, ?_⟩, ?_, ?_⟩
  · rw [hscope]
    exact hst.scope.addField hnew v
  · rw [hscope]
    intro g hg
    rcases List.mem_append.mp hg with hg | hg
    · obtain ⟨k, hk, hgk⟩ := hst.drawn g hg
      exact ⟨k, Nat.lt_succ_of_lt hk, hgk⟩
    · rw [List.mem_singleton.mp hg]
      exact ⟨st.counter.value, Nat.lt_succ_self _, rfl⟩
  · rw [hscope]
    exact ⟨List.prefix_append _ _, List.prefix_rfl⟩
  · rw [hscope]
    exact ⟨⟨numbered st.fields.stem st.counter.value, v, v.ty⟩, by simp, rfl, rfl⟩

/-- A new local keeps the read of its variable. -/
theorem declare_ends (hst : st.Sound ctx) (name : String) :
    Ends (declare name (.read ctx name)) st
      (Renders ctx st fun u f => ∃ r ∈ u.locals, r.text = name ∧
        f = ⟨.localVar r.name, ctx.typeOf name⟩) (fun _ _ => True) := by
  refine (declare_runs name (.read ctx name) st).mono ?_ fun _ _ _ => trivial
  intro f st' h
  obtain ⟨hnew, hfree, rfl, rfl⟩ := h
  have hname : st.locals.nextName ∉ st.scope.locals.map (·.name) := by
    intro hmem
    obtain ⟨r, hr, hname⟩ := List.mem_map.mp hmem
    exact hfree r hr hname
  have hscope : (st.withLocal name (.read ctx name) hnew).scope =
      ⟨st.scope.fields, st.scope.locals ++ [⟨name, st.locals.nextName, .of ctx name⟩]⟩ := by
    rw [RenderState.scope, RenderState.locals_withLocal]
    rfl
  refine ⟨⟨?_, hst.drawn⟩, ?_, ?_⟩
  · rw [hscope]
    exact hst.scope.addLocal hname name
  · rw [hscope]
    exact ⟨List.prefix_rfl, List.prefix_append _ _⟩
  · rw [hscope]
    exact ⟨⟨name, st.locals.nextName, .of ctx name⟩, by simp, rfl, rfl⟩

theorem readVariable_ends (hst : st.Sound ctx) {id : NodeId} {n : Node}
    (hi : s.inspect id = .ok (n, .var)) (he : n.emission.Suits .var) :
    Ends (readVariable ctx n.label n.emission) st
      (Renders ctx st fun u f => Rendered s ctx u id f) (fun _ _ => True) := by
  cases hem : n.emission with
  | inPlace => exact Ends.pure ⟨hst, .refl _, .read hi (by rw [hem]; rfl)⟩
  | hoisted v ty =>
      rw [hem] at he
      cases he.1
  | cached inner =>
      rw [hem] at he
      obtain ⟨rfl, -⟩ := he
      have hc : n.emission.isCached = true := by rw [hem]; rfl
      unfold readVariable
      refine (cachedLocal?_ends n.label st).bind ?_
      rintro found st ⟨rfl, hfound⟩
      cases found with
      | some name =>
          obtain ⟨r, hr, ht, rfl⟩ := ReadCache.get?_eq_some_iff.mp hfound
          exact Ends.pure ⟨hst, .refl _, .cached hi hc hr ht⟩
      | none =>
          have hread : Ends (readVariable ctx n.label .inPlace) st
              (fun f st' => st' = st ∧ f = .read ctx n.label) (fun _ _ => True) := ⟨rfl, rfl⟩
          refine hread.bind ?_
          rintro _ _ ⟨rfl, rfl⟩
          refine (declare_ends hst n.label).mono ?_ fun _ _ h => h
          rintro _ st' ⟨hst', hg, r, hr, ht, rfl⟩
          exact ⟨hst', hg, .cached hi hc hr ht⟩

theorem operation_ends (hst : st.Sound ctx) {id : NodeId} {n : Node} {shape : Shape}
    (hi : s.inspect id = .ok (n, shape)) (hv : shape ≠ .var) (he : n.emission.Suits shape.kind)
    {inPlace : RenderM Fragment}
    (h : Ends inPlace st (Renders ctx st fun u f => Rendered s ctx u id f) (fun _ _ => True)) :
    Ends (operation id n.label inPlace n.emission) st
      (Renders ctx st fun u f => Rendered s ctx u id f) (fun _ _ => True) := by
  cases hem : n.emission with
  | inPlace => exact h
  | hoisted v ty =>
      rw [hem] at he
      obtain ⟨hk, rfl⟩ := he
      refine (hoist_ends hst v).mono ?_ fun _ _ h => h
      rintro _ st' ⟨hst', hg, g, hmem, rfl, rfl⟩
      have hshape : shape = .const g.value := by
        cases shape <;> simp_all [Shape.kind]
      subst hshape
      exact ⟨hst', hg, .field hi hmem⟩
  | cached inner => exact Ends.throw trivial

end RenderM

namespace Store

open RenderM

variable {s : Store} {ctx : Context}

/-- Rendering a prepared node ends with a fragment that belongs to it. -/
theorem renderWithin_ends (depth : Nat) {id : NodeId} (hp : s.PreparedFrom id) {st : RenderState}
    (hst : st.Sound ctx) :
    Ends (s.renderWithin ctx depth id) st (Renders ctx st fun u f => Rendered s ctx u id f)
      (fun _ _ => True) := by
  induction depth generalizing id st with
  | zero => exact Ends.throw trivial
  | succ depth ih =>
      unfold renderWithin
      refine (nodeAt_ends s id st).bind ?_
      rintro ⟨n, shape⟩ st ⟨rfl, hi⟩
      have he := hp.suits hi
      cases shape with
      | var => exact readVariable_ends hst hi he
      | const v => exact operation_ends hst hi nofun he (Ends.pure ⟨hst, .refl _, .const hi⟩)
      | unary op x =>
          refine operation_ends hst hi nofun he ?_
          refine (ih (hp.below (child_of_unary hi)) hst).bind ?_
          rintro f st₁ ⟨h₁, hg, hf⟩
          refine (typed_ends _ st₁).bind ?_
          rintro ty st₁ ⟨rfl, hty⟩
          exact Ends.pure ⟨h₁, hg, .unary hi hf ((op.typeAt_eq_ok_iff ..).mp hty)⟩
      | binary op l r =>
          obtain ⟨hcl, hcr⟩ := child_of_binary hi
          refine operation_ends hst hi nofun he ?_
          refine (ih (hp.below hcl) hst).bind ?_
          rintro f st₁ ⟨h₁, hg₁, hf⟩
          refine (ih (hp.below hcr) h₁).bind ?_
          rintro g st₂ ⟨h₂, hg₂, hg⟩
          refine (typed_ends _ st₂).bind ?_
          rintro ty st₂ ⟨rfl, hty⟩
          have hbinary := Rendered.binary hi (hf.mono hg₂) hg ((op.typeAt_eq_ok_iff ..).mp hty)
          exact Ends.pure ⟨h₂, hg₁.trans hg₂, hbinary⟩

/-- The root has the fragment of its node, narrowed when that is a widened integer. -/
theorem renderRoot_ok {id : NodeId} (hp : s.PreparedFrom id) {st st' : RenderState}
    (hst : st.Sound ctx) {f : Fragment} (h : s.renderRoot ctx id st = .ok f st') :
    st'.Sound ctx ∧ st.scope.Grows st'.scope ∧
      ∃ n shape g, s.inspect id = .ok (n, shape) ∧ Rendered s ctx st'.scope id g ∧
        f = if n.emission.isCached ∧ g.ty = .int then g.narrow else g := by
  have hends : Ends (s.renderRoot ctx id) st (Renders ctx st fun u f =>
      ∃ n shape g, s.inspect id = .ok (n, shape) ∧ Rendered s ctx u id g ∧
        f = if n.emission.isCached ∧ g.ty = .int then g.narrow else g) (fun _ _ => True) := by
    unfold renderRoot
    refine (nodeAt_ends s id st).bind ?_
    rintro ⟨n, shape⟩ st ⟨rfl, hi⟩
    refine (renderWithin_ends s.depth hp hst).bind ?_
    rintro g st' ⟨h', hg, hr⟩
    exact Ends.pure ⟨h', hg, n, shape, g, hi, hr, rfl⟩
  exact hends.of_ok h

end Store
end FormulaCompiler
