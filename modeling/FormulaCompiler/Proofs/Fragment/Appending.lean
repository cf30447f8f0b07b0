import FormulaCompiler.Proofs.Fragment.TwoPhase

/-!
# Rendering only appends

Rendering threads its state through a recursion that may stop at any node. Whatever it renders, and
also when it fails, it takes three kinds of steps only: it queues a field, it declares a local, or
it draws the number of a local in vain. So nothing that was declared before is touched. A second run
right after a first one finds every local it needs: it declares none, and differs from the first
one only in the fields that stand outside of cached reads, which are queued once more.
-/

namespace FormulaCompiler

namespace RenderState

/-- How a variable enters code: by its read, by a field, or by the local that has it. -/
inductive Enters (st : RenderState) (name : String) : Emission → Code → Prop
  | read (getter : Getter) : Enters st name .inPlace (.read getter name)
  | field {f : Field} (hf : f ∈ st.fields.toList) :
      Enters st name (.hoisted f.value f.ty) (.field f.name)
  | held {inner : Emission} {held : String} (h : st.locals.get? name = some held) :
      Enters st name (.cached inner) (.localVar held)

/-- What rendering may do to its state at once. -/
inductive Step (st : RenderState) : RenderState → Prop
  | queued (v : Value) (ty : Ty) : Step st (st.withField v ty)
  | declared {text : String} {read : Fragment} {e : Emission}
      (hnew : st.locals.get? text = none) (hread : st.Enters text e read.code) :
      Step st (st.withLocal text read hnew)
  | wasted : Step st st.withNumber

abbrev Steps : RenderState → RenderState → Prop := Relation.ReflTransGen Step

theorem Steps.keeps {P : RenderState → Prop}
    (step : ∀ {st st' : RenderState}, st.Step st' → P st → P st') {st st' : RenderState}
    (h : st.Steps st') (hst : P st) : P st' := by
  induction h with
  | refl => exact hst
  | tail _ hstep ih => exact step hstep ih

end RenderState

namespace RenderM

open RenderState

theorem typed_ok {ty : Except BuildError Ty} {t : Ty} (h : ty = .ok t) (st : RenderState) :
    typed ty st = .ok t st := by
  rw [h]
  rfl

/-- An operator's type is worked out without touching the state. -/
theorem typed_runs (ty : Except BuildError Ty) (code : Ty → Code) (st : RenderState) :
    Ends (typed ty >>= fun t => pure (⟨code t, t⟩ : Fragment)) st
      (fun f st' => st' = st ∧ ∃ t, ty = .ok t ∧ f = ⟨code t, t⟩)
      (fun e st' => st' = st ∧ ty = .error e) := by
  cases ty with
  | ok t => exact ⟨rfl, t, rfl, rfl⟩
  | error e => exact ⟨rfl, rfl⟩

/-- The run takes steps only, whether it fails or not. -/
def Proceeds (m : RenderM Fragment) (st : RenderState) : Prop :=
  Ends m st (fun _ st' => st.Steps st') (fun _ st' => st.Steps st')

theorem Proceeds.bind {m : RenderM Fragment} {k : Fragment → RenderM Fragment} {st : RenderState}
    (h : Proceeds m st) (hk : ∀ f st', st.Steps st' → Proceeds (k f) st') :
    Proceeds (m >>= k) st := by
  refine Ends.bind h fun f st' hsteps => ?_
  exact (hk f st' hsteps).mono (fun _ _ => hsteps.trans) fun _ _ => hsteps.trans

theorem hoist_proceeds (v : Value) (ty : Ty) (st : RenderState) : Proceeds (hoist v ty) st := by
  refine (hoist_runs v ty st).mono ?_ ?_
  · intro f st' h
    rw [h.2]
    exact .single (.queued v ty)
  · intro e st' h
    rw [h.2]

/-- A read has the type that its emission declares, or else that of its binding. -/
theorem readVariable_runs (ctx : Context) (name : String) (e : Emission) (st : RenderState) :
    Ends (readVariable ctx name e) st
      (fun f st' => st.Steps st' ∧ st'.Enters name e f.code ∧
        f.ty = e.declared?.getD (ctx.typeOf name))
      (fun _ st' => st.Steps st') := by
  induction e generalizing st with
  | inPlace => exact Ends.pure ⟨.refl, .read _, rfl⟩
  | hoisted v ty =>
      have hmem : ⟨numbered st.fields.stem st.counter.value, v, ty⟩ ∈
          (st.withField v ty).fields.toList := by
        rw [fields_withField]
        exact List.mem_append_right _ (List.mem_singleton.mpr rfl)
      refine (hoist_runs v ty st).mono ?_ ?_
      · intro f st' h
        obtain ⟨rfl, rfl⟩ := h
        exact ⟨.single (.queued v ty), .field hmem, rfl⟩
      · intro e st' h
        rw [h.2]
  | cached inner ih =>
      unfold readVariable
      refine Ends.of_eq (bind_of_ok rfl) ?_
      cases hfound : st.locals.get? name with
      | some held => exact Ends.pure ⟨.refl, .held hfound, rfl⟩
      | none =>
          refine (ih st).bind ?_
          intro read st₁ h
          obtain ⟨hsteps, hread, hty⟩ := h
          refine (declare_runs name read st₁).mono ?_ ?_
          · intro f st₂ h
            obtain ⟨hnew, -, rfl, rfl⟩ := h
            have hheld := ReadCache.get?_of_new (locals_withLocal st₁ name read hnew)
            exact ⟨hsteps.tail (.declared hnew hread), .held hheld, hty⟩
          · intro e st₂ h
            rcases h with ⟨-, rfl⟩ | ⟨-, rfl⟩
            · exact hsteps
            · exact hsteps.tail .wasted

theorem operation_proceeds {id : NodeId} {label : String} {inPlace : RenderM Fragment}
    {st : RenderState} (h : Proceeds inPlace st) (e : Emission) :
    Proceeds (operation id label inPlace e) st := by
  cases e with
  | inPlace => exact h
  | hoisted v ty => exact hoist_proceeds v ty st
  | cached inner => exact Ends.throw .refl

theorem typed_proceeds (ty : Except BuildError Ty) (code : Ty → Code) (st : RenderState) :
    Proceeds (typed ty >>= fun t => pure ⟨code t, t⟩) st := by
  refine (typed_runs ty code st).mono ?_ ?_
  · intro f st' h
    rw [h.1]
  · intro e st' h
    rw [h.1]

end RenderM

namespace Store

open RenderM

theorem renderWithin_proceeds (s : Store) (ctx : Context) (depth : Nat) (id : NodeId)
    (st : RenderState) : Proceeds (s.renderWithin ctx depth id) st := by
  induction depth generalizing id st with
  | zero => exact Ends.throw .refl
  | succ depth ih =>
      rcases hi : s.inspect id with m | ⟨n, shape⟩
      · exact Ends.of_eq (bind_of_error (nodeAt_misfit hi)) (Ends.throw .refl)
      · refine Ends.of_eq (bind_of_ok (nodeAt_ok hi)) ?_
        cases shape with
        | var =>
            exact (readVariable_runs ctx n.label n.emission st).mono (fun _ _ h => h.1)
              fun _ _ h => h
        | const v => exact operation_proceeds (Ends.pure .refl) n.emission
        | unary op x =>
            refine operation_proceeds ((ih x st).bind fun f st₁ _ => ?_) n.emission
            exact typed_proceeds _ (fun ty => op.code ty f) st₁
        | binary op l r =>
            refine operation_proceeds ((ih l st).bind fun f st₁ _ => ?_) n.emission
            refine (ih r st₁).bind fun g st₂ _ => ?_
            exact typed_proceeds _ (fun ty => op.code ty f g) st₂

theorem renderRoot_proceeds (s : Store) (ctx : Context) (id : NodeId) (st : RenderState) :
    Proceeds (s.renderRoot ctx id) st := by
  rcases hi : s.inspect id with m | ⟨n, shape⟩
  · exact Ends.of_eq (bind_of_error (nodeAt_misfit hi)) (Ends.throw .refl)
  · refine Ends.of_eq (bind_of_ok (nodeAt_ok hi)) ?_
    exact (s.renderWithin_proceeds ctx s.depth id st).bind fun _ _ _ => Ends.pure .refl

end Store

/-- The run ends in the second state, whether it fails or not. -/
def RenderM.Leaves (m : RenderM Fragment) (st st' : RenderState) : Prop :=
  Ends m st (fun _ after => after = st') (fun _ after => after = st')

theorem RenderM.leaves_of_ok {m : RenderM Fragment} {st st' : RenderState} {f : Fragment}
    (h : m st = .ok f st') : Leaves m st st' := by
  unfold Leaves Ends
  rw [h]

theorem RenderM.Proceeds.steps {m : RenderM Fragment} {st st' : RenderState} (h : Proceeds m st)
    (hl : Leaves m st st') : st.Steps st' := by
  unfold Proceeds Ends at h
  unfold Leaves Ends at hl
  cases hm : m st <;> rw [hm] at h hl <;> exact hl ▸ h

namespace RenderState

/-- States as they come about: empty, left by rendering any node of any store, with or without
success, or emptied for the next unit, when others may have drawn on the counter. -/
inductive InUse : RenderState → Prop
  | empty (counter : Counter) (fieldStem localStem : String) (names : Counter) :
      InUse ⟨counter, { stem := fieldStem }, { stem := localStem, names }⟩
  | rendered {st st' : RenderState} (h : InUse st) {s : Store} {ctx : Context} {id : NodeId}
      (hl : RenderM.Leaves (s.render ctx id) st st') : InUse st'
  | renderedRoot {st st' : RenderState} (h : InUse st) {s : Store} {ctx : Context} {id : NodeId}
      (hl : RenderM.Leaves (s.renderRoot ctx id) st st') : InUse st'
  | emptied {st : RenderState} (h : InUse st) (counter : Counter) :
      InUse ⟨counter, st.fields.drain.2, st.locals.clear⟩

/-- What holds of empty states and is kept by every step holds of all states in use. -/
theorem InUse.induction {P : RenderState → Prop}
    (empty : ∀ st : RenderState, st.fields.toList = [] → st.locals.toList = [] → P st)
    (step : ∀ {st st' : RenderState}, st.Step st' → P st → P st') {st : RenderState}
    (h : st.InUse) : P st := by
  induction h with
  | empty => exact empty _ rfl rfl
  | @rendered st _ _ s ctx id hl ih =>
      have hsteps := (s.renderWithin_proceeds ctx s.depth id st).steps hl
      exact hsteps.keeps step ih
  | @renderedRoot st _ _ s ctx id hl ih =>
      have hsteps := (s.renderRoot_proceeds ctx id st).steps hl
      exact hsteps.keeps step ih
  | emptied => exact empty _ rfl rfl

/-- The second state has all of the first one. After that it has a field for each of the constants,
under the numbers that the counter has handed out since, and locals for variables that had none. -/
structure Appends (st : RenderState) (kept : List (Value × Ty))
    (reads : List (CachedRead LocalRead)) (st' : RenderState) : Prop where
  fieldStem : st'.fields.stem = st.fields.stem
  fields : st'.fields.toList =
    st.fields.toList ++ fieldRow st.fields.stem st.counter.value kept
  counter : st'.counter.value = st.counter.value + kept.length
  localStem : st'.locals.stem = st.locals.stem
  locals : st'.locals.toList = st.locals.toList ++ reads
  new : ∀ r ∈ reads, r.text ∉ st.locals.toList.map (·.text)
  once : (reads.map (·.text)).Nodup

variable {st st₁ st₂ : RenderState} {kept kept' : List (Value × Ty)}
  {reads reads' : List (CachedRead LocalRead)}

theorem Appends.refl (st : RenderState) : st.Appends [] [] st := by
  constructor <;> simp [fieldRow]

theorem Appends.trans (h : st.Appends kept reads st₁) (h' : st₁.Appends kept' reads' st₂) :
    st.Appends (kept ++ kept') (reads ++ reads') st₂ := by
  have hknown : st₁.locals.toList.map (·.text) =
      st.locals.toList.map (·.text) ++ reads.map (·.text) := by
    rw [h.locals, List.map_append]
  have hnew : ∀ r ∈ reads', r.text ∉ st.locals.toList.map (·.text) ∧
      r.text ∉ reads.map (·.text) := by
    intro r hr
    have hr' := h'.new r hr
    rw [hknown, List.mem_append, not_or] at hr'
    exact hr'
  constructor
  · rw [h'.fieldStem, h.fieldStem]
  · rw [h'.fields, h.fields, h.fieldStem, h.counter, fieldRow_append, List.append_assoc]
  · rw [h'.counter, h.counter, List.length_append, Nat.add_assoc]
  · rw [h'.localStem, h.localStem]
  · rw [h'.locals, h.locals, List.append_assoc]
  · intro r hr
    rcases List.mem_append.mp hr with hr | hr
    · exact h.new r hr
    · exact (hnew r hr).1
  · rw [List.map_append, List.nodup_append]
    refine ⟨h.once, h'.once, ?_⟩
    intro text htext text' htext' heq
    obtain ⟨r, hr, rfl⟩ := List.mem_map.mp htext'
    exact (hnew r hr).2 (heq ▸ htext)

theorem appends_withField (st : RenderState) (v : Value) (ty : Ty) :
    st.Appends [(v, ty)] [] (st.withField v ty) := by
  refine ⟨rfl, ?_, rfl, rfl, ?_, ?_, ?_⟩
  · rw [fields_withField]
    rfl
  all_goals simp [withField]

theorem Step.appends (h : st.Step st₁) : ∃ kept reads, st.Appends kept reads st₁ := by
  cases h with
  | queued v ty => exact ⟨_, _, appends_withField st v ty⟩
  | @declared text read _ hnew _ =>
      refine ⟨[], _, rfl, ?_, rfl, rfl, locals_withLocal st text read hnew, ?_, ?_⟩
      · simp [withLocal, fieldRow]
      · intro r hr
        rw [List.mem_singleton.mp hr]
        simpa using ReadCache.get?_eq_none_iff.mp hnew
      · simp
  | wasted =>
      exact ⟨[], [], rfl, by simp [withNumber, fieldRow], rfl, rfl, by simp, by simp, by simp⟩

theorem Steps.appends (h : st.Steps st₁) : ∃ kept reads, st.Appends kept reads st₁ := by
  induction h with
  | refl => exact ⟨_, _, .refl st⟩
  | tail _ hstep ih =>
      obtain ⟨kept, reads, happ⟩ := ih
      obtain ⟨kept', reads', happ'⟩ := hstep.appends
      exact ⟨_, _, happ.trans happ'⟩

/-- Names are of one kind, and what locals start with is of another. -/
structure Spelled (name : String → Prop) (init : Code → Prop) (st : RenderState) : Prop where
  fields : ∀ f ∈ st.fields.toList, name f.name
  locals : ∀ r ∈ st.locals.toList, name r.name ∧ init r.body.init

/-- Every numbered name is of the kind. -/
structure Stems (name : String → Prop) (st : RenderState) : Prop where
  fields : ∀ n, name (numbered st.fields.stem n)
  locals : ∀ n, name (numbered st.locals.stem n)

section Spelling

variable {name : String → Prop} {init : Code → Prop}
  (hread : ∀ getter text, init (.read getter text)) (hfield : ∀ held, name held → init (.field held))

include hread hfield

/-- New names are numbered, and a new local starts with a read or with a field. -/
theorem Step.spelled (h : st.Step st₁) (hstems : st.Stems name) (hst : st.Spelled name init) :
    st₁.Spelled name init := by
  cases h with
  | queued v ty =>
      refine ⟨?_, hst.locals⟩
      intro f hf
      rw [fields_withField] at hf
      rcases List.mem_append.mp hf with hf | hf
      · exact hst.fields f hf
      · rw [List.mem_singleton.mp hf]
        exact hstems.fields _
  | @declared text read _ hnew henters =>
      refine ⟨hst.fields, ?_⟩
      intro r hr
      rw [locals_withLocal] at hr
      rcases List.mem_append.mp hr with hr | hr
      · exact hst.locals r hr
      · rw [List.mem_singleton.mp hr]
        refine ⟨hstems.locals _, ?_⟩
        show init read.code
        obtain ⟨code, ty⟩ := read
        cases henters with
        | read getter => exact hread getter text
        | field hf => exact hfield _ (hst.fields _ hf)
        | held hheld =>
            -- The variable is new, so that no local has it.
            rw [hnew] at hheld
            cases hheld
  | wasted => exact ⟨hst.fields, hst.locals⟩

theorem InUse.spelled (h : st.InUse) : st.Stems name → st.Spelled name init := by
  refine h.induction (P := fun st => st.Stems name → st.Spelled name init) ?_ ?_
  · intro st hfields hlocals _
    constructor
    · simp [hfields]
    · simp [hlocals]
  · intro st st' hstep ih hstems
    obtain ⟨kept, reads, happ⟩ := hstep.appends
    have hbefore : st.Stems name := by
      refine ⟨?_, ?_⟩
      · rw [← happ.fieldStem]
        exact hstems.fields
      · rw [← happ.localStem]
        exact hstems.locals
    exact hstep.spelled hread hfield hbefore (ih hbefore)

end Spelling

end RenderState

namespace Code

/-- The fields that the expression mentions, from left to right. -/
def fields : Code → List String
  | .literal _ | .localVar _ | .read _ _ => []
  | .field name => [name]
  | .cast operand _ | .unary _ operand => operand.fields
  | .binary _ left right | .concat left right => left.fields ++ right.fields

/-- The expression with other names for its fields. -/
def renameFields (ρ : String → String) : Code → Code
  | .literal value => .literal value
  | .field name => .field (ρ name)
  | .localVar name => .localVar name
  | .read getter name => .read getter name
  | .cast operand type => .cast (operand.renameFields ρ) type
  | .unary op operand => .unary op (operand.renameFields ρ)
  | .binary op left right => .binary op (left.renameFields ρ) (right.renameFields ρ)
  | .concat left right => .concat (left.renameFields ρ) (right.renameFields ρ)

end Code

/-- The fragment with other names for its fields. -/
def Fragment.renameFields (ρ : String → String) (f : Fragment) : Fragment :=
  ⟨f.code.renameFields ρ, f.ty⟩

namespace BinaryOp

/-- Operators mention what their operands mention. -/
theorem fields_code (op : BinaryOp) (ty : Ty) (l r : Fragment) :
    (op.code ty l r).fields = l.code.fields ++ r.code.fields := by
  unfold code
  split
  · rfl
  · split <;> try rfl
    split <;> rfl

theorem renameFields_code (op : BinaryOp) (ty : Ty) (l r : Fragment) (ρ : String → String) :
    Fragment.renameFields ρ ⟨op.code ty l r, ty⟩ =
      ⟨op.code ty (l.renameFields ρ) (r.renameFields ρ), ty⟩ := by
  unfold code Fragment.renameFields
  dsimp only
  split
  · rfl
  · split <;> try rfl
    split <;> rfl

end BinaryOp

namespace UnaryOp

theorem fields_code (op : UnaryOp) (ty : Ty) (f : Fragment) :
    (op.code ty f).fields = f.code.fields := by
  cases op <;> rfl

theorem renameFields_code (op : UnaryOp) (ty : Ty) (f : Fragment) (ρ : String → String) :
    Fragment.renameFields ρ ⟨op.code ty f, ty⟩ = ⟨op.code ty (f.renameFields ρ), ty⟩ := by
  cases op <;> rfl

end UnaryOp

/-- The constants that the fields hold. -/
def constantsOf (fields : List Field) : List (Value × Ty) := fields.map fun g => (g.value, g.ty)

namespace RenderM

open RenderState

variable {st : RenderState}

/-- The fragment mentions the given fields. Where its locals are held and the counter has numbers
left, the run ends well and adds no local: it queues the constants of these fields once more, and
its fragment differs from the given one only in the names they get. -/
structure Recurs (m : RenderM Fragment) (f : Fragment) (mentioned : List Field)
    (held : List (CachedRead LocalRead)) : Prop where
  fields : f.code.fields = mentioned.map (·.name)
  again : ∀ {st : RenderState} {ρ : String → String}, held <+: st.locals.toList →
    st.counter.value + mentioned.length ≤ Counter.last →
    (mentioned.map (·.name)).map ρ =
      (fieldRow st.fields.stem st.counter.value (constantsOf mentioned)).map (·.name) →
    ∃ st', m st = .ok (f.renameFields ρ) st' ∧ st'.locals = st.locals ∧
      st.Appends (constantsOf mentioned) [] st'

/-- If the run ends well, it can be repeated where its locals are held. What its fragment mentions is
among the fields that it has queued. -/
def Repeatable (m : RenderM Fragment) (st : RenderState) : Prop :=
  Ends m st (fun f st' => ∃ kept reads mentioned, st.Appends kept reads st' ∧
      mentioned.Sublist (fieldRow st.fields.stem st.counter.value kept) ∧
      Recurs m f mentioned st'.locals.toList)
    (fun _ _ => True)

theorem Recurs.of_eq {m m' : RenderM Fragment} {f : Fragment} {mentioned : List Field}
    {held : List (CachedRead LocalRead)} (h : Recurs m' f mentioned held)
    (hm : ∀ st, m st = m' st) : Recurs m f mentioned held := by
  refine ⟨h.fields, ?_⟩
  intro st ρ hheld hlast hρ
  rw [hm st]
  exact h.again hheld hlast hρ

/-- A fragment that mentions no field is the same every time. -/
theorem Recurs.of_unmentioned {m : RenderM Fragment} {f : Fragment}
    {held : List (CachedRead LocalRead)} (hf : f.code.fields = [])
    (hrename : ∀ ρ, f.renameFields ρ = f)
    (hm : ∀ st : RenderState, held <+: st.locals.toList → m st = .ok f st) :
    Recurs m f [] held := by
  refine ⟨hf, ?_⟩
  intro st ρ hheld _ _
  exact ⟨st, by rw [hrename, hm st hheld], rfl, .refl st⟩

theorem hoist_repeatable (v : Value) (ty : Ty) (st : RenderState) : Repeatable (hoist v ty) st := by
  refine (hoist_runs v ty st).mono ?_ fun _ _ _ => trivial
  intro f after h
  obtain ⟨rfl, rfl⟩ := h
  refine ⟨_, _, _, appends_withField st v ty, List.Sublist.refl _, rfl, ?_⟩
  intro st' ρ _ hlast hρ
  have hname : ρ (numbered st.fields.stem st.counter.value) =
      numbered st'.fields.stem st'.counter.value := by
    simpa [fieldRow, constantsOf] using hρ
  refine ⟨st'.withField v ty, ?_, rfl, appends_withField st' v ty⟩
  rw [hoist_eq, if_pos (Nat.lt_of_succ_le hlast), ← hname]
  rfl

/-- A fragment in place that mentions no field. -/
theorem pure_repeatable {f : Fragment} (hf : f.code.fields = [])
    (hrename : ∀ ρ, f.renameFields ρ = f) (st : RenderState) : Repeatable (pure f) st :=
  ⟨[], [], [], .refl st, List.nil_sublist _, .of_unmentioned hf hrename fun _ _ => rfl⟩

/-- Once a cached variable is read, its local is there. What its read has queued on the way is not
mentioned and not queued again. -/
theorem readVariable_repeatable (ctx : Context) (name : String) (e : Emission)
    (st : RenderState) : Repeatable (readVariable ctx name e) st := by
  cases e with
  | inPlace => exact pure_repeatable rfl (fun _ => rfl) st
  | hoisted v ty => exact hoist_repeatable v ty st
  | cached inner =>
      refine (readVariable_runs ctx name (.cached inner) st).mono ?_ fun _ _ _ => trivial
      intro f st' h
      obtain ⟨hsteps, henters, hty⟩ := h
      obtain ⟨kept, reads, happ⟩ := hsteps.appends
      obtain ⟨code, ty⟩ := f
      cases henters with
      | @held _ held hheld =>
          refine ⟨kept, reads, [], happ, List.nil_sublist _, ?_⟩
          refine .of_unmentioned rfl (fun _ => rfl) fun st₁ hprefix => ?_
          obtain ⟨more, hmore⟩ := hprefix
          have hfound := ReadCache.get?_of_append hmore.symm hheld
          unfold readVariable
          rw [bind_of_ok (show cachedLocal? name st₁ = .ok (some held) st₁ by
            rw [cachedLocal?, hfound])]
          dsimp only at hty
          rw [hty]
          rfl

theorem operation_repeatable {id : NodeId} {label : String} {inPlace : RenderM Fragment}
    (h : Repeatable inPlace st) (e : Emission) : Repeatable (operation id label inPlace e) st := by
  cases e with
  | inPlace => exact h
  | hoisted v ty => exact hoist_repeatable v ty st
  | cached inner => exact Ends.throw trivial

/-- Types do not depend on names, so an operator finds its type again. -/
theorem Recurs.unary {x : RenderM Fragment} {f : Fragment} {mentioned : List Field}
    {held : List (CachedRead LocalRead)} (hx : Recurs x f mentioned held) {op : UnaryOp}
    {id : NodeId} {label : String} {ty : Ty} (hty : op.typeAt id label f.ty = .ok ty) :
    Recurs (do
        let f ← x
        let ty ← typed (op.typeAt id label f.ty)
        pure ⟨op.code ty f, ty⟩) ⟨op.code ty f, ty⟩ mentioned held := by
  refine ⟨(op.fields_code ty f).trans hx.fields, ?_⟩
  intro st ρ hheld hlast hρ
  obtain ⟨st₁, hrun, hlocals, happ⟩ := hx.again hheld hlast hρ
  refine ⟨st₁, ?_, hlocals, happ⟩
  have htyped : typed (op.typeAt id label (f.renameFields ρ).ty) st₁ = .ok ty st₁ := typed_ok hty st₁
  rw [op.renameFields_code, bind_of_ok hrun, bind_of_ok htyped]
  rfl

/-- The second operand is repeated where the first one has left off, with all locals still held. -/
theorem Recurs.binary {x y : RenderM Fragment} {f g : Fragment} {mentioned mentioned' : List Field}
    {held held' : List (CachedRead LocalRead)} (hx : Recurs x f mentioned held)
    (hy : Recurs y g mentioned' held') (hheld : held <+: held') {op : BinaryOp} {id : NodeId}
    {label : String} {ty : Ty} (hty : op.typeAt id label f.ty g.ty = .ok ty) :
    Recurs (do
        let l ← x
        let r ← y
        let ty ← typed (op.typeAt id label l.ty r.ty)
        pure ⟨op.code ty l r, ty⟩) ⟨op.code ty f g, ty⟩ (mentioned ++ mentioned') held' := by
  have hconstants : constantsOf (mentioned ++ mentioned') =
      constantsOf mentioned ++ constantsOf mentioned' := List.map_append
  refine ⟨?_, ?_⟩
  · rw [List.map_append, ← hx.fields, ← hy.fields]
    exact op.fields_code ty f g
  intro st ρ hst hlast hρ
  rw [List.length_append] at hlast
  rw [hconstants, fieldRow_append, List.map_append, List.map_append, List.map_append] at hρ
  have hlength : ((mentioned.map (·.name)).map ρ).length =
      ((fieldRow st.fields.stem st.counter.value (constantsOf mentioned)).map (·.name)).length := by
    simp [fieldRow, constantsOf]
  obtain ⟨hρx, hρy⟩ := List.append_inj hρ hlength
  obtain ⟨st₁, hrun, hlocals, happ⟩ := hx.again (hheld.trans hst) (by omega) hρx
  have hcounter : st₁.counter.value = st.counter.value + mentioned.length := by
    simpa [constantsOf] using happ.counter
  rw [← happ.fieldStem, ← happ.counter] at hρy
  obtain ⟨st₂, hrun', hlocals', happ'⟩ := hy.again (hlocals ▸ hst) (by omega) hρy
  refine ⟨st₂, ?_, hlocals'.trans hlocals, hconstants ▸ happ.trans happ'⟩
  have htyped : typed (op.typeAt id label (f.renameFields ρ).ty (g.renameFields ρ).ty) st₂ =
      .ok ty st₂ := typed_ok hty st₂
  rw [op.renameFields_code, bind_of_ok hrun, bind_of_ok hrun', bind_of_ok htyped]
  rfl

end RenderM

namespace Store

open RenderM

theorem renderWithin_repeatable (s : Store) (ctx : Context) (depth : Nat) (id : NodeId)
    (st : RenderState) : Repeatable (s.renderWithin ctx depth id) st := by
  induction depth generalizing id st with
  | zero => exact Ends.throw trivial
  | succ depth ih =>
      rcases hi : s.inspect id with m | ⟨n, shape⟩
      · exact Ends.of_eq (bind_of_error (nodeAt_misfit hi)) (Ends.throw trivial)
      -- Every run finds the node as the first one did.
      have hbody : ∀ {m : RenderM Fragment},
          (∀ st, s.renderWithin ctx (depth + 1) id st = m st) → Repeatable m st →
            Repeatable (s.renderWithin ctx (depth + 1) id) st := by
        intro m hm h
        refine (Ends.of_eq (hm st) h).mono ?_ fun _ _ h => h
        intro f st' h
        obtain ⟨kept, reads, mentioned, happ, hsub, hrec⟩ := h
        exact ⟨kept, reads, mentioned, happ, hsub, hrec.of_eq hm⟩
      refine hbody (fun st => bind_of_ok (nodeAt_ok hi)) ?_
      cases shape with
      | var => exact readVariable_repeatable ctx n.label n.emission st
      | const v => exact operation_repeatable (pure_repeatable rfl (fun _ => rfl) st) n.emission
      | unary op x =>
          refine operation_repeatable ?_ n.emission
          refine Ends.bind (ih x st) ?_
          intro f st₁ h
          obtain ⟨kept, reads, mentioned, happ, hsub, hrec⟩ := h
          refine (typed_runs _ (fun ty => op.code ty f) st₁).mono ?_ fun _ _ _ => trivial
          intro f' st' h
          obtain ⟨rfl, ty, hty, rfl⟩ := h
          exact ⟨kept, reads, mentioned, happ, hsub, hrec.unary hty⟩
      | binary op l r =>
          refine operation_repeatable ?_ n.emission
          refine Ends.bind (ih l st) ?_
          intro f st₁ h
          obtain ⟨kept, reads, mentioned, happ, hsub, hrec⟩ := h
          refine Ends.bind (ih r st₁) ?_
          intro g st₂ h
          obtain ⟨kept', reads', mentioned', happ', hsub', hrec'⟩ := h
          refine (typed_runs _ (fun ty => op.code ty f g) st₂).mono ?_ fun _ _ _ => trivial
          intro f' st' h
          obtain ⟨rfl, ty, hty, rfl⟩ := h
          rw [happ.fieldStem, happ.counter] at hsub'
          refine ⟨_, _, mentioned ++ mentioned', happ.trans happ', ?_, ?_⟩
          · rw [fieldRow_append]
            exact hsub.append hsub'
          · exact hrec.binary hrec' ⟨reads', happ'.locals.symm⟩ hty

end Store

/-- Names without repetition can be exchanged for any others. -/
theorem exists_map_eq {names names' : List String} (hn : names.Nodup)
    (hlength : names.length = names'.length) : ∃ ρ : String → String, names.map ρ = names' := by
  induction names generalizing names' with
  | nil => exact ⟨id, (List.eq_nil_of_length_eq_zero hlength.symm).symm⟩
  | cons name rest ih =>
      cases names' with
      | nil => cases hlength
      | cons name' rest' =>
          obtain ⟨hnot, hrest⟩ := List.nodup_cons.mp hn
          obtain ⟨ρ, hρ⟩ := ih hrest (Nat.succ.inj hlength)
          refine ⟨fun other => if other = name then name' else ρ other, ?_⟩
          have hmap : rest.map (fun other => if other = name then name' else ρ other) =
              rest.map ρ := by
            apply List.map_congr_left
            intro other hother
            have hne : other ≠ name := fun h => hnot (h ▸ hother)
            rw [if_neg hne]
          rw [List.map_cons, if_pos rfl, hmap, hρ]

/-- Rendering leaves all fields and locals in place, also when it fails, and adds only fields under
numbers that it draws and locals for variables that had none. If it succeeds and the counter has
numbers left for the fields that the fragment mentions, then doing it again succeeds with the same
type and adds no local: the constants in these fields are queued once more, and the fragment differs
only in mentioning the new fields. -/
theorem render_appends (s : Store) (ctx : Context) (id : NodeId) (st : RenderState) :
    Ends (s.render ctx id) st
      (fun f st₁ => ∃ kept reads mentioned, st.Appends kept reads st₁ ∧
        mentioned.Sublist (fieldRow st.fields.stem st.counter.value kept) ∧
        f.code.fields = mentioned.map (·.name) ∧
        (st₁.counter.value + mentioned.length ≤ Counter.last →
          Ends (s.render ctx id) st₁
            (fun f' st₂ => f'.ty = f.ty ∧ st₂.locals = st₁.locals ∧
              st₁.Appends (constantsOf mentioned) [] st₂ ∧
              ∃ ρ : String → String, f'.text = (f.code.renameFields ρ).print ∧
                f.code.fields.map ρ =
                  namesBetween st₁.fields.stem st₁.counter.value st₂.counter.value)
            (fun _ _ => False)))
      (fun _ st₁ => ∃ kept reads, st.Appends kept reads st₁) := by
  have happends : Ends (s.render ctx id) st (fun _ _ => True)
      (fun _ st₁ => ∃ kept reads, st.Appends kept reads st₁) :=
    (s.renderWithin_proceeds ctx s.depth id st).mono (fun _ _ _ => trivial)
      fun _ _ hsteps => hsteps.appends
  refine (happends.both (s.renderWithin_repeatable ctx s.depth id st)).mono ?_ fun _ _ h => h.1
  intro f st₁ h
  obtain ⟨-, kept, reads, mentioned, happ, hsub, hrec⟩ := h
  refine ⟨kept, reads, mentioned, happ, hsub, hrec.fields, fun hlast => ?_⟩
  -- The fields have different names, so that each can be given its new name.
  have hnodup : (mentioned.map (·.name)).Nodup := by
    refine List.Nodup.sublist (hsub.map _) ?_
    rw [map_name_fieldRow]
    exact nodup_namesBetween ..
  have hlength : (mentioned.map (·.name)).length = ((fieldRow st₁.fields.stem st₁.counter.value
      (constantsOf mentioned)).map (·.name)).length := by
    simp [fieldRow, constantsOf]
  obtain ⟨ρ, hρ⟩ := exists_map_eq hnodup hlength
  obtain ⟨st₂, hrun, hlocals, happ'⟩ := hrec.again List.prefix_rfl hlast hρ
  unfold Ends
  rw [show s.render ctx id st₁ = .ok (f.renameFields ρ) st₂ from hrun]
  refine ⟨rfl, hlocals, happ', ρ, rfl, ?_⟩
  rw [hrec.fields, hρ, map_name_fieldRow, happ'.counter]

/-- `x * 3` twice. The field behind the cached `x` is queued once, that of the 3 both times. -/
example :
    let s : Store := ⟨#[.binary .mul ⟨1⟩ ⟨2⟩,
      { Node.var "x" with emission := .cached (.hoisted (.int 7) .int) },
      { Node.const (.int 3) with emission := .hoisted (.int 3) .int }]⟩
    let twice : RenderM (List String × List String) := do
      let f ← s.render Bindings.empty.context ⟨0⟩
      let g ← s.render Bindings.empty.context ⟨0⟩
      pure (f.code.fields, g.code.fields)
    Ends twice ⟨{}, { stem := "F" }, { stem := "v" }⟩
      (fun mentioned st => mentioned = (["F1"], ["F2"]) ∧ st.fields.size = 3 ∧ st.locals.size = 1)
      (fun _ _ => False) := by
  with_unfolding_all exact ⟨rfl, rfl, rfl⟩

end FormulaCompiler
