import FormulaCompiler.Proofs.Fragment.Outline
import FormulaCompiler.Proofs.Pass.Normal

/-!
# What a visit of a node does

Five walks go down a formula: evaluating, folding, rebinding, typing and rendering. Each carries a
depth, below which it is cut off. A `Course` writes one visit of a node down without that depth: it
ends, or it makes another visit and goes on from how that one ended. `Visit.EndsWithin` says of the
recursion that this makes that it ends by itself, how many visits are inside each other at most, and
in which stores they are made. `Visit.within_succ` ties the courses to the walks, at every depth and
on every store; whether a recursion ends is not considered here.
-/

namespace FormulaCompiler

/-- A visit of a node by one of the walks, and the state it is made in. -/
inductive Visit where
  | eval (s : Store) (id : NodeId)
  | fold (st : Folding.State) (id : NodeId)
  | rebind (s : Store) (id : NodeId)
  | type (s : Store) (id : NodeId)
  | render (s : Store) (st : RenderState) (id : NodeId)

namespace Visit

/-- How a visit can end. -/
abbrev Ending : Visit → Type
  | eval _ _ => Except EvalError Value
  | fold _ _ => EStateM.Result BuildError Folding.State Bool
  | rebind _ _ => EStateM.Result BuildError Store Nat
  | type _ _ => Except BuildError Ty
  | render _ _ _ => EStateM.Result BuildError RenderState Fragment

/-- The store in which a visit is made. -/
def store : Visit → Store
  | eval s _ | rebind s _ | type s _ | render s _ _ => s
  | fold st _ => st.store

/-- The store that a visit leaves. Only folding and rebinding change it. -/
def left : (v : Visit) → v.Ending → Store
  | eval s _, _ | type s _, _ | render s _ _, _ => s
  | fold _ _, .ok _ t | fold _ _, .error _ t => t.store
  | rebind _ _, .ok _ t | rebind _ _, .error _ t => t

end Visit

/-- What a visit does: it ends, or it makes another visit and goes on from how that one ended. -/
inductive Course (α : Type) where
  | ends (a : α)
  | visits (v : Visit) (next : v.Ending → Course α)

namespace Course

variable {ε σ α β : Type}

/-- Goes on from a success. A failure is passed on. -/
def proceed (next : α → Course (Except ε β)) : Except ε α → Course (Except ε β)
  | .ok a => next a
  | .error e => .ends (.error e)

/-- Goes on from a success, in the state it leaves. A failure is passed on. -/
def proceedIn (next : α → σ → Course (EStateM.Result ε σ β)) :
    EStateM.Result ε σ α → Course (EStateM.Result ε σ β)
  | .ok a t => next a t
  | .error e t => .ends (.error e t)

/-- What the course comes to when its visits end as in `reply`. -/
def result (reply : (v : Visit) → v.Ending) : Course α → α
  | .ends a => a
  | .visits v next => (next (reply v)).result reply

/-- When visits end as in `reply`, the course makes only such visits. -/
def Makes (reply : (v : Visit) → v.Ending) (P : Visit → Prop) : Course α → Prop
  | .ends _ => True
  | .visits v next => P v ∧ (next (reply v)).Makes reply P

/-- The course comes to `a`, each of its visits ending in a way that `ending` admits. -/
def ComesTo (ending : (v : Visit) → v.Ending → Prop) : Course α → α → Prop
  | .ends b, a => b = a
  | .visits v next, a => ∃ e, ending v e ∧ (next e).ComesTo ending a

theorem ComesTo.mono {p q : (v : Visit) → v.Ending → Prop} {c : Course α} {a : α}
    (h : c.ComesTo p a) (hpq : ∀ v e, p v e → q v e) : c.ComesTo q a := by
  induction c with
  | ends b => exact h
  | visits v next ih =>
      obtain ⟨e, he, hrest⟩ := h
      exact ⟨e, hpq v e he, ih e hrest⟩

theorem Makes.comesTo {reply : (v : Visit) → v.Ending} {ending : (v : Visit) → v.Ending → Prop}
    {c : Course α} (h : c.Makes reply fun v => ending v (reply v)) :
    c.ComesTo ending (c.result reply) := by
  induction c with
  | ends a => exact rfl
  | visits v next ih => exact ⟨reply v, h.1, ih (reply v) h.2⟩

/-- Proceeding from how a run ends is what follows the run when the two are bound. -/
theorem result_proceedIn {reply : (v : Visit) → v.Ending} {m : EStateM ε σ α} {st : σ}
    {f : α → EStateM ε σ β} {next : α → σ → Course (EStateM.Result ε σ β)}
    (h : ∀ a t, (next a t).result reply = f a t) :
    (proceedIn next (m st)).result reply = (m >>= f) st := by
  cases hm : m st with
  | ok a t =>
      rw [bind_of_ok hm, ← h a t]
      rfl
  | error e t =>
      rw [bind_of_error hm]
      rfl

theorem result_proceed {reply : (v : Visit) → v.Ending} {r : Except ε α}
    {f : α → Except ε β} {next : α → Course (Except ε β)}
    (h : ∀ a, (next a).result reply = f a) :
    (proceed next r).result reply = r >>= f := by
  cases r with
  | ok a => exact h a
  | error e => rfl

end Course

section Courses

variable (ctx : Context)

/-- Evaluates a node: its operands from left to right, then its operator. -/
def evalCourse (s : Store) (id : NodeId) : Course (Except EvalError Value) :=
  match s.inspect id with
  | .error m => .ends (.error (m.evalError id))
  | .ok (_, .const v) => .ends (.ok v)
  | .ok (n, .var) => .ends (Store.lookUp ctx n.label)
  | .ok (_, .unary op x) =>
      .visits (.eval s x) (.proceed fun v => .ends ((op.apply v).mapError .operator))
  | .ok (_, .binary op l r) =>
      .visits (.eval s l) (.proceed fun a =>
        .visits (.eval s r) (.proceed fun b => .ends ((op.apply a b).mapError .operator)))

/-- Evaluates an operator on constants, and freezes it if it has a value. -/
def settleCourse (id : NodeId) (constant : Bool) (st : Folding.State) :
    Course (EStateM.Result BuildError Folding.State Bool) :=
  if constant then
    .visits (.eval st.store id) fun
      | .ok v => .ends (.ok true ⟨st.store.freeze id v, st.folded + 1⟩)
      | .error _ => .ends (.ok false st)
  else .ends (.ok false st)

/-- Folds the operands of a node, each in the store that the one before it leaves, then the
node. -/
def foldCourse (st : Folding.State) (id : NodeId) :
    Course (EStateM.Result BuildError Folding.State Bool) :=
  match st.store.inspect id with
  | .error m => .ends (.error (m.buildError .optimize id) st)
  | .ok (_, .const _) => .ends (.ok true st)
  | .ok (_, .var) => .ends (.ok false st)
  | .ok (_, .unary _ x) => .visits (.fold st x) (.proceedIn (settleCourse id))
  | .ok (_, .binary _ l r) =>
      .visits (.fold st l) (.proceedIn fun a t =>
        .visits (.fold t r) (.proceedIn fun b => settleCourse id (a && b)))

/-- Rebinds a variable, or the operands of an operator. -/
def rebindCourse (s : Store) (id : NodeId) : Course (EStateM.Result BuildError Store Nat) :=
  match s.inspect id with
  | .error m => .ends (.error (m.buildError .optimize id) s)
  | .ok (_, .const _) => .ends (.ok 0 s)
  | .ok (n, .var) => .ends (ReadCaching.rebind id n.emission s)
  | .ok (_, .unary _ x) => .visits (.rebind s x) .ends
  | .ok (_, .binary _ l r) =>
      .visits (.rebind s l) (.proceedIn fun a t =>
        .visits (.rebind t r) (.proceedIn fun b u => .ends (.ok (a + b) u)))

/-- Types a node: its emission may fix the type, else its operands are typed. -/
def typeCourse (s : Store) (id : NodeId) : Course (Except BuildError Ty) :=
  match s.inspect id with
  | .error m => .ends (.error (m.buildError .render id))
  | .ok (n, shape) =>
      match n.emission.declared?, shape with
      | some ty, _ => .ends (.ok ty)
      | none, .const v => .ends (.ok v.ty)
      | none, .var => .ends (.ok (ctx.typeOf n.label))
      | none, .unary op x =>
          .visits (.type s x) (.proceed fun t => .ends (op.typeAt id n.label t))
      | none, .binary op l r =>
          .visits (.type s l) (.proceed fun a =>
            .visits (.type s r) (.proceed fun b => .ends (op.typeAt id n.label a b)))

/-- Puts an operator's fragment together, if it has a type. -/
def joinCourse (ty : Except BuildError Ty) (code : Ty → Code) (st : RenderState) :
    Course (EStateM.Result BuildError RenderState Fragment) :=
  match ty with
  | .ok t => .ends (.ok ⟨code t, t⟩ st)
  | .error e => .ends (.error e st)

/-- A constant or an operator enters code in place by this course, and else without a visit. -/
def operationCourse (id : NodeId) (label : String) (st : RenderState)
    (inPlace : Course (EStateM.Result BuildError RenderState Fragment)) :
    Emission → Course (EStateM.Result BuildError RenderState Fragment)
  | .inPlace => inPlace
  | .hoisted v ty => .ends (RenderM.hoist v ty st)
  | .cached _ => .ends (.error (.malformed .render id label .cachedOperation) st)

/-- Renders a node: the operands of an operator only if it enters code in place. -/
def renderCourse (s : Store) (st : RenderState) (id : NodeId) :
    Course (EStateM.Result BuildError RenderState Fragment) :=
  match s.inspect id with
  | .error m => .ends (.error (m.buildError .render id) st)
  | .ok (n, .var) => .ends (RenderM.readVariable ctx n.label n.emission st)
  | .ok (n, .const v) => operationCourse id n.label st (.ends (.ok (.const v) st)) n.emission
  | .ok (n, .unary op x) =>
      operationCourse id n.label st
        (.visits (.render s st x) (.proceedIn fun f =>
          joinCourse (op.typeAt id n.label f.ty) (op.code · f)))
        n.emission
  | .ok (n, .binary op l r) =>
      operationCourse id n.label st
        (.visits (.render s st l) (.proceedIn fun f t =>
          .visits (.render s t r) (.proceedIn fun g =>
            joinCourse (op.typeAt id n.label f.ty g.ty) (op.code · f g))))
        n.emission

end Courses

namespace Visit

/-- What the visit does. -/
def course (ctx : Context) : (v : Visit) → Course v.Ending
  | eval s id => evalCourse ctx s id
  | fold st id => foldCourse st id
  | rebind s id => rebindCourse s id
  | type s id => typeCourse ctx s id
  | render s st id => renderCourse ctx s st id

/-- The visit ends as given, with at most `depth` visits inside each other, itself among them. All
of them are made in stores, and leave stores, of which `ok` holds. -/
def EndsWithin (ctx : Context) (ok : Store → Prop) : Nat → (v : Visit) → v.Ending → Prop
  | 0, _, _ => False
  | depth + 1, v, e =>
      ok v.store ∧ ok (v.left e) ∧ (v.course ctx).ComesTo (EndsWithin ctx ok depth) e

/-- How the walk ends that carries this depth. -/
def within (ctx : Context) (depth : Nat) : (v : Visit) → v.Ending
  | eval s id => s.evalWithin ctx depth id
  | fold st id => Folding.foldWithin ctx depth id st
  | rebind s id => ReadCaching.rebindWithin depth id s
  | type s id => s.typeVia (s.inPlaceTypeWithin ctx depth) id
  | render s st id => s.renderWithin ctx depth id st

/-- How the visits end that a visit makes. Folding evaluates with a depth of its own. -/
def inner (ctx : Context) (depth : Nat) : Visit → (w : Visit) → w.Ending
  | fold _ _, eval s id => s.eval ctx id
  | _, w => w.within ctx depth

end Visit

section Results

variable {ctx : Context} {reply : (v : Visit) → v.Ending} {depth : Nat} {id : NodeId}

theorem evalCourse_result {s : Store} (h : ∀ x, reply (.eval s x) = s.evalWithin ctx depth x) :
    (evalCourse ctx s id).result reply = s.evalWithin ctx (depth + 1) id := by
  unfold evalCourse
  rcases hi : s.inspect id with m | ⟨n, shape⟩
  · exact (Store.evalWithin_misfit ctx depth hi).symm
  · cases shape with
    | const v => exact (Store.evalWithin_const ctx depth hi).symm
    | var => exact (Store.evalWithin_var ctx depth hi).symm
    | unary op x =>
        rw [Store.evalWithin_unary ctx depth hi, ← h x]
        exact Course.result_proceed fun _ => rfl
    | binary op l r =>
        rw [Store.evalWithin_binary ctx depth hi, ← h l, ← h r]
        exact Course.result_proceed fun _ => Course.result_proceed fun _ => rfl

theorem settleCourse_result (heval : ∀ s x, reply (.eval s x) = s.eval ctx x) (constant : Bool)
    (st : Folding.State) :
    (settleCourse id constant st).result reply = Folding.settle ctx id constant st := by
  cases constant with
  | false => rfl
  | true =>
      simp only [settleCourse, Folding.settle, if_true, Course.result, heval]
      cases st.store.eval ctx id with
      | ok v => rfl
      | error e => rfl

theorem foldCourse_result {st : Folding.State}
    (h : ∀ t x, reply (.fold t x) = Folding.foldWithin ctx depth x t)
    (heval : ∀ s x, reply (.eval s x) = s.eval ctx x) :
    (foldCourse st id).result reply = Folding.foldWithin ctx (depth + 1) id st := by
  unfold foldCourse
  rcases hi : st.store.inspect id with m | ⟨n, shape⟩
  · exact (Folding.foldWithin_misfit hi).symm
  · cases shape with
    | const v => exact (Folding.foldWithin_const hi).symm
    | var => exact (Folding.foldWithin_var hi).symm
    | unary op x =>
        rw [Folding.foldWithin_unary hi, Course.result, h]
        exact Course.result_proceedIn (settleCourse_result heval)
    | binary op l r =>
        rw [Folding.foldWithin_binary hi, Course.result, h]
        refine Course.result_proceedIn fun a t => ?_
        rw [Course.result, h]
        exact Course.result_proceedIn fun b => settleCourse_result heval (a && b)

theorem rebindCourse_result {s : Store}
    (h : ∀ t x, reply (.rebind t x) = ReadCaching.rebindWithin depth x t) :
    (rebindCourse s id).result reply = ReadCaching.rebindWithin (depth + 1) id s := by
  unfold rebindCourse
  rcases hi : s.inspect id with m | ⟨n, shape⟩
  · exact (ReadCaching.rebindWithin_misfit hi).symm
  · cases shape with
    | const v => exact (ReadCaching.rebindWithin_const hi).symm
    | var => exact (ReadCaching.rebindWithin_var hi).symm
    | unary op x =>
        rw [ReadCaching.rebindWithin_unary hi]
        exact h s x
    | binary op l r =>
        rw [ReadCaching.rebindWithin_binary hi, Course.result, h]
        refine Course.result_proceedIn fun a t => ?_
        rw [Course.result, h]
        exact Course.result_proceedIn fun b u => rfl

theorem typeCourse_result {s : Store}
    (h : ∀ x, reply (.type s x) = s.typeVia (s.inPlaceTypeWithin ctx depth) x) :
    (typeCourse ctx s id).result reply =
      s.typeVia (s.inPlaceTypeWithin ctx (depth + 1)) id := by
  unfold typeCourse
  rcases hi : s.inspect id with m | ⟨n, shape⟩
  · exact (Store.typeVia_misfit _ hi).symm
  · rw [Store.typeVia_ok _ hi, Store.typeUnder]
    dsimp only
    cases n.emission.declared? with
    | some ty => rfl
    | none =>
        cases shape with
        | const v => exact (Store.inPlaceTypeWithin_const ctx depth hi).symm
        | var => exact (Store.inPlaceTypeWithin_var ctx depth hi).symm
        | unary op x =>
            refine Eq.trans ?_ (Store.inPlaceTypeWithin_unary ctx depth hi).symm
            rw [← h x]
            exact Course.result_proceed fun _ => rfl
        | binary op l r =>
            refine Eq.trans ?_ (Store.inPlaceTypeWithin_binary ctx depth hi).symm
            rw [← h l, ← h r]
            exact Course.result_proceed fun _ => Course.result_proceed fun _ => rfl

theorem joinCourse_result (ty : Except BuildError Ty) (code : Ty → Code) (st : RenderState) :
    (joinCourse ty code st).result reply =
      (RenderM.typed ty >>= fun t => pure ⟨code t, t⟩ : RenderM Fragment) st := by
  cases ty with
  | ok t => rfl
  | error e => rfl

theorem operationCourse_result {label : String} {st : RenderState}
    {inPlace : Course (EStateM.Result BuildError RenderState Fragment)} {m : RenderM Fragment}
    (h : inPlace.result reply = m st) (e : Emission) :
    (operationCourse id label st inPlace e).result reply = RenderM.operation id label m e st := by
  cases e with
  | inPlace => exact h
  | hoisted v ty => rfl
  | cached inner => rfl

theorem renderCourse_result {s : Store} {st : RenderState}
    (h : ∀ t x, reply (.render s t x) = s.renderWithin ctx depth x t) :
    (renderCourse ctx s st id).result reply = s.renderWithin ctx (depth + 1) id st := by
  unfold renderCourse
  rcases hi : s.inspect id with m | ⟨n, shape⟩
  · exact (Store.renderWithin_misfit ctx depth hi st).symm
  · refine Eq.trans ?_ (bind_of_ok (RenderM.nodeAt_ok hi)).symm
    cases shape with
    | var => rfl
    | const v => exact operationCourse_result rfl n.emission
    | unary op x =>
        refine operationCourse_result ?_ n.emission
        rw [Course.result, h]
        exact Course.result_proceedIn fun f => joinCourse_result _ _
    | binary op l r =>
        refine operationCourse_result ?_ n.emission
        rw [Course.result, h]
        refine Course.result_proceedIn fun f t => ?_
        rw [Course.result, h]
        exact Course.result_proceedIn fun g => joinCourse_result _ _

end Results

/-- Each walk is its course, with one level of depth less for the visits that it makes. -/
theorem Visit.within_succ (ctx : Context) (depth : Nat) (v : Visit) :
    v.within ctx (depth + 1) = (v.course ctx).result (v.inner ctx depth) := by
  cases v with
  | eval s id => exact (evalCourse_result fun _ => rfl).symm
  | fold st id => exact (foldCourse_result (fun _ _ => rfl) fun _ _ => rfl).symm
  | rebind s id => exact (rebindCourse_result fun _ _ => rfl).symm
  | type s id => exact (typeCourse_result fun _ => rfl).symm
  | render s st id => exact (renderCourse_result fun _ _ => rfl).symm

end FormulaCompiler
