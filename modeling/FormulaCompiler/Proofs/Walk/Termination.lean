import FormulaCompiler.Proofs.Walk.Course

/-!
# Every walk ends

In an acyclic store the five walks end by themselves, with no more visits inside each other than the
store has nodes and one more. Ids do not fall from a node to its children, so that what bounds a
walk is the number of nodes that it can still come to. Folding and rebinding change the store on
their way: they add no edge and no node, so that every store they come to has no cycle either and
the bound survives. An evaluation that folding makes counts as further visits inside that of the
operator, which is why the height of a node and not only the length of its walks is followed there.
-/

namespace FormulaCompiler

open Store (Rewrites)

namespace Store

/-- The second store has no cycle and as many nodes as the first. -/
def Intact (s t : Store) : Prop := t.Acyclic ∧ t.size = s.size

variable {s t u : Store} {id : NodeId} {caching : Bool} {height : Nat}

theorem Intact.rewrites (h : s.Intact t) (hr : Rewrites caching t u) : s.Intact u :=
  ⟨hr.acyclic h.1, hr.size_eq.trans h.2⟩

/-- A node that exists has a height. -/
theorem Low.pos (h : s.Low height id) {n : Node} (hn : s.get? id = some n) : 0 < height := by
  cases height with
  | zero => cases hn.symm.trans h
  | succ height => exact Nat.succ_pos height

theorem Rewrites.low (hr : Rewrites caching s t) (h : s.Low height id) : t.Low height id := by
  induction height generalizing id with
  | zero =>
      have hnone := (s.get?_eq_none_iff id).mp h
      rw [← hr.size_eq] at hnone
      exact (t.get?_eq_none_iff id).mpr hnone
  | succ height ih => exact fun child hc => ih (h child (hr.child hc))

/-- An operator on constants is two visits deep. -/
theorem shallow_of_constants (h : ∀ x, s.Child id x → s.IsConstant x) : s.Shallow 2 id := by
  intro x hx y hy
  obtain ⟨n, v, hi⟩ := h x hx
  have hnil : y ∈ (Shape.const v).children := (child_iff hi y).mp hy
  cases hnil

end Store

section Makes

variable {ctx : Context} {reply : (v : Visit) → v.Ending} {P : Visit → Prop} {id : NodeId}

namespace Course

variable {ε σ α β : Type}

theorem makes_proceed {r : Except ε α} {next : α → Course (Except ε β)}
    (h : ∀ a, (next a).Makes reply P) : (proceed next r).Makes reply P := by
  cases r with
  | ok a => exact h a
  | error e => trivial

theorem makes_proceedIn {r : EStateM.Result ε σ α} {next : α → σ → Course (EStateM.Result ε σ β)}
    (h : ∀ a t, r = .ok a t → (next a t).Makes reply P) : (proceedIn next r).Makes reply P := by
  cases r with
  | ok a t => exact h a t rfl
  | error e t => trivial

end Course

open Course

theorem evalCourse_makes {s : Store} (h : ∀ x, s.Child id x → P (.eval s x)) :
    (evalCourse ctx s id).Makes reply P := by
  unfold evalCourse
  rcases hi : s.inspect id with m | ⟨n, shape⟩
  · trivial
  · cases shape with
    | const v => trivial
    | var => trivial
    | unary op x => exact ⟨h x (Store.child_of_unary hi), makes_proceed fun _ => trivial⟩
    | binary op l r =>
        obtain ⟨hl, hr⟩ := Store.child_of_binary hi
        exact ⟨h l hl, makes_proceed fun _ => ⟨h r hr, makes_proceed fun _ => trivial⟩⟩

theorem typeCourse_makes {s : Store} (h : ∀ x, s.Child id x → P (.type s x)) :
    (typeCourse ctx s id).Makes reply P := by
  unfold typeCourse
  rcases hi : s.inspect id with m | ⟨n, shape⟩
  · trivial
  · dsimp only
    cases n.emission.declared? with
    | some ty => trivial
    | none =>
        cases shape with
        | const v => trivial
        | var => trivial
        | unary op x => exact ⟨h x (Store.child_of_unary hi), makes_proceed fun _ => trivial⟩
        | binary op l r =>
            obtain ⟨hl, hr⟩ := Store.child_of_binary hi
            exact ⟨h l hl, makes_proceed fun _ => ⟨h r hr, makes_proceed fun _ => trivial⟩⟩

theorem joinCourse_makes (ty : Except BuildError Ty) (code : Ty → Code) (st : RenderState) :
    (joinCourse ty code st).Makes reply P := by
  cases ty with
  | ok t => trivial
  | error e => trivial

theorem operationCourse_makes {label : String} {st : RenderState}
    {inPlace : Course (EStateM.Result BuildError RenderState Fragment)}
    (h : inPlace.Makes reply P) (e : Emission) :
    (operationCourse id label st inPlace e).Makes reply P := by
  cases e with
  | inPlace => exact h
  | hoisted v ty => trivial
  | cached inner => trivial

theorem renderCourse_makes {s : Store} {st : RenderState}
    (h : ∀ t x, s.Child id x → P (.render s t x)) : (renderCourse ctx s st id).Makes reply P := by
  unfold renderCourse
  rcases hi : s.inspect id with m | ⟨n, shape⟩
  · trivial
  · cases shape with
    | var => trivial
    | const v =>
        refine operationCourse_makes ?_ n.emission
        trivial
    | unary op x =>
        refine operationCourse_makes ?_ n.emission
        refine ⟨h st x (Store.child_of_unary hi), ?_⟩
        exact makes_proceedIn fun f t _ => joinCourse_makes _ _ t
    | binary op l r =>
        obtain ⟨hl, hr⟩ := Store.child_of_binary hi
        refine operationCourse_makes ?_ n.emission
        refine ⟨h st l hl, makes_proceedIn fun f t _ => ?_⟩
        exact ⟨h t r hr, makes_proceedIn fun g u _ => joinCourse_makes _ _ u⟩

/-- The second operand is rebound in the store that the first one leaves. -/
theorem rebindCourse_makes {s : Store}
    (hreply : ∀ x count t, reply (.rebind s x) = .ok count t → Rewrites true s t)
    (h : ∀ t x, Rewrites true s t → s.Child id x → P (.rebind t x)) :
    (rebindCourse s id).Makes reply P := by
  unfold rebindCourse
  rcases hi : s.inspect id with m | ⟨n, shape⟩
  · trivial
  · cases shape with
    | const v => trivial
    | var => trivial
    | unary op x => exact ⟨h s x (Rewrites.refl s) (Store.child_of_unary hi), trivial⟩
    | binary op l r =>
        obtain ⟨hl, hr⟩ := Store.child_of_binary hi
        refine ⟨h s l (Rewrites.refl s) hl, makes_proceedIn fun a t ha => ?_⟩
        exact ⟨h t r (hreply l a t ha) hr, makes_proceedIn fun b u _ => trivial⟩

theorem settleCourse_makes {constant : Bool} {st : Folding.State}
    (h : constant = true → P (.eval st.store id)) :
    (settleCourse id constant st).Makes reply P := by
  cases constant with
  | false => trivial
  | true =>
      refine ⟨h rfl, ?_⟩
      cases reply (.eval st.store id) with
      | ok v => trivial
      | error e => trivial

/-- The operands are folded, each in the store that the one before it leaves. The node itself is
evaluated only when it has operands and these have become constants. -/
theorem foldCourse_makes {st : Folding.State} (hs : st.store.Acyclic)
    (hreply : ∀ (t : Folding.State) x constant u, t.store.Acyclic →
      reply (.fold t x) = .ok constant u → Folding.Folds t.store x constant u)
    (hfold : ∀ (t : Folding.State) x, Rewrites false st.store t.store → st.store.Child id x →
      P (.fold t x))
    (heval : ∀ t, Rewrites false st.store t → (∃ x, st.store.Child id x) →
      (∀ x, st.store.Child id x → t.IsConstant x) → P (.eval t id)) :
    (foldCourse st id).Makes reply P := by
  unfold foldCourse
  rcases hi : st.store.inspect id with m | ⟨n, shape⟩
  · trivial
  · cases shape with
    | const v => trivial
    | var => trivial
    | unary op x =>
        have hcx := Store.child_of_unary hi
        refine ⟨hfold st x (Rewrites.refl _) hcx, makes_proceedIn fun a t ha => ?_⟩
        obtain ⟨hst, hx⟩ := hreply st x a t hs ha
        refine settleCourse_makes fun hconst => heval t.store hst ⟨x, hcx⟩ ?_
        simpa [Store.child_iff hi, Shape.children] using hx hconst
    | binary op l r =>
        obtain ⟨hcl, hcr⟩ := Store.child_of_binary hi
        refine ⟨hfold st l (Rewrites.refl _) hcl, makes_proceedIn fun a t ha => ?_⟩
        obtain ⟨hst, hl⟩ := hreply st l a t hs ha
        refine ⟨hfold t r hst hcr, makes_proceedIn fun b u hb => ?_⟩
        obtain ⟨htu, hr⟩ := hreply t r b u (hst.acyclic hs) hb
        refine settleCourse_makes fun hconst => heval u.store (hst.trans htu) ⟨l, hcl⟩ ?_
        obtain ⟨hlc, hrc⟩ := Bool.and_eq_true_iff.mp hconst
        -- Folding the right operand leaves the left one a constant.
        have hlu : u.store.IsConstant l := htu.isConstant (hl hlc)
        simpa [Store.child_iff hi, Shape.children] using ⟨hlu, hr hrc⟩

end Makes

namespace Visit

variable {ctx : Context} {ok : Store → Prop} {depth : Nat} {id : NodeId}

theorem EndsWithin.mono {v : Visit} {e : v.Ending} (h : EndsWithin ctx ok depth v e) {more : Nat}
    (hle : depth ≤ more) : EndsWithin ctx ok more v e := by
  induction depth generalizing v more with
  | zero => exact h.elim
  | succ depth ih =>
      obtain ⟨hstart, hleft, hcourse⟩ := h
      cases more with
      | zero => omega
      | succ more =>
          exact ⟨hstart, hleft, hcourse.mono fun w e he => ih he (Nat.le_of_succ_le_succ hle)⟩

/-- A visit ends when those that it makes end. -/
theorem endsWithin_succ {v : Visit} (hstart : ok v.store)
    (hleft : ok (v.left (v.within ctx (depth + 1))))
    (h : (v.course ctx).Makes (v.inner ctx depth)
      fun w => EndsWithin ctx ok depth w (v.inner ctx depth w)) :
    EndsWithin ctx ok (depth + 1) v (v.within ctx (depth + 1)) := by
  refine ⟨hstart, hleft, ?_⟩
  rw [v.within_succ ctx depth]
  exact h.comesTo

theorem eval_endsWithin {s : Store} (hs : ok s) (hd : s.Shallow depth id) :
    EndsWithin ctx ok depth (.eval s id) (s.evalWithin ctx depth id) := by
  induction depth generalizing id with
  | zero => exact hd.elim
  | succ depth ih =>
      exact endsWithin_succ (v := .eval s id) hs hs (evalCourse_makes fun x hx => ih (hd x hx))

theorem type_endsWithin {s : Store} (hs : ok s) (hd : s.Shallow depth id) :
    EndsWithin ctx ok depth (.type s id) (s.typeVia (s.inPlaceTypeWithin ctx depth) id) := by
  induction depth generalizing id with
  | zero => exact hd.elim
  | succ depth ih =>
      exact endsWithin_succ (v := .type s id) hs hs (typeCourse_makes fun x hx => ih (hd x hx))

theorem render_endsWithin {s : Store} (hs : ok s) (hd : s.Shallow depth id) (st : RenderState) :
    EndsWithin ctx ok depth (.render s st id) (s.renderWithin ctx depth id st) := by
  induction depth generalizing id st with
  | zero => exact hd.elim
  | succ depth ih =>
      exact endsWithin_succ (v := .render s st id) hs hs
        (renderCourse_makes fun t x hx => ih (hd x hx) t)

/-- Where following children comes back, no depth is enough: a node that is its own operand is
evaluated without an end. -/
theorem not_endsWithin_of_own_operand {s : Store} {n : Node} {op : UnaryOp}
    (hi : s.inspect id = .ok (n, .unary op id)) (e : Except EvalError Value) :
    ¬ EndsWithin ctx ok depth (.eval s id) e := by
  induction depth generalizing e with
  | zero => exact fun h => h
  | succ depth ih =>
      intro h
      have hcourse := h.2.2
      simp only [course, evalCourse, hi] at hcourse
      obtain ⟨e', he', -⟩ := hcourse
      exact ih e' he'

section Changing

variable {first s t : Store} {st : Folding.State} {height : Nat}

theorem intact_left_rebind (hs : first.Intact s) :
    first.Intact ((rebind s id).left (ReadCaching.rebindWithin depth id s)) := by
  have h := ReadCaching.rebindWithin_ends depth id s
  cases hr : ReadCaching.rebindWithin depth id s with
  | ok count t => exact hs.rewrites (h.of_ok hr)
  | error e t => exact hs.rewrites (h.of_error hr)

theorem rebind_endsWithin (hs : first.Intact s) (hd : s.Shallow depth id) :
    EndsWithin ctx first.Intact depth (.rebind s id) (ReadCaching.rebindWithin depth id s) := by
  induction depth generalizing id s with
  | zero => exact hd.elim
  | succ depth ih =>
      refine endsWithin_succ (v := .rebind s id) hs (intact_left_rebind hs)
        (rebindCourse_makes ?_ ?_)
      · intro x count t hrun
        exact (ReadCaching.rebindWithin_ends depth x s).of_ok hrun
      · intro t x hst hx
        exact ih (hs.rewrites hst) (hst.shallow (hd x hx))

theorem intact_left_fold (hs : first.Intact st.store) :
    first.Intact ((fold st id).left (Folding.foldWithin ctx depth id st)) := by
  have h := Folding.foldWithin_ends ctx depth id st hs.1
  cases hr : Folding.foldWithin ctx depth id st with
  | ok constant t => exact hs.rewrites (h.of_ok hr).1
  | error e t => exact hs.rewrites (h.of_error hr)

theorem fold_endsWithin_succ (hs : first.Intact st.store)
    (hfold : ∀ (t : Folding.State) x, Rewrites false st.store t.store → st.store.Child id x →
      EndsWithin ctx first.Intact depth (.fold t x) (Folding.foldWithin ctx depth x t))
    (heval : ∀ t, Rewrites false st.store t → (∃ x, st.store.Child id x) →
      (∀ x, st.store.Child id x → t.IsConstant x) →
      EndsWithin ctx first.Intact depth (.eval t id) (t.eval ctx id)) :
    EndsWithin ctx first.Intact (depth + 1) (.fold st id)
      (Folding.foldWithin ctx (depth + 1) id st) := by
  refine endsWithin_succ (v := .fold st id) hs (intact_left_fold hs)
    (foldCourse_makes hs.1 ?_ hfold heval)
  intro t x constant u ht hrun
  exact (Folding.foldWithin_ends ctx depth x t ht).of_ok hrun

/-- Evaluating an operator whose operands have become constants takes two visits. There is room for
both, since an operand exists and is one of the nodes that the walk can still come to. -/
theorem eval_endsWithin_of_constants (ht : first.Intact t) (hst : Rewrites false s t)
    (hlow : ∀ x, s.Child id x → s.Low height x) (hsome : ∃ x, s.Child id x)
    (hc : ∀ x, s.Child id x → t.IsConstant x) :
    EndsWithin ctx first.Intact (height + 1) (.eval t id) (t.eval ctx id) := by
  have hpos : 0 < height := by
    obtain ⟨x, hx⟩ := hsome
    obtain ⟨n, v, hi⟩ := hc x hx
    exact (hst.low (hlow x hx)).pos ((t.inspect_eq_ok_iff x n _).mp hi).1
  have hshallow : t.Shallow 2 id := Store.shallow_of_constants fun x hx => hc x (hst.child hx)
  have hends : EndsWithin ctx first.Intact 2 (.eval t id) (t.evalWithin ctx 2 id) :=
    eval_endsWithin ht hshallow
  rw [Store.evalWithin_eq ctx hshallow (ht.1.shallow id)] at hends
  exact hends.mono (by omega)

/-- Folding, the evaluations that it makes counted in. The induction is on the number of nodes that
the walk can still come to, for all stores that folding leads to at once. -/
theorem fold_endsWithin (hs : first.Intact st.store) (hl : st.store.Low height id) :
    EndsWithin ctx first.Intact (height + 1) (.fold st id)
      (Folding.foldWithin ctx (height + 1) id st) := by
  induction height generalizing id st with
  | zero =>
      have hnone : ∀ x, ¬ st.store.Child id x := by
        intro x hx
        obtain ⟨n, hn, -⟩ := hx
        cases hl.symm.trans hn
      refine fold_endsWithin_succ hs ?_ ?_
      · exact fun t x _ hx => absurd hx (hnone x)
      · exact fun t _ hsome _ => hsome.elim fun x hx => absurd hx (hnone x)
  | succ height ih =>
      refine fold_endsWithin_succ hs ?_ ?_
      · intro t x hst hx
        exact ih (hs.rewrites hst) (hst.low (hl x hx))
      · intro t hst hsome hc
        exact eval_endsWithin_of_constants (hs.rewrites hst) hst hl hsome hc

end Changing
end Visit

/-- Every walk ends on an acyclic store, from every id and in every state. At most one visit more
than the store has nodes is inside another, where the evaluations that folding makes are counted as
visits inside the fold. Every store in which one of the visits is made, and every store that one of
them leaves, is acyclic again and has as many nodes. -/
theorem walks_end {s : Store} (hs : s.Acyclic) (ctx : Context) (id : NodeId) :
    Visit.EndsWithin ctx s.Intact (s.size + 1) (.eval s id) (s.eval ctx id) ∧
    (∀ folded, Visit.EndsWithin ctx s.Intact (s.size + 1) (.fold ⟨s, folded⟩ id)
      (Folding.foldWithin ctx s.depth id ⟨s, folded⟩)) ∧
    Visit.EndsWithin ctx s.Intact (s.size + 1) (.rebind s id)
      (ReadCaching.rebindWithin s.depth id s) ∧
    Visit.EndsWithin ctx s.Intact (s.size + 1) (.type s id) (s.nodeType ctx id) ∧
    ∀ st, Visit.EndsWithin ctx s.Intact (s.size + 1) (.render s st id) (s.render ctx id st) := by
  have hintact : s.Intact s := ⟨hs, rfl⟩
  have hshallow := hs.shallow id
  refine ⟨Visit.eval_endsWithin hintact hshallow, fun folded => ?_,
    Visit.rebind_endsWithin hintact hshallow, Visit.type_endsWithin hintact hshallow,
    Visit.render_endsWithin hintact hshallow⟩
  exact Visit.fold_endsWithin hintact (hs.low id)

/-- `2 * 2 + -(...)`, where the negation has no operand that exists. The factor is shared and every
child stands behind its parent; beside the formula there is a negation of two nodes. -/
def danglingSum : Store :=
  ⟨#[.binary .add ⟨1⟩ ⟨2⟩, .binary .mul ⟨3⟩ ⟨3⟩, .unary .neg ⟨9⟩, .const (.int 2),
    ⟨"-", .unary .neg, [⟨0⟩, ⟨3⟩], .inPlace⟩]⟩

/-- Folding it freezes the product and then breaks off, having changed the store. -/
theorem walks_end_danglingSum :
    let ctx := Bindings.empty.context
    let broken : EStateM.Result BuildError Folding.State Bool :=
      .error (.malformed .optimize ⟨9⟩ "" .missingNode) ⟨danglingSum.freeze ⟨1⟩ (.int 4), 1⟩
    danglingSum.Acyclic ∧
    Folding.foldWithin ctx danglingSum.depth ⟨0⟩ ⟨danglingSum, 0⟩ = broken ∧
    Visit.EndsWithin ctx danglingSum.Intact 6 (.fold ⟨danglingSum, 0⟩ ⟨0⟩) broken := by
  intro ctx broken
  have hacyclic : danglingSum.Acyclic :=
    Store.acyclic_of_rank (fun id => if id.index = 4 then 10 else 9 - id.index) (by decide)
  have hrun : Folding.foldWithin ctx danglingSum.depth ⟨0⟩ ⟨danglingSum, 0⟩ = broken := by
    with_unfolding_all rfl
  have hends := (walks_end hacyclic ctx ⟨0⟩).2.1 0
  rw [hrun] at hends
  exact ⟨hacyclic, hrun, hends⟩

end FormulaCompiler
