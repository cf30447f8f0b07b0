import FormulaCompiler.Proofs.Fragment.Appending

/-!
# Rendering infers types

Typing a node and rendering it are separate recursions, and they look at caches differently: a cached
variable is typed through its cache, while rendering may find a local for it and look no further.
A fragment always has the type of its node. Rendering can fail in three more ways: an operator may be
cached, a new local may clash with another, and a counter may come to its end. Without the first,
and without a cache inside a cache, names drawn from a counter do not clash, so that rendering fails
exactly where typing does, with the same error, unless it runs out of numbers. Caches that hold names
from elsewhere are not covered.
-/

namespace FormulaCompiler

/-- Every local has drawn its number from the cache's counter. -/
def ReadCache.Drawn {α : Type} (c : ReadCache α) : Prop :=
  ∀ r ∈ c.toList, ∃ k < c.names.value, r.name = numbered c.stem k

theorem ReadCache.drawn_of_empty {α : Type} {c : ReadCache α} (h : c.toList = []) : c.Drawn := by
  intro r hr
  rw [h] at hr
  cases hr

/-- No local has the next name. -/
theorem ReadCache.Drawn.free {α : Type} {c : ReadCache α} (hc : c.Drawn) :
    ∀ r ∈ c.toList, r.name ≠ c.nextName := by
  intro r hr hname
  obtain ⟨k, hk, hrk⟩ := hc r hr
  have hkc : k = c.names.value := (numbered_inj c.stem).mp (hrk.symm.trans hname)
  omega

theorem RenderState.Step.drawn {st st' : RenderState} (h : st.Step st')
    (hst : st.locals.Drawn) : st'.locals.Drawn := by
  have holder : ∀ r ∈ st.locals.toList,
      ∃ k < st.locals.names.value + 1, r.name = numbered st.locals.stem k := by
    intro r hr
    obtain ⟨k, hk, hname⟩ := hst r hr
    exact ⟨k, by omega, hname⟩
  cases h with
  | queued v ty => exact hst
  | @declared text read _ hnew _ =>
      intro r hr
      rw [locals_withLocal] at hr
      rcases List.mem_append.mp hr with hr | hr
      · exact holder r hr
      · rw [List.mem_singleton.mp hr]
        exact ⟨st.locals.names.value, Nat.lt_succ_self _, rfl⟩
  | wasted => exact holder

theorem RenderState.Steps.drawn {st st' : RenderState} (h : st.Steps st')
    (hst : st.locals.Drawn) : st'.locals.Drawn :=
  h.keeps (P := fun st => st.locals.Drawn) (fun hstep ih => hstep.drawn ih) hst

/-- Rendering names locals from the cache's own counter. -/
theorem RenderState.InUse.drawn {st : RenderState} (h : st.InUse) : st.locals.Drawn :=
  h.induction (P := fun st => st.locals.Drawn) (fun _ _ hl => ReadCache.drawn_of_empty hl)
    fun hstep hst => hstep.drawn hst

/-- A cache inside a cache, which no variable can be read through twice. -/
def Emission.Nests (e : Emission) : Prop := ∃ inner, e = .cached (.cached inner)

instance (e : Emission) : Decidable e.Nests :=
  match e with
  | .cached (.cached inner) => .isTrue ⟨inner, rfl⟩
  | .cached .inPlace | .cached (.hoisted _ _) | .inPlace | .hoisted _ _ =>
      .isFalse fun ⟨_, h⟩ => by cases h

namespace RenderM

variable {st : RenderState} {inPlace : RenderM Fragment} {ty : Except BuildError Ty} {P : Prop}

/-- The run fails because a counter has come to its end. -/
def RunsOut {α : Type} (m : RenderM α) (st : RenderState) : Prop :=
  Ends m st (fun _ _ => False) (fun e st' => st'.Exhausted e)

/-- Keeping a constant fails only for want of a number. -/
theorem hoist_fails (v : Value) (ty : Ty) (st : RenderState) :
    Ends (hoist v ty) st (fun _ st' => st'.locals = st.locals) (fun e st' => st'.Exhausted e) := by
  refine (hoist_runs v ty st).mono ?_ ?_
  · intro f st' h
    rw [h.2]
    rfl
  · intro e st' h
    rw [h.2]
    exact h.1

/-- A local that has drawn its number clashes only with one for the same variable. -/
theorem declare_fails (name : String) (read : Fragment) (st : RenderState) :
    Ends (declare name read) st (fun _ _ => True)
      (fun e st' => st.locals.Drawn → st'.Exhausted e ∨ st.locals.get? name ≠ none) := by
  refine (declare_runs name read st).mono (fun _ _ _ => trivial) ?_
  intro e st' h hdrawn
  rcases h with ⟨hout, rfl⟩ | ⟨hclash, -⟩
  · exact .inl hout
  · refine .inr fun hnew => ?_
    obtain ⟨r, hr, hname⟩ := hclash hnew
    exact hdrawn.free r hr hname

/-- Reading a variable fails only through a cache inside a cache or for want of a number. -/
theorem readVariable_fails (ctx : Context) (name : String) (e : Emission) (st : RenderState) :
    Ends (readVariable ctx name e) st (fun _ _ => True)
      (fun err st' => st.locals.Drawn → st'.Exhausted err ∨ e.Nests) := by
  cases e with
  | inPlace => trivial
  | hoisted v ty =>
      exact (hoist_fails v ty st).mono (fun _ _ _ => trivial) fun _ _ h _ => .inl h
  | cached inner =>
      unfold readVariable
      refine Ends.of_eq (bind_of_ok rfl) ?_
      cases hfound : st.locals.get? name with
      | some held => trivial
      | none =>
          have hdeclares : ∀ inner : Emission,
              Ends (readVariable ctx name inner) st (fun _ st' => st'.locals = st.locals)
                (fun err st' => st'.Exhausted err) →
              Ends (readVariable ctx name inner >>= declare name) st (fun _ _ => True)
                (fun err st' => st.locals.Drawn →
                  st'.Exhausted err ∨ (Emission.cached inner).Nests) := by
            intro inner hread
            refine (hread.mono (fun _ _ h => h) fun _ _ h _ => .inl h).bind ?_
            intro read st' hlocals
            refine (declare_fails name read st').mono (fun _ _ h => h) fun _ _ h hdrawn => ?_
            rw [hlocals] at h
            exact .inl ((h hdrawn).resolve_right fun hne => hne hfound)
          cases inner with
          | inPlace => exact hdeclares .inPlace rfl
          | hoisted v ty => exact hdeclares (.hoisted v ty) (hoist_fails v ty st)
          | cached inner =>
              have hnests : (Emission.cached (.cached inner)).Nests := ⟨inner, rfl⟩
              unfold Ends
              split
              · trivial
              · exact fun _ => .inr hnests

/-- A fragment has the type that is worked out for it. Under the condition, a failure is that of
working it out, or numbers have run out. -/
def TypedAs (m : RenderM Fragment) (st : RenderState) (ty : Except BuildError Ty) (P : Prop) :
    Prop :=
  Ends m st (fun f _ => ty = .ok f.ty) (fun e st' => P → st'.Exhausted e ∨ ty = .error e)

/-- Both go on from what the first parts agree on. -/
theorem TypedAs.bind {m : RenderM Fragment} {k : Fragment → RenderM Fragment} {Q : Prop}
    {after : Ty → Except BuildError Ty} (h : TypedAs m st ty Q) (hPQ : P → Q)
    (hk : ∀ f st', ty = .ok f.ty → m st = .ok f st' → TypedAs (k f) st' (after f.ty) P) :
    TypedAs (m >>= k) st (ty >>= after) P := by
  unfold TypedAs Ends
  cases hm : m st with
  | ok f st' =>
      have hty := h.of_ok hm
      rw [bind_of_ok hm, hty]
      exact hk f st' hty hm
  | error e st' =>
      rw [bind_of_error hm]
      intro hp
      rcases h.of_error hm (hPQ hp) with hout | hty
      · exact .inl hout
      · rw [hty]
        exact .inr rfl

theorem typed_typedAs (code : Ty → Code) :
    TypedAs (typed ty >>= fun t => pure ⟨code t, t⟩) st ty P := by
  refine (typed_runs ty code st).mono ?_ ?_
  · intro f st' h
    obtain ⟨-, t, hty, rfl⟩ := h
    exact hty
  · intro e st' h _
    exact .inr h.2

/-- The declared type counts, and else the type in place. -/
theorem operation_typedAs {id : NodeId} {label : String} {e : Emission}
    (hP : P → e.isCached = false) (h : e = .inPlace → TypedAs inPlace st ty P) :
    TypedAs (operation id label inPlace e) st (Store.typeUnder (fun _ => ty) id e) P := by
  cases e with
  | inPlace => exact h rfl
  | hoisted v ty =>
      refine (hoist_runs v ty st).mono ?_ ?_
      · intro f st' h
        rw [h.1]
        rfl
      · intro e st' h _
        rw [h.2]
        exact .inl h.1
  | cached inner =>
      refine Ends.throw fun hp => ?_
      cases hP hp

end RenderM

namespace Store

open RenderM

variable {s : Store} {ctx : Context}

/-- Rendering the first node comes to the second one: what is kept or cached is not looked into, and
a right operand is left alone if the left one has no type. -/
inductive Meets (s : Store) (ctx : Context) : NodeId → NodeId → Prop
  | self (id : NodeId) : Meets s ctx id id
  | operand {id x other : NodeId} {n : Node} {op : UnaryOp}
      (hi : s.inspect id = .ok (n, .unary op x)) (he : n.emission = .inPlace)
      (h : Meets s ctx x other) : Meets s ctx id other
  | left {id l r other : NodeId} {n : Node} {op : BinaryOp}
      (hi : s.inspect id = .ok (n, .binary op l r)) (he : n.emission = .inPlace)
      (h : Meets s ctx l other) : Meets s ctx id other
  | right {id l r other : NodeId} {n : Node} {op : BinaryOp} {ty : Ty}
      (hi : s.inspect id = .ok (n, .binary op l r)) (he : n.emission = .inPlace)
      (hl : s.nodeType ctx l = .ok ty) (h : Meets s ctx r other) : Meets s ctx id other

/-- Of the nodes that rendering comes to, only variables are cached, and none of them inside a
cache. -/
def CachesPlainly (s : Store) (ctx : Context) (id : NodeId) : Prop :=
  ∀ other n shape, s.Meets ctx id other → s.inspect other = .ok (n, shape) →
    n.emission.isCached = true → n.kind = .var ∧ ¬ n.emission.Nests

theorem cachesPlainly_of_all
    (h : ∀ n ∈ s.nodes, n.emission.isCached = true → n.kind = .var ∧ ¬ n.emission.Nests)
    (ctx : Context) (id : NodeId) : s.CachesPlainly ctx id :=
  fun other n shape _ hi =>
    h n (Array.mem_of_getElem? ((s.inspect_eq_ok_iff other n shape).mp hi).1)

theorem Meets.reaches {id other : NodeId} (h : s.Meets ctx id other) : s.Reaches id other := by
  induction h with
  | self id => exact .refl s id
  | operand hi _ _ ih => exact ih.below (child_of_unary hi)
  | left hi _ _ ih => exact ih.below (child_of_binary hi).1
  | right hi _ _ _ ih => exact ih.below (child_of_binary hi).2

/-- Typing and rendering a node agree, whatever was rendered before. -/
theorem Acyclic.renderWithin_typedAs (hs : s.Acyclic) (depth : Nat) {id : NodeId}
    (hd : s.Shallow depth id) (st : RenderState) :
    TypedAs (s.renderWithin ctx depth id) st (s.nodeType ctx id)
      (st.locals.Drawn ∧ s.CachesPlainly ctx id) := by
  induction depth generalizing id st with
  | zero => exact hd.elim
  | succ depth ih =>
      rcases hi : s.inspect id with m | ⟨n, shape⟩
      · exact Ends.of_eq (bind_of_error (nodeAt_misfit hi))
          (Ends.throw fun _ => .inr (nodeType_misfit ctx hi))
      have hplain : s.CachesPlainly ctx id → n.emission.isCached = true →
          n.kind = .var ∧ ¬ n.emission.Nests := fun h => h id n shape (.self id) hi
      have hcached : shape ≠ .var → st.locals.Drawn ∧ s.CachesPlainly ctx id →
          n.emission.isCached = false := by
        intro hv hp
        refine Bool.eq_false_iff.mpr fun hc => hv ?_
        exact Shape.eq_var_of_kind ((kind_of_inspect hi).symm.trans (hplain hp.2 hc).1)
      rw [nodeType_ok ctx hi]
      refine Ends.of_eq (bind_of_ok (nodeAt_ok hi)) ?_
      cases shape with
      | var =>
          refine ((readVariable_runs ctx n.label n.emission st).both
            (readVariable_fails ctx n.label n.emission st)).mono ?_ ?_
          · intro f st' h
            obtain ⟨⟨-, -, hty⟩, -⟩ := h
            rw [hty, typeAs, typeUnder, inPlaceType_var ctx hi]
            cases n.emission.declared? <;> rfl
          · intro e st' h hp
            refine .inl ((h.2 hp.1).resolve_right fun hnests => ?_)
            have hc : n.emission.isCached = true := by
              obtain ⟨inner, hinner⟩ := hnests
              rw [hinner]
              rfl
            exact absurd hnests (hplain hp.2 hc).2
      | const v =>
          refine operation_typedAs (hcached (by simp)) fun _ => ?_
          exact Ends.pure (inPlaceType_const ctx hi)
      | unary op x =>
          refine operation_typedAs (hcached (by simp)) fun hem => ?_
          have hbelow : s.CachesPlainly ctx id → s.CachesPlainly ctx x :=
            fun h other m shape hm => h other m shape (.operand hi hem hm)
          rw [hs.inPlaceType_unary ctx hi]
          refine (ih (hd x (child_of_unary hi)) st).bind (fun hp => ⟨hp.1, hbelow hp.2⟩) ?_
          intro f st₁ _ _
          exact typed_typedAs fun ty => op.code ty f
      | binary op l r =>
          refine operation_typedAs (hcached (by simp)) fun hem => ?_
          obtain ⟨hcl, hcr⟩ := child_of_binary hi
          have hleft : s.CachesPlainly ctx id → s.CachesPlainly ctx l :=
            fun h other m shape hm => h other m shape (.left hi hem hm)
          rw [hs.inPlaceType_binary ctx hi]
          refine (ih (hd l hcl) st).bind (fun hp => ⟨hp.1, hleft hp.2⟩) ?_
          intro f st₁ hf hrun
          have hsteps := (s.renderWithin_proceeds ctx depth l st).of_ok hrun
          have hright : s.CachesPlainly ctx id → s.CachesPlainly ctx r :=
            fun h other m shape hm => h other m shape (.right hi hem hf hm)
          refine (ih (hd r hcr) st₁).bind (fun hp => ⟨hsteps.drawn hp.1, hright hp.2⟩) ?_
          intro g st₂ _ _
          exact typed_typedAs fun ty => op.code ty f g

end Store

namespace RenderM

end RenderM

/-- A fragment has the type of its node, whatever the emissions of the nodes and whatever was
rendered before. If rendering comes to no cached operation and no cache inside a cache and does not
run out of numbers, it fails exactly where the node has no type, with the error of typing. -/
theorem nodeType_agrees_render {s : Store} (hs : s.Acyclic) (ctx : Context) (id : NodeId)
    {st : RenderState} (hst : st.InUse) :
    (∀ f st', s.render ctx id st = .ok f st' → s.nodeType ctx id = .ok f.ty) ∧
      (s.CachesPlainly ctx id → ¬ RenderM.RunsOut (s.render ctx id) st → ∀ e,
        (∃ st', s.render ctx id st = .error e st') ↔ s.nodeType ctx id = .error e) := by
  have htyped : RenderM.TypedAs (s.render ctx id) st (s.nodeType ctx id)
      (st.locals.Drawn ∧ s.CachesPlainly ctx id) :=
    hs.renderWithin_typedAs s.depth (hs.shallow id) st
  refine ⟨fun f st' hr => htyped.of_ok hr, fun hplain hnumbers e => ?_⟩
  cases hr : s.render ctx id st with
  | ok f st' =>
      rw [htyped.of_ok hr]
      simp
  | error e' st' =>
      have hout : ¬ st'.Exhausted e' := by
        intro hout
        refine hnumbers ?_
        unfold RenderM.RunsOut Ends
        rw [hr]
        exact hout
      rw [(htyped.of_error hr ⟨hst.drawn, hplain⟩).resolve_left hout]
      simp

/-- `x - "a"`, in which `x` is a cached read of a field. -/
def heldDifference : Store :=
  ⟨#[.binary .sub ⟨1⟩ ⟨2⟩, { Node.var "x" with emission := .cached (.hoisted (.int 7) .int) },
    .const (.text "a")]⟩

/-- The state after `x` was rendered alone. -/
def heldDifferenceBefore : RenderState :=
  { counter := ⟨1⟩
    fields := { stem := "F", entries := #[⟨"F0", .int 7, .int⟩] }
    locals :=
      { stem := "v"
        names := ⟨1⟩
        table := ⟨[("x", 0)], #[⟨"x", "v0", ⟨.field "F0", .int⟩⟩]⟩
        inStep := by decide } }

theorem heldDifference_acyclic : heldDifference.Acyclic :=
  Store.acyclic_of_rank (fun id => 3 - id.index) (by decide)

theorem heldDifferenceBefore_inUse : heldDifferenceBefore.InUse := by
  have hleaves : RenderM.Leaves (heldDifference.render Bindings.empty.context ⟨1⟩)
      ⟨{}, { stem := "F" }, { stem := "v" }⟩ heldDifferenceBefore := by
    with_unfolding_all rfl
  exact .rendered (.empty {} "F" "v" {}) hleaves

/-- The local of `x` is found and has the type of the field it was read from, so that a text cannot
be taken from it. -/
theorem nodeType_agrees_render_heldDifference :
    heldDifference.nodeType Bindings.empty.context ⟨1⟩ = .ok .int ∧
      ∃ st', heldDifference.render Bindings.empty.context ⟨0⟩ heldDifferenceBefore =
        .error (.malformed .render ⟨0⟩ "-" (.untypedBinary .sub .int .text)) st' := by
  have hplain : heldDifference.CachesPlainly Bindings.empty.context ⟨0⟩ :=
    Store.cachesPlainly_of_all (by decide) _ _
  have hfound : heldDifference.render Bindings.empty.context ⟨1⟩ heldDifferenceBefore =
      .ok ⟨.localVar "v0", .int⟩ heldDifferenceBefore := by
    with_unfolding_all rfl
  have huntyped : heldDifference.nodeType Bindings.empty.context ⟨0⟩ =
      .error (.malformed .render ⟨0⟩ "-" (.untypedBinary .sub .int .text)) := by
    with_unfolding_all rfl
  have hnumbers : ¬ RenderM.RunsOut (heldDifference.render Bindings.empty.context ⟨0⟩)
      heldDifferenceBefore := by
    have hfails : heldDifference.render Bindings.empty.context ⟨0⟩ heldDifferenceBefore =
        .error (.malformed .render ⟨0⟩ "-" (.untypedBinary .sub .int .text))
          heldDifferenceBefore := by
      with_unfolding_all rfl
    intro hout
    unfold RenderM.RunsOut Ends at hout
    rw [hfails] at hout
    cases hout
  have hagrees := fun id =>
    nodeType_agrees_render heldDifference_acyclic Bindings.empty.context id
      heldDifferenceBefore_inUse
  exact ⟨(hagrees ⟨1⟩).1 _ _ hfound, ((hagrees ⟨0⟩).2 hplain hnumbers _).mpr huntyped⟩

end FormulaCompiler
