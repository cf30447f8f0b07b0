import FormulaCompiler.Proofs.Tree.Evaluation

/-!
# Rewriting a store in place

Optimising changes a store node by node. `Rewrite` lists the changes there are, each with what
makes it sound: a node is frozen only when every context gives it that value, a constant is hoisted
under its own value, and only a variable becomes a cached read. Everything that a whole run keeps is
proved for one change first. The relation says nothing about which changes a pass makes.
-/

namespace FormulaCompiler.Store

/-- One change to a store. A change to a cached read counts only where `caching` is on. -/
inductive Rewrite : Bool → Store → Store → Prop
  | freeze {caching : Bool} {s : Store} {id : NodeId} {n : Node} {v : Value}
      (hn : s.get? id = some n) (hv : ∀ ctx, s.eval ctx id = .ok v) :
      Rewrite caching s (s.freeze id v)
  | hoist {caching : Bool} {s : Store} {id : NodeId} {n : Node} {v : Value}
      (hn : s.get? id = some n) (hk : n.kind = .const v) :
      Rewrite caching s (s.setEmission id (.ofConstant v))
  | cache {s : Store} {id : NodeId} {n : Node}
      (hn : s.get? id = some n) (hk : n.kind = .var) (he : n.emission.isCached = false) :
      Rewrite true s (s.setEmission id (.cached n.emission))

/-- Any number of changes, one after the other. -/
def Rewrites (caching : Bool) : Store → Store → Prop := Relation.ReflTransGen (Rewrite caching)

/-- The node is a constant, and has no children as a constant should. -/
def IsConstant (s : Store) (id : NodeId) : Prop := ∃ n v, s.inspect id = .ok (n, .const v)

theorem get?_setEmission (s : Store) (id other : NodeId) (e : Emission) :
    (s.setEmission id e).get? other =
      if id = other then (s.get? other).map fun n => { n with emission := e }
      else s.get? other :=
  s.get?_modify id other _

theorem get?_freeze (s : Store) (id other : NodeId) (v : Value) :
    (s.freeze id v).get? other =
      if id = other then (s.get? other).map fun n =>
        { n with kind := .const v, children := [], emission := .ofConstant v }
      else s.get? other :=
  s.get?_modify id other _

theorem view_setEmission (s : Store) (id other : NodeId) (e : Emission) :
    (s.setEmission id e).view other = s.view other := by
  by_cases h : id = other
  · have hg := s.get?_setEmission id other e
    rw [if_pos h] at hg
    cases hn : s.get? other with
    | none => simp [view, inspect, hg, hn]
    | some n =>
        have hs : ({ n with emission := e } : Node).shape? = n.shape? := rfl
        simp only [view, inspect, hg, hn, Option.map_some, hs]
        cases n.shape? <;> rfl
  · exact view_eq_of_get? (by rw [s.get?_setEmission, if_neg h])

theorem child_of_setEmission {s : Store} {id parent child : NodeId} {e : Emission}
    (hc : (s.setEmission id e).Child parent child) : s.Child parent child := by
  obtain ⟨n', hn', hmem⟩ := hc
  rw [get?_setEmission] at hn'
  split at hn'
  · obtain ⟨n, hn, rfl⟩ := Option.map_eq_some_iff.mp hn'
    exact ⟨n, hn, hmem⟩
  · exact ⟨n', hn', hmem⟩

theorem inspect_freeze_self {s : Store} {id : NodeId} {n : Node} (hn : s.get? id = some n)
    (v : Value) : ∃ n', (s.freeze id v).inspect id = .ok (n', .const v) := by
  refine ⟨{ n with kind := .const v, children := [], emission := .ofConstant v }, ?_⟩
  rw [inspect_eq_ok_iff, get?_freeze, if_pos rfl, hn]
  exact ⟨rfl, rfl⟩

theorem view_freeze_of_ne (s : Store) {id other : NodeId} (h : id ≠ other) (v : Value) :
    (s.freeze id v).view other = s.view other :=
  view_eq_of_get? (by rw [s.get?_freeze, if_neg h])

namespace Rewrite

variable {caching : Bool} {s t : Store}

/-- After a change a node looks as before, or is a constant with the value it had. -/
theorem view_or (h : Rewrite caching s t) (id : NodeId) :
    t.view id = s.view id ∨
      ∃ n v, t.inspect id = .ok (n, .const v) ∧ ∀ ctx, s.eval ctx id = .ok v := by
  cases h with
  | @freeze _ _ changed n v hn hv =>
      by_cases hid : changed = id
      · subst hid
        obtain ⟨n', hn'⟩ := inspect_freeze_self hn v
        exact .inr ⟨n', v, hn', hv⟩
      · exact .inl (s.view_freeze_of_ne hid v)
  | hoist _ _ => exact .inl (s.view_setEmission _ id _)
  | cache _ _ _ => exact .inl (s.view_setEmission _ id _)

/-- A change adds no edge. -/
theorem child (h : Rewrite caching s t) {parent child : NodeId} (hc : t.Child parent child) :
    s.Child parent child := by
  cases h with
  | @freeze _ _ id _ v _ _ =>
      obtain ⟨n', hn', hmem⟩ := hc
      rw [get?_freeze] at hn'
      split at hn'
      · obtain ⟨n, _, rfl⟩ := Option.map_eq_some_iff.mp hn'
        cases hmem
      · exact ⟨n', hn', hmem⟩
  | hoist _ _ => exact child_of_setEmission hc
  | cache _ _ _ => exact child_of_setEmission hc

theorem acyclic (h : Rewrite caching s t) (hs : s.Acyclic) : t.Acyclic :=
  hs.mono fun _ _ hc => h.child hc

theorem eval_eq (h : Rewrite caching s t) (hs : s.Acyclic) (ctx : Context) (id : NodeId) :
    t.eval ctx id = s.eval ctx id :=
  hs.eval_eq (h.acyclic hs) h.view_or ctx id

theorem isConstant (h : Rewrite caching s t) {id : NodeId} (hc : s.IsConstant id) :
    t.IsConstant id := by
  rcases h.view_or id with hv | ⟨n, v, hn, _⟩
  · obtain ⟨n, v, hn⟩ := hc
    obtain ⟨n', hn', _⟩ := view_ok hv hn
    exact ⟨n', v, hn'⟩
  · exact ⟨n, v, hn⟩

end Rewrite

namespace Rewrites

variable {caching : Bool} {s t u : Store}

theorem refl (s : Store) : Rewrites caching s s := Relation.ReflTransGen.refl

theorem trans (h : Rewrites caching s t) (h' : Rewrites caching t u) : Rewrites caching s u :=
  Relation.ReflTransGen.trans h h'

theorem one (h : Rewrite caching s t) : Rewrites caching s t := Relation.ReflTransGen.single h

/-- What each change keeps, all of them together keep. -/
theorem keeps {P : Store → Prop} (h : Rewrites caching s t)
    (step : ∀ {a b}, Rewrite caching a b → P a → P b) (hs : P s) : P t := by
  induction h with
  | refl => exact hs
  | tail _ hstep ih => exact step hstep ih

/-- Changes that leave reads alone are among all changes. -/
theorem widen (h : Rewrites false s t) : Rewrites caching s t := by
  refine Relation.ReflTransGen.mono ?_ s t h
  intro a b hab
  cases hab with
  | freeze hn hv => exact .freeze hn hv
  | hoist hn hk => exact .hoist hn hk

theorem acyclic (h : Rewrites caching s t) (hs : s.Acyclic) : t.Acyclic :=
  h.keeps (fun hab ha => hab.acyclic ha) hs

theorem reaches (h : Rewrites caching s t) {root id : NodeId} (hr : t.Reaches root id) :
    s.Reaches root id :=
  h.keeps (P := fun a => a.Reaches root id → s.Reaches root id)
    (fun hab ha hb => ha (Relation.ReflTransGen.mono (fun _ _ hc => hab.child hc) _ _ hb))
    (fun hb => hb) hr

theorem isConstant (h : Rewrites caching s t) {id : NodeId} (hc : s.IsConstant id) :
    t.IsConstant id :=
  h.keeps (fun hab ha => hab.isConstant ha) hc

/-- Rewriting changes no value and no failure, at any node and under any context. -/
theorem eval_eq (h : Rewrites caching s t) (hs : s.Acyclic) (ctx : Context) (id : NodeId) :
    t.eval ctx id = s.eval ctx id :=
  (h.keeps (P := fun a => a.Acyclic ∧ a.eval ctx id = s.eval ctx id)
    (fun hab ha => ⟨hab.acyclic ha.1, (hab.eval_eq ha.1 ctx id).trans ha.2⟩) ⟨hs, rfl⟩).2

/-- A node keeps its shape unless it becomes a constant. -/
theorem inspect_or (h : Rewrites caching s t) {id : NodeId} {n : Node} {shape : Shape}
    (hi : s.inspect id = .ok (n, shape)) :
    (∃ n', t.inspect id = .ok (n', shape)) ∨ t.IsConstant id := by
  refine h.keeps (P := fun a => (∃ n', a.inspect id = .ok (n', shape)) ∨ a.IsConstant id)
    ?_ (.inl ⟨n, hi⟩)
  rintro a b hab (⟨n', hn'⟩ | hc)
  · rcases hab.view_or id with hv | ⟨m, v, hm, _⟩
    · obtain ⟨m, hm, _⟩ := view_ok hv hn'
      exact .inl ⟨m, hm⟩
    · exact .inr ⟨m, v, hm⟩
  · exact .inr (hab.isConstant hc)

end Rewrites
end FormulaCompiler.Store
