import FormulaCompiler.Proofs.Pass.Preservation

/-!
# What optimising leaves for rendering

A formula whose nodes all enter code in place comes out of the pipeline with few emissions: a
constant may be kept in a field under its own value and type, a variable may be cached in place, and
nothing else changes. No other emission is considered by what renders a prepared formula.
-/

namespace FormulaCompiler

/-- The emission is one that optimising gives a node of this kind. -/
def Emission.Suits : Emission → Kind → Prop
  | .inPlace, _ => True
  | .hoisted v ty, kind => kind = .const v ∧ ty = v.ty
  | .cached inner, kind => inner = .inPlace ∧ kind = .var

/-- An operator only enters code in place. -/
theorem Emission.Suits.inPlace_unary {e : Emission} {op : UnaryOp} (h : e.Suits (.unary op)) :
    e = .inPlace := by
  cases e with
  | inPlace => rfl
  | hoisted v ty => cases h.1
  | cached inner => cases h.2

theorem Emission.Suits.inPlace_binary {e : Emission} {op : BinaryOp} (h : e.Suits (.binary op)) :
    e = .inPlace := by
  cases e with
  | inPlace => rfl
  | hoisted v ty => cases h.1
  | cached inner => cases h.2

namespace Store

/-- Every node of the formula has an emission that suits it. -/
def PreparedFrom (s : Store) (root : NodeId) : Prop :=
  ∀ id n, s.Reaches root id → s.get? id = some n → n.emission.Suits n.kind

theorem PreparedFrom.below {s : Store} {id child : NodeId} (h : s.PreparedFrom id)
    (hc : s.Child id child) : s.PreparedFrom child :=
  fun other n hr => h other n (hr.below hc)

theorem PreparedFrom.suits {s : Store} {id : NodeId} {n : Node} {shape : Shape}
    (h : s.PreparedFrom id) (hi : s.inspect id = .ok (n, shape)) :
    n.emission.Suits shape.kind := by
  rw [← kind_of_inspect hi]
  exact h id n (Reaches.refl s id) ((s.inspect_eq_ok_iff id n shape).mp hi).1

/-- What a node was before a change: as it is now, or of another emission, or anything before it
became a constant. -/
theorem Rewrite.get?_cases {caching : Bool} {s t : Store} (h : Rewrite caching s t) {id : NodeId}
    {n : Node} (hn : t.get? id = some n) :
    s.get? id = some n ∨ (∃ v, n.kind = .const v ∧ n.emission = .ofConstant v) ∨
      ∃ e, e.isCached = false ∧ n.kind = .var ∧ n.emission = .cached e ∧
        s.get? id = some { n with emission := e } := by
  cases h with
  | @freeze _ _ changed _ v _ _ =>
      rw [get?_freeze] at hn
      split at hn
      · obtain ⟨m, _, rfl⟩ := Option.map_eq_some_iff.mp hn
        exact .inr (.inl ⟨v, rfl, rfl⟩)
      · exact .inl hn
  | @hoist _ _ changed m v hm hk =>
      rw [get?_setEmission] at hn
      split at hn
      · rename_i he
        subst he
        rw [hm] at hn
        cases hn
        exact .inr (.inl ⟨v, hk, rfl⟩)
      · exact .inl hn
  | @cache _ changed m hm hk he =>
      rw [get?_setEmission] at hn
      split at hn
      · rename_i hid
        subst hid
        rw [hm] at hn
        cases hn
        exact .inr (.inr ⟨m.emission, he, hk, rfl, hm⟩)
      · exact .inl hn

theorem Rewrite.suits {caching : Bool} {s t : Store} (h : Rewrite caching s t) {id : NodeId}
    (hs : ∀ n, s.get? id = some n → n.emission.Suits n.kind) :
    ∀ n, t.get? id = some n → n.emission.Suits n.kind := by
  intro n hn
  rcases h.get?_cases hn with hn | ⟨v, hk, he⟩ | ⟨e, hc, hk, he, hn⟩
  · exact hs n hn
  · rw [hk, he]
    exact ⟨rfl, rfl⟩
  · have hsuit := hs _ hn
    rw [hk, he]
    cases e with
    | inPlace => exact ⟨rfl, rfl⟩
    | hoisted v ty =>
        -- A variable holds no constant, so it was not in a field.
        have hkind : n.kind = .const v := hsuit.1
        rw [hk] at hkind
        cases hkind
    | cached inner => cases hc

/-- A variable was there before, under the same name. -/
theorem Rewrite.mentions {caching : Bool} {s t : Store} (h : Rewrite caching s t) {root : NodeId}
    {name : String} (hm : t.Mentions root name) : s.Mentions root name := by
  obtain ⟨id, n, hr, hn, hk, hl⟩ := hm
  have hr' : s.Reaches root id := (Rewrites.one h).reaches hr
  rcases h.get?_cases hn with hn | ⟨v, hc, _⟩ | ⟨e, _, _, _, hn⟩
  · exact ⟨id, n, hr', hn, hk, hl⟩
  · rw [hk] at hc
    cases hc
  · exact ⟨id, _, hr', hn, hk, hl⟩

theorem Rewrites.mentions {caching : Bool} {s t : Store} (h : Rewrites caching s t) {root : NodeId}
    {name : String} (hm : t.Mentions root name) : s.Mentions root name :=
  h.keeps (P := fun a => a.Mentions root name → s.Mentions root name)
    (fun hab ha hb => ha (hab.mentions hb)) (fun hs => hs) hm

theorem Rewrites.prepared {caching : Bool} {s t : Store} (h : Rewrites caching s t) {root : NodeId}
    (hp : s.PlainFrom root) : t.PreparedFrom root := by
  intro id n hr hn
  have hs : ∀ n, s.get? id = some n → n.emission.Suits n.kind := by
    intro n hn
    rw [hp id n (h.reaches hr) hn]
    trivial
  exact h.keeps (P := fun a => ∀ n, a.get? id = some n → n.emission.Suits n.kind)
    (fun hab ha => hab.suits ha) hs n hn

end Store

namespace Pipeline

open Store (Rewrites)

theorem runAll_ends {passes : List Pass} (hb : ∀ p ∈ passes, p ∈ Pipeline.default.passes)
    (ctx : Context) (t : Tree) (ht : t.store.Acyclic) :
    Ends (runAll ctx passes) t (fun _ u => Rewrites true t.store u.store ∧ u.root = t.root)
      (fun _ u => Rewrites true t.store u.store ∧ u.root = t.root) := by
  induction passes generalizing t with
  | nil => exact Ends.pure ⟨Rewrites.refl _, rfl⟩
  | cons p rest ih =>
      have hp := hb p List.mem_cons_self
      refine (Pass.runOn_ends hp ctx t ht).bind ?_
      rintro o u ⟨hu, hroot⟩
      have hrest := ih (fun q hq => hb q (List.mem_cons_of_mem _ hq)) u (hu.acyclic ht)
      exact hrest.mono (fun _ w hw => ⟨hu.trans hw.1, hw.2.trans hroot⟩)
        fun _ w hw => ⟨hu.trans hw.1, hw.2.trans hroot⟩

/-- The default passes, whichever of them are disabled, rewrite the store and keep the root. -/
theorem run_ok {disabled : List String} {ctx : Context} {t t' : Tree} (ht : t.store.Acyclic)
    (h : run { Pipeline.default with disabled } ctx t = .ok ⟨⟩ t') :
    Rewrites true t.store t'.store ∧ t'.root = t.root :=
  (runAll_ends (fun _ hp => (List.mem_filter.mp hp).1) ctx t ht).of_ok h

end Pipeline
end FormulaCompiler
