import FormulaCompiler.Proofs.Pass.Normal
import Mathlib.Data.Finset.Card

/-!
# Which nodes folding freezes

Folding freezes the operators of the formula that have a value of their own, and no other node. A
node that is met again, through another operand, is a constant by then, so that it is counted once.
What is proved about one walk is relative to the store that the walk starts in; two walks in a row
are put together by following which paths the first one has cut. What a fold that fails has frozen
is not said here.
-/

namespace FormulaCompiler

open Store (Rewrites)

/-- Whether nodes of this kind compute something from their children. -/
def Kind.isOperator : Kind → Bool
  | .unary _ | .binary _ => true
  | .const _ | .var => false

/-- The constant that a node becomes: a field holds the value under its own type, and only the label
is as it was. -/
def Node.frozen (n : Node) (v : Value) : Node := ⟨n.label, .const v, [], .hoisted v v.ty⟩

namespace Store

/-- The node is an operator, with any number of children. -/
def OperatorAt (s : Store) (id : NodeId) : Prop :=
  ∃ n, s.get? id = some n ∧ n.kind.isOperator = true

/-- An operator of the formula that mentions no variable and has this value. -/
def FoldsTo (s : Store) (ctx : Context) (root id : NodeId) (v : Value) : Prop :=
  s.Reaches root id ∧ s.OperatorAt id ∧ (∀ name, ¬ s.Mentions id name) ∧ s.eval ctx id = .ok v

/-- An operator of the formula with a value of its own. -/
def Foldable (s : Store) (root id : NodeId) : Prop :=
  s.Reaches root id ∧ s.OperatorAt id ∧ s.Fixed id

/-- In the second store exactly these operators are frozen, each under the value it had whatever the
context, and every other node is as it was. -/
structure Freezes (ids : Finset NodeId) (s t : Store) : Prop where
  frozen : ∀ id ∈ ids, ∃ n v, s.get? id = some n ∧ n.kind.isOperator = true ∧
    (∀ ctx, s.eval ctx id = .ok v) ∧ t.get? id = some (n.frozen v)
  same : ∀ id, id ∉ ids → t.get? id = s.get? id

variable {s t u : Store} {root id : NodeId}

theorem operatorAt_iff {n : Node} {shape : Shape} (hi : s.inspect id = .ok (n, shape)) :
    s.OperatorAt id ↔ shape.kind.isOperator = true := by
  have hn := ((s.inspect_eq_ok_iff id n shape).mp hi).1
  rw [← kind_of_inspect hi]
  simp [OperatorAt, hn]

theorem Acyclic.foldable_iff (hs : s.Acyclic) (ctx : Context) :
    s.Foldable root id ↔ ∃ v, s.FoldsTo ctx root id v := by
  simp only [Foldable, FoldsTo, hs.fixed_iff_closed ctx, exists_and_left]

theorem foldable_of_children {n : Node} {shape : Shape} (hi : s.inspect id = .ok (n, shape))
    (other : NodeId) :
    s.Foldable id other ↔ (other = id ∧ s.OperatorAt id ∧ s.Fixed id) ∨
      ∃ child ∈ shape.children, s.Foldable child other := by
  constructor
  · intro h
    obtain ⟨hr, hop, hfixed⟩ := h
    rcases Relation.ReflTransGen.cases_head hr with rfl | ⟨child, hc, hrest⟩
    · exact .inl ⟨rfl, hop, hfixed⟩
    · exact .inr ⟨child, (child_iff hi child).mp hc, hrest, hop, hfixed⟩
  · intro h
    rcases h with ⟨rfl, hop, hfixed⟩ | ⟨child, hchild, hr, hop, hfixed⟩
    · exact ⟨Reaches.refl s _, hop, hfixed⟩
    · exact ⟨hr.below ((child_iff hi child).mpr hchild), hop, hfixed⟩

/-- A node is not below its own operands. -/
theorem Acyclic.not_foldable_child (hs : s.Acyclic) {child : NodeId} (hc : s.Child id child) :
    ¬ s.Foldable child id := by
  intro h
  exact hs id (Relation.TransGen.head' hc h.1)

namespace Freezes

variable {ids a b : Finset NodeId}

theorem refl (s : Store) : Freezes ∅ s s := ⟨by simp, fun _ _ => rfl⟩

theorem one {n : Node} {v : Value} (hn : s.get? id = some n) (hop : n.kind.isOperator = true)
    (hv : ∀ ctx, s.eval ctx id = .ok v) : Freezes {id} s (s.freeze id v) := by
  constructor
  · intro other hother
    obtain rfl := Finset.mem_singleton.mp hother
    refine ⟨n, v, hn, hop, hv, ?_⟩
    rw [get?_freeze, if_pos rfl, hn]
    rfl
  · intro other hother
    rw [Finset.mem_singleton] at hother
    rw [get?_freeze, if_neg (Ne.symm hother)]

theorem operatorAt_iff (h : Freezes ids s t) : t.OperatorAt id ↔ s.OperatorAt id ∧ id ∉ ids := by
  by_cases hid : id ∈ ids
  · obtain ⟨n, v, -, -, -, hget⟩ := h.frozen id hid
    simp [OperatorAt, hget, hid, Node.frozen, Kind.isOperator]
  · simp [OperatorAt, h.same id hid, hid]

/-- What is frozen is no operator any more, so that it is not frozen again. -/
theorem disjoint (h : Freezes a s t) (h' : Freezes b t u) : Disjoint a b := by
  rw [Finset.disjoint_right]
  intro id hb
  obtain ⟨n, -, hn, hop, -⟩ := h'.frozen id hb
  exact (h.operatorAt_iff.mp ⟨n, hn, hop⟩).2

theorem trans (h : Freezes a s t) (h' : Freezes b t u)
    (heval : ∀ ctx id, t.eval ctx id = s.eval ctx id) : Freezes (a ∪ b) s u := by
  have hdisjoint := h.disjoint h'
  constructor
  · intro id hid
    rcases Finset.mem_union.mp hid with ha | hb
    · obtain ⟨n, v, hn, hop, hv, hget⟩ := h.frozen id ha
      refine ⟨n, v, hn, hop, hv, ?_⟩
      rw [h'.same id (Finset.disjoint_left.mp hdisjoint ha), hget]
    · obtain ⟨n, v, hn, hop, hv, hget⟩ := h'.frozen id hb
      rw [h.same id (Finset.disjoint_right.mp hdisjoint hb)] at hn
      refine ⟨n, v, hn, hop, fun ctx => ?_, hget⟩
      rw [← heval, hv]
  · intro id hid
    obtain ⟨ha, hb⟩ := Finset.notMem_union.mp hid
    rw [h'.same id hb, h.same id ha]

/-- A path is still there unless it goes through a frozen node. -/
theorem reaches_or (h : Freezes ids s t) (hr : s.Reaches root id) :
    t.Reaches root id ∨ ∃ cut ∈ ids, s.Reaches cut id := by
  induction hr with
  | refl => exact .inl (Reaches.refl t root)
  | @tail parent child _ hc ih =>
      rcases ih with htr | ⟨cut, hcut, hr⟩
      · by_cases hparent : parent ∈ ids
        · exact .inr ⟨parent, hparent, Relation.ReflTransGen.single hc⟩
        · obtain ⟨n, hn, hmem⟩ := hc
          rw [← h.same parent hparent] at hn
          exact .inl (htr.tail ⟨n, hn, hmem⟩)
      · exact .inr ⟨cut, hcut, hr.tail hc⟩

end Freezes
end Store

namespace Folding

open Store (Freezes)

/-- From the first state to the second, exactly the operators with a value of their own below these
roots are frozen, and each of them is counted once. -/
def FoldsBelow (roots : List NodeId) (st t : State) : Prop :=
  ∃ ids, Freezes ids st.store t.store ∧
    (∀ id, id ∈ ids ↔ ∃ root ∈ roots, st.store.Foldable root id) ∧
    t.folded = st.folded + ids.card

namespace FoldsBelow

variable {roots later : List NodeId} {id : NodeId} {n : Node} {shape : Shape} {st t u : State}

theorem nil (st : State) : FoldsBelow [] st st := ⟨∅, Freezes.refl st.store, by simp, by simp⟩

/-- The second walk sees fewer paths and fewer operators than the first, and those that it misses
are below a node that the first has frozen, where the first has been. -/
theorem append (h : FoldsBelow roots st t) (h' : FoldsBelow later t u) (hs : st.store.Acyclic)
    (hst : Rewrites false st.store t.store) : FoldsBelow (roots ++ later) st u := by
  obtain ⟨a, hfreeze, ha, hcount⟩ := h
  obtain ⟨b, hfreeze', hb, hcount'⟩ := h'
  refine ⟨a ∪ b, hfreeze.trans hfreeze' (hst.eval_eq hs), fun id => ?_, ?_⟩
  · have hmem : (∃ root ∈ roots ++ later, st.store.Foldable root id) ↔
        (∃ root ∈ roots, st.store.Foldable root id) ∨
          ∃ root ∈ later, st.store.Foldable root id := by
      simp only [List.mem_append, or_and_right, exists_or]
    rw [hmem, Finset.mem_union, ha, hb]
    constructor
    · intro h
      rcases h with hroots | ⟨root, hroot, hr, hop, hfixed⟩
      · exact .inl hroots
      · exact .inr ⟨root, hroot, hst.reaches hr, (hfreeze.operatorAt_iff.mp hop).1,
          (hst.fixed_iff hs).mp hfixed⟩
    · intro h
      rcases h with hroots | ⟨root, hroot, hr, hop, hfixed⟩
      · exact .inl hroots
      · by_cases hid : id ∈ a
        · exact .inl ((ha id).mp hid)
        · rcases hfreeze.reaches_or hr with htr | ⟨cut, hcut, hbelow⟩
          · exact .inr ⟨root, hroot, htr, hfreeze.operatorAt_iff.mpr ⟨hop, hid⟩,
              (hst.fixed_iff hs).mpr hfixed⟩
          · obtain ⟨root', hroot', hr', -⟩ := (ha cut).mp hcut
            exact .inl ⟨root', hroot', hr'.trans hbelow, hop, hfixed⟩
  · rw [hcount', hcount, Finset.card_union_of_disjoint (hfreeze.disjoint hfreeze')]
    omega

/-- A node that is left alone because it is no operator or has no value of its own. -/
theorem leave (hi : st.store.inspect id = .ok (n, shape)) (h : FoldsBelow shape.children st t)
    (hidle : shape.kind.isOperator = true → ¬ st.store.Fixed id) : FoldsBelow [id] st t := by
  obtain ⟨ids, hfreeze, hids, hcount⟩ := h
  refine ⟨ids, hfreeze, fun other => ?_, hcount⟩
  have hself : ¬ (other = id ∧ st.store.OperatorAt id ∧ st.store.Fixed id) := by
    intro h
    exact hidle ((Store.operatorAt_iff hi).mp h.2.1) h.2.2
  simp only [hids, List.mem_singleton, exists_eq_left, Store.foldable_of_children hi, hself,
    false_or]

/-- An operator that is frozen after its operands were folded. It is as it was until then, since no
path leads from its operands back to it. -/
theorem freeze (h : FoldsBelow shape.children st t) (hs : st.store.Acyclic)
    (hst : Rewrites false st.store t.store) (hi : st.store.inspect id = .ok (n, shape))
    (hop : shape.kind.isOperator = true) {v : Value} (hv : ∀ ctx, st.store.eval ctx id = .ok v) :
    FoldsBelow [id] st ⟨t.store.freeze id v, t.folded + 1⟩ := by
  obtain ⟨ids, hfreeze, hids, hcount⟩ := h
  have hnew : id ∉ ids := by
    intro hid
    obtain ⟨child, hchild, hfold⟩ := (hids id).mp hid
    exact hs.not_foldable_child ((Store.child_iff hi child).mpr hchild) hfold
  have hget : t.store.get? id = some n :=
    (hfreeze.same id hnew).trans ((st.store.inspect_eq_ok_iff id n shape).mp hi).1
  have hone : Freezes {id} t.store (t.store.freeze id v) :=
    Freezes.one hget (Store.kind_of_inspect hi ▸ hop)
      fun ctx => (hst.eval_eq hs ctx id).trans (hv ctx)
  refine ⟨ids ∪ {id}, hfreeze.trans hone (hst.eval_eq hs), fun other => ?_, ?_⟩
  · have hself : other = id ↔ other = id ∧ st.store.OperatorAt id ∧ st.store.Fixed id :=
      ⟨fun h => ⟨h, (Store.operatorAt_iff hi).mpr hop, v, hv⟩, And.left⟩
    rw [Finset.mem_union, Finset.mem_singleton, hids, or_comm]
    simp only [List.mem_singleton, exists_eq_left, Store.foldable_of_children hi, ← hself]
  · rw [Finset.card_union_of_disjoint (hfreeze.disjoint hone), Finset.card_singleton]
    show t.folded + 1 = st.folded + (ids.card + 1)
    omega

end FoldsBelow

/-- Settling an operator whose operands were folded exactly. -/
theorem settle_exact {ctx : Context} {id : NodeId} {n : Node} {shape : Shape} {st t : State}
    {constant : Bool} (hs : st.store.Acyclic) (hi : st.store.inspect id = .ok (n, shape))
    (hop : shape.kind.isOperator = true) (hst : Rewrites false st.store t.store)
    (hf : ∀ child ∈ shape.children, t.store.FoldedFrom child)
    (hc : constant = true ↔ ∀ child ∈ shape.children, st.store.Fixed child)
    (h : FoldsBelow shape.children st t) :
    Ends (settle ctx id constant) t (fun _ u => FoldsBelow [id] st u) (fun _ _ => True) := by
  have hvar : shape ≠ .var := by
    intro hshape
    rw [hshape] at hop
    cases hop
  unfold Ends
  rcases settle_cases hs hi hvar hst hf hc with ⟨v, hv, hrun⟩ | ⟨hfixed, hrun⟩
  · rw [hrun]
    exact h.freeze hs hst hi hop hv
  · rw [hrun]
    exact FoldsBelow.leave hi h fun _ => hfixed

/-- Folding below a node that succeeds. The induction is on the depth; each operand is folded in the
store that the one before it leaves. -/
theorem foldWithin_exact (ctx : Context) (depth : Nat) (id : NodeId) (st : State)
    (hs : st.store.Acyclic) (hd : st.store.Shallow depth id) :
    Ends (foldWithin ctx depth id) st (fun _ t => FoldsBelow [id] st t) (fun _ _ => True) := by
  induction depth generalizing id st with
  | zero => exact hd.elim
  | succ depth ih =>
      have walk : ∀ (child : NodeId) (st : State), st.store.Acyclic →
          st.store.Shallow depth child →
          Ends (foldWithin ctx depth child) st
            (fun answer t => Rewrites false st.store t.store ∧ t.store.FoldedFrom child ∧
              (answer = true ↔ st.store.Fixed child) ∧ FoldsBelow [child] st t)
            (fun _ _ => True) := by
        intro child st hs hd
        refine ((foldWithin_ends ctx depth child st hs).both
          ((foldWithin_folds ctx depth child st hs hd).both (ih child st hs hd))).mono ?_
          fun _ _ _ => trivial
        intro answer t h
        exact ⟨h.1.1, h.2.1.1, h.2.1.2.1, h.2.2⟩
      rcases hi : st.store.inspect id with m | ⟨n, shape⟩
      · exact Ends.of_eq (foldWithin_misfit hi) (Ends.throw trivial)
      · cases shape with
        | const v =>
            have hleaf :=
              FoldsBelow.leave hi (FoldsBelow.nil st) (by simp [Shape.kind, Kind.isOperator])
            exact Ends.of_eq (foldWithin_const hi) (Ends.pure hleaf)
        | var =>
            have hleaf :=
              FoldsBelow.leave hi (FoldsBelow.nil st) (by simp [Shape.kind, Kind.isOperator])
            exact Ends.of_eq (foldWithin_var hi) (Ends.pure hleaf)
        | unary op x =>
            have hcx := Store.child_of_unary hi
            refine Ends.of_eq (foldWithin_unary hi) ((walk x st hs (hd x hcx)).bind ?_)
            intro constant t h
            obtain ⟨hst, hfold, hanswer, hx⟩ := h
            exact settle_exact hs hi rfl hst (by simpa [Shape.children] using hfold)
              (by simpa [Shape.children] using hanswer) hx
        | binary op l r =>
            obtain ⟨hcl, hcr⟩ := Store.child_of_binary hi
            refine Ends.of_eq (foldWithin_binary hi) ((walk l st hs (hd l hcl)).bind ?_)
            intro lconst t h
            obtain ⟨hst, hlfold, hlanswer, hl⟩ := h
            have ht := hst.acyclic hs
            refine (walk r t ht (hst.shallow (hd r hcr))).bind ?_
            intro rconst u h
            obtain ⟨htu, hrfold, hranswer, hr⟩ := h
            rw [hst.fixed_iff hs] at hranswer
            exact settle_exact hs hi rfl (hst.trans htu)
              (by simpa [Shape.children] using ⟨htu.foldedFrom ht hlfold, hrfold⟩)
              (by simp [Shape.children, hlanswer, hranswer]) (hl.append hr hs hst)

theorem run_folds {ctx : Context} {root : NodeId} {s t : Store} {o : Outcome} (hs : s.Acyclic)
    (h : run ctx root s = .ok o t) : FoldsBelow [root] ⟨s, 0⟩ ⟨t, o.changes⟩ := by
  have hexact := foldWithin_exact ctx s.depth root ⟨s, 0⟩ hs (hs.shallow root)
  cases hf : foldWithin ctx s.depth root ⟨s, 0⟩ with
  | ok answer st =>
      simp only [run, hf] at h
      cases h
      exact hexact.of_ok hf
  | error e st =>
      simp only [run, hf] at h
      cases h

end Folding

/-- Folding that succeeds turns every operator of the formula that mentions no variable and has a
value into a constant in a field, under that value and its old label. Every other node of the store
is as it was, there are as many nodes as before, and each node that was folded is counted once. -/
theorem folding_exact {s t : Store} (hs : s.Acyclic) {ctx : Context} {root : NodeId} {o : Outcome}
    (h : Pass.folding.run ctx root s = .ok o t) :
    (∀ id n, s.get? id = some n →
      (∀ v, s.FoldsTo ctx root id v →
        t.get? id = some ⟨n.label, .const v, [], .hoisted v v.ty⟩) ∧
      ((∀ v, ¬ s.FoldsTo ctx root id v) → t.get? id = some n)) ∧
    t.size = s.size ∧
    ∃ folded : Finset NodeId, (∀ id, id ∈ folded ↔ ∃ v, s.FoldsTo ctx root id v) ∧
      o.changes = folded.card := by
  obtain ⟨ids, hfreeze, hids, hcount⟩ := Folding.run_folds hs h
  have hmem : ∀ id, id ∈ ids ↔ ∃ v, s.FoldsTo ctx root id v := by
    intro id
    simpa [hs.foldable_iff ctx] using hids id
  refine ⟨fun id n hn => ⟨fun v hv => ?_, fun hnone => ?_⟩, ?_, ids, hmem, by simpa using hcount⟩
  · obtain ⟨n', w, hn', -, hw, hget⟩ := hfreeze.frozen id ((hmem id).mpr ⟨v, hv⟩)
    obtain rfl : n = n' := Option.some.inj (hn.symm.trans hn')
    obtain rfl : w = v := Except.ok.inj ((hw ctx).symm.trans hv.2.2.2)
    exact hget
  · have hid : id ∉ ids := fun hid => ((hmem id).mp hid).elim hnone
    exact (hfreeze.same id hid).trans hn
  · exact ((Folding.run_ends ctx root s hs).of_ok h).size_eq

/-- `(-3) * (-3) + (x + (-3) * (-3) / 0)`, its square and the factor of it shared, behind a negation
that no one mentions. -/
def sharedSquare : Store :=
  ⟨#[.unary .neg ⟨7⟩, .binary .add ⟨4⟩ ⟨2⟩, .binary .add ⟨5⟩ ⟨3⟩, .binary .div ⟨4⟩ ⟨8⟩,
    .binary .mul ⟨6⟩ ⟨6⟩, .var "x", .unary .neg ⟨7⟩, .const (.int 3), .const (.int 0)]⟩

/-- The square and its factor are folded, and counted once each. The quotient has no value, and the
first negation is no part of the formula. -/
theorem folding_exact_sharedSquare :
    let ctx := Bindings.empty.context
    let folded : Store :=
      ⟨#[.unary .neg ⟨7⟩, .binary .add ⟨4⟩ ⟨2⟩, .binary .add ⟨5⟩ ⟨3⟩, .binary .div ⟨4⟩ ⟨8⟩,
        ⟨"*", .const (.int 9), [], .hoisted (.int 9) .int⟩, .var "x",
        ⟨"-", .const (.int (-3)), [], .hoisted (.int (-3)) .int⟩, .const (.int 3),
        .const (.int 0)]⟩
    Pass.folding.run ctx ⟨1⟩ sharedSquare = .ok ⟨⟨1⟩, 2⟩ folded ∧
    sharedSquare.FoldsTo ctx ⟨1⟩ ⟨4⟩ (.int 9) ∧
    folded.get? ⟨4⟩ = some ⟨"*", .const (.int 9), [], .hoisted (.int 9) .int⟩ ∧
    folded.size = sharedSquare.size ∧
    ∃ ids : Finset NodeId, (∀ id, id ∈ ids ↔ ∃ v, sharedSquare.FoldsTo ctx ⟨1⟩ id v) ∧
      2 = ids.card := by
  intro ctx folded
  have hacyclic : sharedSquare.Acyclic :=
    Store.acyclic_of_rank (fun id => 9 - id.index) (by decide)
  have hrun : Pass.folding.run ctx ⟨1⟩ sharedSquare = .ok ⟨⟨1⟩, 2⟩ folded := by
    with_unfolding_all rfl
  have hvalue : sharedSquare.eval ctx ⟨4⟩ = .ok (.int 9) := by with_unfolding_all rfl
  have hclosed := ((hacyclic.fixed_iff_closed ctx).mp (hacyclic.fixed_of_unbound hvalue)).1
  have hsquare : sharedSquare.FoldsTo ctx ⟨1⟩ ⟨4⟩ (.int 9) :=
    ⟨Relation.ReflTransGen.single ⟨_, rfl, by decide⟩, ⟨_, rfl, rfl⟩, hclosed, hvalue⟩
  obtain ⟨hnodes, hrest⟩ := folding_exact hacyclic hrun
  exact ⟨hrun, hsquare, (hnodes ⟨4⟩ _ rfl).1 _ hsquare, hrest⟩

end FormulaCompiler
