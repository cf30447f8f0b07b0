import FormulaCompiler.Proofs.Tree.Preorder

/-!
# Integer formulas are exact or refused

`Store.exact` computes a formula of integers without bounds, and `Store.refusal?` says from the
exact values of the operands why a node has no 64-bit result, if it has none. Evaluation gives the
exact value when no node refuses, and else the refusal that comes first in postorder, where each id
stands after its children and these from left to right. Formulas with floats, texts, comparisons or
quotients are not covered.
-/

namespace FormulaCompiler

/-- The integer has 64 bits. -/
def FitsInt64 (n : Int) : Prop := -9223372036854775808 ≤ n ∧ n ≤ 9223372036854775807

instance (n : Int) : Decidable (FitsInt64 n) := inferInstanceAs (Decidable (_ ∧ _))

theorem fitInt64?_of_fits {n : Int} (h : FitsInt64 n) :
    ∃ m, fitInt64? n = some m ∧ m.toInt = n := by
  have hsome : (fitInt64? n).isSome = true := (fitInt64?_isSome_iff n).mpr h
  obtain ⟨m, hm⟩ := Option.isSome_iff_exists.mp hsome
  exact ⟨m, hm, toInt_of_fitInt64? hm⟩

theorem fitInt64?_of_not_fits {n : Int} (h : ¬ FitsInt64 n) : fitInt64? n = none := by
  rw [← Option.not_isSome_iff_eq_none, fitInt64?_isSome_iff]
  exact h

/-- What an operation on integers comes to: its exact value, or the reason for having none. -/
def Settles (result : Except EvalError Value) (refusal? : Option OperatorError) (exact : Int) :
    Prop :=
  match refusal? with
  | none => ∃ n : Int64, result = .ok (.int n) ∧ n.toInt = exact
  | some cause => result = .error (.operator cause)

/-- An operation whose operand is refused is refused alike; otherwise it meets the operand's exact
value. -/
theorem Settles.bind {operand : Except EvalError Value} {below own : Option OperatorError}
    {a b : Int} {f : Value → Except EvalError Value} (h : Settles operand below a)
    (hf : ∀ n : Int64, n.toInt = a → Settles (f (.int n)) own b) :
    Settles (operand >>= f) (below.or own) b := by
  cases below with
  | none =>
      obtain ⟨n, hn, hexact⟩ := h
      rw [hn]
      exact hf n hexact
  | some cause =>
      have herror : operand = .error (.operator cause) := h
      rw [herror]
      rfl

theorem BinaryOp.exactInt_settles (symbol : String) (n : Int) :
    Settles ((exactInt symbol n).mapError .operator)
      (if FitsInt64 n then none else some (.overflow symbol)) n := by
  unfold exactInt
  by_cases hfit : FitsInt64 n
  · obtain ⟨m, hm, hexact⟩ := fitInt64?_of_fits hfit
    rw [if_pos hfit, hm]
    exact ⟨m, rfl, hexact⟩
  · rw [if_neg hfit, fitInt64?_of_not_fits hfit]
    rfl

namespace BinaryOp

/-- The operators that take two integers to an integer. -/
def isIntegral : BinaryOp → Bool
  | .add | .sub | .mul | .mod => true
  | _ => false

/-- The operator on integers without bounds. A remainder is that of the quotient cut off toward
zero, so that it has the sign of the dividend. -/
def unbounded : BinaryOp → Int → Int → Int
  | .add, a, b => a + b
  | .sub, a, b => a - b
  | .mul, a, b => a * b
  | .mod, a, b => a.tmod b
  | _, _, _ => 0

/-- Why an integral operator gives no 64-bit integer, if it gives none. -/
def refusal? (op : BinaryOp) (a b : Int) : Option OperatorError :=
  if op = .mod ∧ b = 0 then some .divisionByZero
  else if op = .mod ∧ a = -9223372036854775808 ∧ b = -1 then some (.overflow op.symbol)
  else if FitsInt64 (op.unbounded a b) then none
  else some (.overflow op.symbol)

/-- Only remainders have refusals of their own. -/
theorem refusal?_eq {op : BinaryOp} (h : op ≠ .mod) (a b : Int) :
    op.refusal? a b =
      if FitsInt64 (op.unbounded a b) then none else some (.overflow op.symbol) := by
  simp [refusal?, h]

theorem rest_settles (a b : Int64) :
    Settles ((rest (.int a) (.int b)).mapError .operator) (refusal? .mod a.toInt b.toInt)
      (a.toInt.tmod b.toInt) := by
  have hzero : b.toInt = 0 ↔ b = 0 := Int64.toInt_inj (y := 0)
  have hleast : a.toInt = -9223372036854775808 ↔ a = Int64.minValue :=
    Int64.toInt_inj (y := Int64.minValue)
  have hminus : b.toInt = -1 ↔ b = -1 := Int64.toInt_inj (y := -1)
  unfold rest refusal?
  simp only [true_and, hzero, hleast, hminus]
  by_cases hb : b = 0
  · rw [if_pos hb, if_pos hb]
    rfl
  · rw [if_neg hb, if_neg hb]
    by_cases hab : a = Int64.minValue ∧ b = -1
    · rw [if_pos hab, if_pos hab]
      rfl
    · rw [if_neg hab, if_neg hab]
      exact exactInt_settles mod.symbol (a.toInt.tmod b.toInt)

theorem apply_settles {op : BinaryOp} (h : op.isIntegral = true) (a b : Int64) :
    Settles ((op.apply (.int a) (.int b)).mapError .operator) (op.refusal? a.toInt b.toInt)
      (op.unbounded a.toInt b.toInt) := by
  cases op with
  | add =>
      rw [refusal?_eq (by decide)]
      exact exactInt_settles add.symbol (a.toInt + b.toInt)
  | sub =>
      rw [refusal?_eq (by decide)]
      exact exactInt_settles sub.symbol (a.toInt - b.toInt)
  | mul =>
      rw [refusal?_eq (by decide)]
      exact exactInt_settles mul.symbol (a.toInt * b.toInt)
  | mod => exact rest_settles a b
  | div | eq | ne | lt | le | gt | ge | and | or => cases h

end BinaryOp

namespace UnaryOp

/-- Why a negation gives no 64-bit integer, if it gives none. -/
def refusal? (op : UnaryOp) (a : Int) : Option OperatorError :=
  if FitsInt64 (-a) then none else some (.overflow op.symbol)

theorem apply_neg_settles (a : Int64) :
    Settles ((neg.apply (.int a)).mapError .operator) (neg.refusal? a.toInt) (-a.toInt) :=
  BinaryOp.exactInt_settles neg.symbol (-a.toInt)

end UnaryOp

/-- The node is an integer, a variable that is bound to one, or an operator from integers to an
integer. -/
def Shape.Integral (ctx : Context) (label : String) : Shape → Prop
  | .const v => ∃ k, v = .int k
  | .var => ∃ k, ctx.get? label = some (.int k)
  | .unary op _ => op = .neg
  | .binary op _ _ => op.isIntegral = true

/-- The integer that a value is. Other values count as zero. -/
def Value.exact : Value → Int
  | .int n => n.toInt
  | _ => 0

namespace Store

/-- Every node of the formula exists, has its operands, and is about integers. -/
def IntegralFrom (s : Store) (ctx : Context) (root : NodeId) : Prop :=
  ∀ id, s.Reaches root id → ∃ n shape, s.inspect id = .ok (n, shape) ∧ shape.Integral ctx n.label

/-- The exact value cut off below `depth` nodes. -/
def exactWithin (s : Store) (ctx : Context) : Nat → NodeId → Int
  | 0, _ => 0
  | depth + 1, id =>
      match s.inspect id with
      | .ok (_, .const v) => v.exact
      | .ok (n, .var) => ((ctx.get? n.label).map Value.exact).getD 0
      | .ok (_, .unary _ x) => -s.exactWithin ctx depth x
      | .ok (_, .binary op l r) =>
          op.unbounded (s.exactWithin ctx depth l) (s.exactWithin ctx depth r)
      | .error _ => 0

/-- The value of an integer formula over the integers without bounds. What it says above a zero
divisor is of no interest, as that node is refused before. -/
def exact (s : Store) (ctx : Context) (id : NodeId) : Int := s.exactWithin ctx s.depth id

/-- Why a node has no 64-bit result when its operands have their exact values. -/
def refusal? (s : Store) (ctx : Context) (id : NodeId) : Option OperatorError :=
  match s.inspect id with
  | .ok (_, .unary op x) => op.refusal? (s.exact ctx x)
  | .ok (_, .binary op l r) => op.refusal? (s.exact ctx l) (s.exact ctx r)
  | _ => none

/-- The listing cut off below `depth` nodes. -/
def postorderWithin (s : Store) : Nat → NodeId → List NodeId
  | 0, _ => []
  | depth + 1, id => (s.childrenOf id).flatMap (s.postorderWithin depth) ++ [id]

/-- The ids of a formula, each after its children, which stand from left to right. -/
def postorder (s : Store) (root : NodeId) : List NodeId := s.postorderWithin s.depth root

/-- The node is the first in postorder that refuses, for this reason. -/
def FirstRefusal (s : Store) (ctx : Context) (root id : NodeId) (cause : OperatorError) : Prop :=
  s.refusal? ctx id = some cause ∧ ∃ before after, s.postorder root = before ++ id :: after ∧
    ∀ other ∈ before, s.refusal? ctx other = none

/-- The reason of the first refusal in postorder. -/
def firstRefusal? (s : Store) (ctx : Context) (root : NodeId) : Option OperatorError :=
  (s.postorder root).findSome? (s.refusal? ctx)

variable {s : Store} {ctx : Context} {root id : NodeId} {n : Node}

section Postorder

/-- Any depth that suffices gives the same listing. -/
theorem postorderWithin_eq {depth depth' : Nat} (h : s.Shallow depth id)
    (h' : s.Shallow depth' id) : s.postorderWithin depth id = s.postorderWithin depth' id := by
  refine eq_of_shallow (F := s.postorderWithin) ?_ h h'
  intro depth depth' id below
  rw [postorderWithin, postorderWithin]
  congr 1
  apply List.flatMap_congr
  intro child hmem
  exact below child (mem_childrenOf.mp hmem)

theorem Acyclic.postorder_eq (hs : s.Acyclic) (id : NodeId) :
    s.postorder id = (s.childrenOf id).flatMap s.postorder ++ [id] := by
  show (s.childrenOf id).flatMap (s.postorderWithin s.size) ++ [id] = _
  congr 1
  apply List.flatMap_congr
  intro child hmem
  exact postorderWithin_eq (hs.shallow id child (mem_childrenOf.mp hmem)) (hs.shallow child)

/-- The listing has the ids of the formula, and no others. -/
theorem Acyclic.mem_postorder_iff (hs : s.Acyclic) :
    id ∈ s.postorder root ↔ s.Reaches root id := by
  induction root using hs.induction with
  | step root ih =>
      have hbelow : (∃ child ∈ s.childrenOf root, id ∈ s.postorder child) ↔
          ∃ child, s.Child root child ∧ s.Reaches child id := by
        apply exists_congr
        intro child
        rw [mem_childrenOf]
        exact and_congr_right fun hc => ih child hc
      rw [hs.postorder_eq, List.mem_append, List.mem_flatMap, hbelow, List.mem_singleton, or_comm,
        eq_comm]
      exact Relation.ReflTransGen.cases_head_iff.symm

theorem firstRefusal?_eq_some_iff {cause : OperatorError} :
    s.firstRefusal? ctx root = some cause ↔ ∃ id, s.FirstRefusal ctx root id cause := by
  rw [firstRefusal?, List.findSome?_eq_some_iff]
  constructor
  · intro h
    obtain ⟨before, id, after, hlist, hid, hbefore⟩ := h
    exact ⟨id, hid, before, after, hlist, hbefore⟩
  · intro h
    obtain ⟨id, hid, before, after, hlist, hbefore⟩ := h
    exact ⟨before, id, after, hlist, hid, hbefore⟩

theorem Acyclic.firstRefusal?_eq_none_iff (hs : s.Acyclic) :
    s.firstRefusal? ctx root = none ↔ ∀ id, s.Reaches root id → s.refusal? ctx id = none := by
  rw [firstRefusal?, List.findSome?_eq_none_iff]
  simp only [hs.mem_postorder_iff]

theorem Acyclic.firstRefusal?_unary (hs : s.Acyclic) {op : UnaryOp} {x : NodeId}
    (hi : s.inspect id = .ok (n, .unary op x)) :
    s.firstRefusal? ctx id = (s.firstRefusal? ctx x).or (op.refusal? (s.exact ctx x)) := by
  have hself : s.refusal? ctx id = op.refusal? (s.exact ctx x) := by simp only [refusal?, hi]
  simp [firstRefusal?, hs.postorder_eq id, childrenOf_eq hi, Shape.children,
    List.findSome?_append, hself]

theorem Acyclic.firstRefusal?_binary (hs : s.Acyclic) {op : BinaryOp} {l r : NodeId}
    (hi : s.inspect id = .ok (n, .binary op l r)) :
    s.firstRefusal? ctx id = (s.firstRefusal? ctx l).or
      ((s.firstRefusal? ctx r).or (op.refusal? (s.exact ctx l) (s.exact ctx r))) := by
  have hself : s.refusal? ctx id = op.refusal? (s.exact ctx l) (s.exact ctx r) := by
    simp only [refusal?, hi]
  simp [firstRefusal?, hs.postorder_eq id, childrenOf_eq hi, Shape.children,
    List.findSome?_append, hself]

theorem Acyclic.firstRefusal?_leaf (hs : s.Acyclic) {shape : Shape}
    (hi : s.inspect id = .ok (n, shape)) (hnil : shape.children = []) :
    s.firstRefusal? ctx id = none := by
  have hself : s.refusal? ctx id = none := by
    unfold refusal?
    rw [hi]
    cases shape with
    | const v => rfl
    | var => rfl
    | unary op x => cases hnil
    | binary op l r => cases hnil
  simp [firstRefusal?, hs.postorder_eq id, childrenOf_eq hi, hnil, hself]

end Postorder

section Exact

/-- Any depth that suffices gives the same exact value. -/
theorem exactWithin_eq {depth depth' : Nat} (h : s.Shallow depth id) (h' : s.Shallow depth' id) :
    s.exactWithin ctx depth id = s.exactWithin ctx depth' id := by
  refine eq_of_shallow (F := s.exactWithin ctx) ?_ h h'
  intro depth depth' id below
  unfold exactWithin
  rcases hi : s.inspect id with m | ⟨n, shape⟩
  · rfl
  cases shape with
  | const v => rfl
  | var => rfl
  | unary op x => simp only [below x (child_of_unary hi)]
  | binary op l r =>
      obtain ⟨hl, hr⟩ := child_of_binary hi
      simp only [below l hl, below r hr]

/-- One level less is still enough for a child. -/
theorem Acyclic.exactWithin_child (hs : s.Acyclic) (ctx : Context) {child : NodeId}
    (hc : s.Child id child) : s.exactWithin ctx s.size child = s.exact ctx child :=
  exactWithin_eq (hs.shallow id child hc) (hs.shallow child)

theorem exact_const {v : Value} (hi : s.inspect id = .ok (n, .const v)) :
    s.exact ctx id = v.exact := by
  show s.exactWithin ctx (s.size + 1) id = _
  simp only [exactWithin, hi]

theorem exact_var (hi : s.inspect id = .ok (n, .var)) {v : Value}
    (hv : ctx.get? n.label = some v) : s.exact ctx id = v.exact := by
  show s.exactWithin ctx (s.size + 1) id = _
  simp only [exactWithin, hi, hv, Option.map_some, Option.getD_some]

theorem Acyclic.exact_unary (hs : s.Acyclic) {op : UnaryOp} {x : NodeId}
    (hi : s.inspect id = .ok (n, .unary op x)) : s.exact ctx id = -s.exact ctx x := by
  show s.exactWithin ctx (s.size + 1) id = _
  simp only [exactWithin, hi, hs.exactWithin_child ctx (child_of_unary hi)]

theorem Acyclic.exact_binary (hs : s.Acyclic) {op : BinaryOp} {l r : NodeId}
    (hi : s.inspect id = .ok (n, .binary op l r)) :
    s.exact ctx id = op.unbounded (s.exact ctx l) (s.exact ctx r) := by
  obtain ⟨hl, hr⟩ := child_of_binary hi
  show s.exactWithin ctx (s.size + 1) id = _
  simp only [exactWithin, hi, hs.exactWithin_child ctx hl, hs.exactWithin_child ctx hr]

end Exact

theorem IntegralFrom.below {child : NodeId} (h : s.IntegralFrom ctx id) (hc : s.Child id child) :
    s.IntegralFrom ctx child :=
  fun other hr => h other (hr.below hc)

/-- The induction is over the formula: the left operand settles first, then the right one, and then
the operator meets their exact values. -/
theorem Acyclic.eval_settles (hs : s.Acyclic) (h : s.IntegralFrom ctx id) :
    Settles (s.eval ctx id) (s.firstRefusal? ctx id) (s.exact ctx id) := by
  induction id using hs.induction with
  | step id ih =>
      obtain ⟨n, shape, hi, hint⟩ := h id (Reaches.refl s id)
      have operand : ∀ child, s.Child id child →
          Settles (s.eval ctx child) (s.firstRefusal? ctx child) (s.exact ctx child) :=
        fun child hc => ih child hc (h.below hc)
      cases shape with
      | const v =>
          obtain ⟨k, rfl⟩ := hint
          rw [hs.firstRefusal?_leaf hi rfl]
          exact ⟨k, eval_const ctx hi, (exact_const hi).symm⟩
      | var =>
          obtain ⟨k, hk⟩ := hint
          have heval : s.eval ctx id = .ok (.int k) := by
            rw [eval_var ctx hi, lookUp, hk]
          rw [hs.firstRefusal?_leaf hi rfl]
          exact ⟨k, heval, (exact_var hi hk).symm⟩
      | unary op x =>
          obtain rfl : op = .neg := hint
          rw [hs.eval_unary ctx hi, hs.firstRefusal?_unary hi, hs.exact_unary hi]
          apply (operand x (child_of_unary hi)).bind
          intro a ha
          rw [← ha]
          exact UnaryOp.apply_neg_settles a
      | binary op l r =>
          obtain ⟨hl, hr⟩ := child_of_binary hi
          rw [hs.eval_binary ctx hi, hs.firstRefusal?_binary hi, hs.exact_binary hi]
          apply (operand l hl).bind
          intro a ha
          apply (operand r hr).bind
          intro b hb
          rw [← ha, ← hb]
          exact BinaryOp.apply_settles hint a b

end Store

/-- A formula of integers has an integer as its value exactly if no node of it refuses, and then the
exact one. Otherwise its value is the error of the first node in postorder that refuses. -/
theorem eval_integral_exact_or_refused {s : Store} (hs : s.Acyclic) {ctx : Context} {root : NodeId}
    (h : s.IntegralFrom ctx root) :
    ((∃ n, s.eval ctx root = .ok (.int n)) ↔
      ∀ id, s.Reaches root id → s.refusal? ctx id = none) ∧
    (∀ n, s.eval ctx root = .ok (.int n) → n.toInt = s.exact ctx root) ∧
    ((¬ ∀ id, s.Reaches root id → s.refusal? ctx id = none) →
      ∃ id cause, s.FirstRefusal ctx root id cause ∧
        s.eval ctx root = .error (.operator cause)) := by
  have hsettles := hs.eval_settles h
  rw [← hs.firstRefusal?_eq_none_iff]
  cases hfirst : s.firstRefusal? ctx root with
  | none =>
      rw [hfirst] at hsettles
      obtain ⟨n, hn, hexact⟩ := hsettles
      refine ⟨iff_of_true ⟨n, hn⟩ rfl, ?_, fun hnot => absurd rfl hnot⟩
      intro m hm
      cases hn.symm.trans hm
      exact hexact
  | some cause =>
      rw [hfirst] at hsettles
      have herror : s.eval ctx root = .error (.operator cause) := hsettles
      obtain ⟨id, hid⟩ := Store.firstRefusal?_eq_some_iff.mp hfirst
      refine ⟨?_, ?_, fun _ => ⟨id, cause, hid, herror⟩⟩
      · simp [herror]
      · simp [herror]

/-- `(m + 1 - 1) * (1 % z)`, with one node for the ones. -/
def returningSum : Store :=
  ⟨#[.binary .mul ⟨1⟩ ⟨4⟩, .binary .sub ⟨2⟩ ⟨6⟩, .binary .add ⟨3⟩ ⟨6⟩, .var "m",
    .binary .mod ⟨6⟩ ⟨5⟩, .var "z", .const (.int 1)]⟩

/-- The greatest integer and zero. -/
def returningSumContext : Context :=
  ((Bindings.empty.insert "m" (.int Int64.maxValue)).insert "z" (.int 0)).context

theorem returningSum_acyclic : returningSum.Acyclic :=
  Store.acyclic_of_rank (fun id => 7 - id.index) (by decide)

theorem returningSum_integral : returningSum.IntegralFrom returningSumContext ⟨0⟩ := by
  intro id hr
  have hlist : returningSum.postorder ⟨0⟩ = [⟨3⟩, ⟨6⟩, ⟨2⟩, ⟨6⟩, ⟨1⟩, ⟨6⟩, ⟨5⟩, ⟨4⟩, ⟨0⟩] := by
    with_unfolding_all rfl
  have hmem := returningSum_acyclic.mem_postorder_iff.mpr hr
  rw [hlist] at hmem
  simp only [List.mem_cons, List.not_mem_nil, or_false] at hmem
  rcases hmem with rfl | rfl | rfl | rfl | rfl | rfl | rfl | rfl | rfl
  · exact ⟨_, .var, rfl, Int64.maxValue, rfl⟩
  · exact ⟨_, .const (.int 1), rfl, 1, rfl⟩
  · exact ⟨_, .binary .add ⟨3⟩ ⟨6⟩, rfl, rfl⟩
  · exact ⟨_, .const (.int 1), rfl, 1, rfl⟩
  · exact ⟨_, .binary .sub ⟨2⟩ ⟨6⟩, rfl, rfl⟩
  · exact ⟨_, .const (.int 1), rfl, 1, rfl⟩
  · exact ⟨_, .var, rfl, 0, rfl⟩
  · exact ⟨_, .binary .mod ⟨6⟩ ⟨5⟩, rfl, rfl⟩
  · exact ⟨_, .binary .mul ⟨1⟩ ⟨4⟩, rfl, rfl⟩

/-- The sum is refused although the difference above it would fit again, and before the remainder
by zero. -/
theorem eval_returningSum :
    returningSum.exact returningSumContext ⟨1⟩ = 9223372036854775807 ∧
    returningSum.refusal? returningSumContext ⟨4⟩ = some .divisionByZero ∧
    returningSum.eval returningSumContext ⟨0⟩ = .error (.operator (.overflow "+")) ∧
    ∃ id, returningSum.FirstRefusal returningSumContext ⟨0⟩ id (.overflow "+") := by
  have hexact : returningSum.exact returningSumContext ⟨1⟩ = 9223372036854775807 := by
    with_unfolding_all rfl
  have hzero : returningSum.refusal? returningSumContext ⟨4⟩ = some .divisionByZero := by
    with_unfolding_all rfl
  have heval : returningSum.eval returningSumContext ⟨0⟩ = .error (.operator (.overflow "+")) := by
    with_unfolding_all rfl
  obtain ⟨hvalue, -, hrefused⟩ :=
    eval_integral_exact_or_refused returningSum_acyclic returningSum_integral
  have hnot : ¬ ∀ id, returningSum.Reaches ⟨0⟩ id →
      returningSum.refusal? returningSumContext id = none := by
    rw [← hvalue]
    simp [heval]
  obtain ⟨id, cause, hfirst, herror⟩ := hrefused hnot
  cases heval.symm.trans herror
  exact ⟨hexact, hzero, heval, id, hfirst⟩

end FormulaCompiler
