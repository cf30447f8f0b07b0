import FormulaCompiler.Operator.Apply

/-!
# What typing predicts of an operator

Typing an operator and applying it are written apart. Here they are tied together: typing refuses
two types exactly when applying refuses values of these types, and otherwise the type it gives is
the type of the value, unless a divisor is zero or an integer does not fit.
-/

namespace FormulaCompiler

theorem Value.eq_int_of_ty {v : Value} (h : v.ty = .int) : ∃ n, v = .int n := by
  cases v with
  | int n => exact ⟨n, rfl⟩
  | null | float | bool | text => cases h

/-- The result is what the type foretells: a value of that type or one of the failures that are left
open, and the given mismatch when there is no type. -/
def Foretold (mismatch : OperatorError) (allowed : OperatorError → Prop) :
    Option Ty → Except OperatorError Value → Prop
  | none, r => r = .error mismatch
  | some t, .ok v => v.ty = t
  | some _, .error e => allowed e

theorem Foretold.mono {mismatch : OperatorError} {p q : OperatorError → Prop} {t : Option Ty}
    {r : Except OperatorError Value} (h : Foretold mismatch p t r) (hpq : ∀ e, p e → q e) :
    Foretold mismatch q t r := by
  cases t with
  | none => exact h
  | some t =>
      cases r with
      | ok v => exact h
      | error e => exact hpq e h

/-- Where no failure that is left open is a mismatch, there is one exactly when there is no type. -/
theorem Foretold.mismatch_iff {symbol : String} {operands : List Ty} {p : OperatorError → Prop}
    {t : Option Ty} {r : Except OperatorError Value}
    (h : Foretold (.typeMismatch symbol operands) p t r)
    (hp : ∀ symbol operands, ¬ p (.typeMismatch symbol operands)) :
    (∃ symbol operands, r = .error (.typeMismatch symbol operands)) ↔ t = none := by
  cases t with
  | none => exact iff_of_true ⟨symbol, operands, h⟩ rfl
  | some t =>
      refine iff_of_false ?_ (Option.some_ne_none t)
      rintro ⟨symbol', operands', rfl⟩
      exact hp symbol' operands' h

theorem Foretold.ok_or_error {mismatch : OperatorError} {p : OperatorError → Prop} {t : Ty}
    {r : Except OperatorError Value} (h : Foretold mismatch p (some t) r) :
    (∃ v, r = .ok v ∧ v.ty = t) ∨ ∃ e, r = .error e ∧ p e := by
  cases r with
  | ok v => exact .inl ⟨v, rfl, h⟩
  | error e => exact .inr ⟨e, rfl, h⟩

namespace BinaryOp

/-- The failures that typing leaves open. -/
def MayFail (op : BinaryOp) (l r : Ty) : OperatorError → Prop
  | .divisionByZero => op = .div ∨ op = .mod
  | .overflow symbol =>
      symbol = op.symbol ∧ l = .int ∧ r = .int ∧ (op = .add ∨ op = .sub ∨ op = .mul ∨ op = .mod)
  | .typeMismatch _ _ => False

/-- The mismatch of two values. -/
def mismatchOf (op : BinaryOp) (l r : Value) : OperatorError := .typeMismatch op.symbol [l.ty, r.ty]

theorem exactInt_foretold (mismatch : OperatorError) (symbol : String) (n : Int) :
    Foretold mismatch (· = .overflow symbol) (some .int) (exactInt symbol n) := by
  unfold exactInt
  split
  · rfl
  · rfl

/-- On two numbers of which one is a float, the function of two floats decides; on anything else
typing and applying both refuse. -/
theorem onFloats_foretold (op : BinaryOp) (l r : Value) (t : Ty) (allowed : OperatorError → Prop)
    (f : Float → Float → Except OperatorError Value)
    (hf : ∀ x y, Foretold (op.mismatchOf l r) allowed (some t) (f x y)) :
    Foretold (op.mismatchOf l r) allowed ((l.ty.promote? r.ty).map fun _ => t)
      (op.onFloats l r f) := by
  cases l <;> cases r <;> first | exact hf _ _ | rfl

theorem arithmetic_foretold (op : BinaryOp) (onInts : Int → Int → Int)
    (rounded : Float → Float → Float) (l r : Value) :
    Foretold (op.mismatchOf l r) (fun e => e = .overflow op.symbol ∧ l.ty = .int ∧ r.ty = .int)
      (l.ty.promote? r.ty) (op.arithmetic onInts rounded l r) := by
  cases l <;> cases r <;> first | rfl | skip
  exact (exactInt_foretold _ _ _).mono fun e he => ⟨he, rfl, rfl⟩

theorem sum_foretold (l r : Value) :
    Foretold (add.mismatchOf l r) (fun e => e = .overflow add.symbol ∧ l.ty = .int ∧ r.ty = .int)
      (sumType? l.ty r.ty) (sum l r) := by
  cases l <;> cases r <;> first | rfl | skip
  exact arithmetic_foretold add (· + ·) (· + ·) _ _

theorem quotient_foretold (l r : Value) :
    Foretold (div.mismatchOf l r) (· = .divisionByZero)
      ((l.ty.promote? r.ty).map fun _ => .float) (quotient l r) := by
  refine onFloats_foretold div l r .float _ _ ?_
  intro x y
  split <;> rfl

theorem rest_foretold (l r : Value) :
    Foretold (mod.mismatchOf l r)
      (fun e => e = .divisionByZero ∨ e = .overflow mod.symbol ∧ l.ty = .int ∧ r.ty = .int)
      (l.ty.promote? r.ty) (rest l r) := by
  have floats : ∀ x y : Float, Foretold (mod.mismatchOf l r)
      (fun e => e = .divisionByZero ∨ e = .overflow mod.symbol ∧ l.ty = .int ∧ r.ty = .int)
      (some .float) (if y == 0.0 then .error .divisionByZero
        else .ok (.float (Binary64.remainderFloat x y))) := by
    intro x y
    split
    · exact .inl rfl
    · rfl
  cases l <;> cases r <;> first | rfl | exact floats _ _ | skip
  simp only [rest]
  split
  · exact .inl rfl
  · split
    · exact .inr ⟨rfl, rfl, rfl⟩
    · exact (exactInt_foretold _ _ _).mono fun e he => .inr ⟨he, rfl, rfl⟩

theorem equality_foretold (op : BinaryOp) (negated : Bool) (l r : Value) :
    Foretold (op.mismatchOf l r) (fun _ => False)
      (if comparable l.ty r.ty then some .bool else none) (op.equality negated l r) := by
  cases l <;> cases r <;> rfl

theorem ordering_foretold (op : BinaryOp) (onInts : Int → Int → Bool)
    (onFloats : Float → Float → Bool) (l r : Value) :
    Foretold (op.mismatchOf l r) (fun _ => False)
      ((l.ty.promote? r.ty).map fun _ => .bool) (op.ordering onInts onFloats l r) := by
  cases l <;> cases r <;> rfl

theorem logic_foretold (op : BinaryOp) (f : Bool → Bool → Bool) (l r : Value) :
    Foretold (op.mismatchOf l r) (fun _ => False)
      (if l.ty = .bool ∧ r.ty = .bool then some .bool else none) (op.logic f l r) := by
  cases l <;> cases r <;> rfl

/-- Applying a binary operator does what its typing foretells. -/
theorem apply_foretold (op : BinaryOp) (l r : Value) :
    Foretold (op.mismatchOf l r) (op.MayFail l.ty r.ty) (op.resultType? l.ty r.ty)
      (op.apply l r) := by
  have never : ∀ e : OperatorError, False → op.MayFail l.ty r.ty e := fun _ h => h.elim
  cases op with
  | add =>
      refine (sum_foretold l r).mono ?_
      rintro _ ⟨rfl, hl, hr⟩
      exact ⟨rfl, hl, hr, .inl rfl⟩
  | sub =>
      refine (arithmetic_foretold .sub _ _ l r).mono ?_
      rintro _ ⟨rfl, hl, hr⟩
      exact ⟨rfl, hl, hr, .inr (.inl rfl)⟩
  | mul =>
      refine (arithmetic_foretold .mul _ _ l r).mono ?_
      rintro _ ⟨rfl, hl, hr⟩
      exact ⟨rfl, hl, hr, .inr (.inr (.inl rfl))⟩
  | div =>
      refine (quotient_foretold l r).mono ?_
      rintro _ rfl
      exact .inl rfl
  | mod =>
      refine (rest_foretold l r).mono ?_
      rintro _ (rfl | ⟨rfl, hl, hr⟩)
      · exact .inr rfl
      · exact ⟨rfl, hl, hr, .inr (.inr (.inr rfl))⟩
  | eq => exact (equality_foretold .eq false l r).mono never
  | ne => exact (equality_foretold .ne true l r).mono never
  | lt =>
      exact (ordering_foretold .lt (fun a b => decide (a < b)) (fun x y => decide (x < y)) l r).mono
        never
  | le =>
      exact (ordering_foretold .le (fun a b => decide (a ≤ b)) (fun x y => decide (x ≤ y)) l r).mono
        never
  | gt =>
      exact (ordering_foretold .gt (fun a b => decide (b < a)) (fun x y => decide (y < x)) l r).mono
        never
  | ge =>
      exact (ordering_foretold .ge (fun a b => decide (b ≤ a)) (fun x y => decide (y ≤ x)) l r).mono
        never
  | and => exact (logic_foretold .and _ l r).mono never
  | or => exact (logic_foretold .or _ l r).mono never

/-- A value that a typed operator gives has the foretold type. -/
theorem ty_of_apply {op : BinaryOp} {l r v : Value} {t : Ty}
    (ht : op.resultType? l.ty r.ty = some t) (h : op.apply l r = .ok v) : v.ty = t := by
  have hf := op.apply_foretold l r
  rwa [ht, h] at hf

end BinaryOp

namespace UnaryOp

/-- Applying a unary operator does what its typing foretells; only a negation can fail to fit. -/
theorem apply_foretold (op : UnaryOp) (v : Value) :
    Foretold (.typeMismatch op.symbol [v.ty])
      (fun e => e = .overflow op.symbol ∧ op = .neg ∧ v.ty = .int) (op.resultType? v.ty)
      (op.apply v) := by
  cases op with
  | neg =>
      cases v <;> first | rfl | skip
      exact (BinaryOp.exactInt_foretold _ _ _).mono fun e he => ⟨he, rfl, rfl⟩
  | not => cases v <;> rfl

theorem ty_of_apply {op : UnaryOp} {v w : Value} {t : Ty} (ht : op.resultType? v.ty = some t)
    (h : op.apply v = .ok w) : w.ty = t := by
  have hf := op.apply_foretold v
  rwa [ht, h] at hf

/-- The least integer is the only one whose negation does not fit. -/
theorem neg_overflow_iff (n : Int64) :
    neg.apply (.int n) = .error (.overflow neg.symbol) ↔ n = Int64.minValue := by
  have hfit := fitInt64?_isSome_iff (-n.toInt)
  have hlow : -9223372036854775808 ≤ n.toInt := Int64.le_toInt n
  have hhigh : n.toInt < 9223372036854775808 := Int64.toInt_lt n
  have hmin : Int64.minValue.toInt = -9223372036854775808 := rfl
  have hmax : Int64.maxValue.toInt = 9223372036854775807 := rfl
  constructor
  · intro h
    refine Int64.toInt_inj.mp ?_
    cases hm : fitInt64? (-n.toInt) with
    | some m => simp [apply, BinaryOp.exactInt, hm] at h
    | none =>
        rw [hm, hmin, hmax] at hfit
        have hout : ¬ (-9223372036854775808 ≤ -n.toInt ∧ -n.toInt ≤ 9223372036854775807) :=
          fun hin => Bool.false_ne_true (hfit.mpr hin)
        omega
  · rintro rfl
    rfl

end UnaryOp

/-- Typing an operator and applying it are exactly in step. Applying fails with a mismatch exactly
when there is no type. Otherwise it gives a value of the type or fails in one of two ways: with a
division by zero, which only quotients and remainders do, or with an overflow, which only sums,
differences, products and remainders of integers do, and the negation of the least integer. -/
theorem typing_in_step_with_applying :
    (∀ (op : BinaryOp) (l r : Value),
      ((∃ symbol operands, op.apply l r = .error (.typeMismatch symbol operands)) ↔
        op.resultType? l.ty r.ty = none) ∧
      ∀ t, op.resultType? l.ty r.ty = some t →
        (∃ v, op.apply l r = .ok v ∧ v.ty = t) ∨
        (op.apply l r = .error .divisionByZero ∧ (op = .div ∨ op = .mod)) ∨
        (op.apply l r = .error (.overflow op.symbol) ∧ (∃ a b, l = .int a ∧ r = .int b) ∧
          (op = .add ∨ op = .sub ∨ op = .mul ∨ op = .mod))) ∧
    ∀ (op : UnaryOp) (v : Value),
      ((∃ symbol operands, op.apply v = .error (.typeMismatch symbol operands)) ↔
        op.resultType? v.ty = none) ∧
      ∀ t, op.resultType? v.ty = some t →
        (∃ w, op.apply v = .ok w ∧ w.ty = t) ∨
        (op.apply v = .error (.overflow op.symbol) ∧ op = .neg ∧ v = .int Int64.minValue) := by
  refine ⟨fun op l r => ⟨?_, fun t ht => ?_⟩, fun op v => ⟨?_, fun t ht => ?_⟩⟩
  · exact (op.apply_foretold l r).mismatch_iff fun _ _ h => h
  · have hf := op.apply_foretold l r
    rw [ht] at hf
    rcases hf.ok_or_error with hok | ⟨e, he, hmay⟩
    · exact .inl hok
    · cases e with
      | typeMismatch symbol operands => exact hmay.elim
      | divisionByZero => exact .inr (.inl ⟨he, hmay⟩)
      | overflow symbol =>
          obtain ⟨rfl, hl, hr, hop⟩ := hmay
          obtain ⟨a, rfl⟩ := Value.eq_int_of_ty hl
          obtain ⟨b, rfl⟩ := Value.eq_int_of_ty hr
          exact .inr (.inr ⟨he, ⟨a, b, rfl, rfl⟩, hop⟩)
  · exact (op.apply_foretold v).mismatch_iff (by simp)
  · have hf := op.apply_foretold v
    rw [ht] at hf
    rcases hf.ok_or_error with hok | ⟨e, he, rfl, rfl, hty⟩
    · exact .inl hok
    · obtain ⟨n, rfl⟩ := Value.eq_int_of_ty hty
      exact .inr ⟨he, rfl, congrArg Value.int ((UnaryOp.neg_overflow_iff n).mp he)⟩

/-- The least integer by minus one: its remainder has a type and no value. -/
theorem typing_in_step_with_applying_leastRest :
    let least := Value.int Int64.minValue
    let minusOne := Value.int (-1)
    BinaryOp.mod.resultType? least.ty minusOne.ty = some .int ∧
    BinaryOp.mod.apply least minusOne = .error (.overflow "%") ∧
    ((∃ v, BinaryOp.mod.apply least minusOne = .ok v ∧ v.ty = .int) ∨
      (BinaryOp.mod.apply least minusOne = .error .divisionByZero ∧
        (BinaryOp.mod = .div ∨ BinaryOp.mod = .mod)) ∨
      (BinaryOp.mod.apply least minusOne = .error (.overflow BinaryOp.mod.symbol) ∧
        (∃ a b, least = .int a ∧ minusOne = .int b) ∧
        (BinaryOp.mod = .add ∨ BinaryOp.mod = .sub ∨ BinaryOp.mod = .mul ∨
          BinaryOp.mod = .mod))) :=
  ⟨rfl, rfl, (typing_in_step_with_applying.1 .mod _ _).2 .int rfl⟩

end FormulaCompiler
