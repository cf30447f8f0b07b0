import FormulaCompiler.Proofs.Binary64.Integer
import FormulaCompiler.Value

/-!
# The decimal text of a natural double

The interval that rounds to a natural below `2 ^ 53` is too narrow for another natural, so on every
grid of whole numbers the search meets the number itself or nothing. The digits it finds are those
of the natural without its trailing zeros, which positional writing puts back. Hence an integer
shows the same as the double it was widened to.
-/

namespace FormulaCompiler.Decimal

/-- The interval of a natural: the ends are less than half a unit away. -/
structure Interval.IsNatural (i : Interval) (m : Nat) : Prop where
  value_eq : i.value = m * i.denominator
  wide : 4 ≤ i.denominator
  lower_lt : i.lower < i.value
  le_lower : i.value ≤ i.lower + 2
  lt_upper : i.value < i.upper
  upper_le : i.upper ≤ i.value + 2

theorem Interval.isNatural_of {m : Nat} (h0 : m ≠ 0) (h : m < 2 ^ 53) :
    (Interval.of (Binary64.normal m) (-(Binary64.room m : Int))).IsNatural m := by
  have hpow := Nat.two_pow_pos (Binary64.room m)
  have hlo := (Binary64.normal_bounds h0 h).1
  have hshift : (-(Binary64.room m : Int) - 2).toNat = 0 := by omega
  have hdenominator : 1 <<< (2 - -(Binary64.room m : Int)).toNat = 4 * 2 ^ Binary64.room m := by
    rw [show (2 - -(Binary64.room m : Int)).toNat = 2 + Binary64.room m by omega,
      Nat.shiftLeft_eq, Nat.pow_add]
    omega
  constructor
  · simp only [Interval.of, hshift, hdenominator, Binary64.normal_eq, Nat.shiftLeft_zero]
    exact Nat.mul_left_comm 4 m _
  · simp only [Interval.of, hdenominator]
    omega
  all_goals simp only [Interval.of, hshift, Nat.shiftLeft_zero]
  · split <;> omega
  · split <;> omega
  · omega
  · omega

namespace Interval.IsNatural

variable {i : Interval} {m : Nat}

/-- Of all naturals only the number itself rounds to it. -/
theorem within_iff (h : i.IsNatural m) (k : Nat) :
    i.within 1 (k * i.denominator) = decide (k = m) := by
  obtain ⟨hv, hw, hl, hl', hu, hu'⟩ := h
  have apart : k < m → k * i.denominator + i.denominator ≤ m * i.denominator := fun hk => by
    rw [← Nat.succ_mul]
    exact Nat.mul_le_mul_right _ hk
  have apart' : m < k → m * i.denominator + i.denominator ≤ k * i.denominator := fun hk => by
    rw [← Nat.succ_mul]
    exact Nat.mul_le_mul_right _ hk
  unfold within
  split <;> rw [decide_eq_decide] <;> constructor
  · omega
  · rintro rfl
    omega
  · omega
  · rintro rfl
    omega

/-- On a grid of whole numbers the search finds the number itself or nothing. -/
theorem onGrid_eq (h : i.IsNatural m) (q : Nat) :
    i.onGrid q = if 10 ^ q ∣ m then some (m / 10 ^ q) else none := by
  have hscale : tenTo (-(q : Int)) = 1 := by
    rw [tenTo, show (-(q : Int)).toNat = 0 by omega]
  have hunit : tenTo (q : Int) = 10 ^ q := rfl
  have hten := Nat.pow_pos (n := q) (show 0 < 10 by decide)
  have hden : 0 < i.denominator := by have := h.wide; omega
  have hbelow : i.value * 1 / (i.denominator * 10 ^ q) = m / 10 ^ q := by
    rw [Nat.mul_one, h.value_eq, Nat.mul_comm m, Nat.mul_div_mul_left _ _ hden]
  have hpoint : ∀ k, i.within 1 (k * (i.denominator * 10 ^ q)) = decide (k * 10 ^ q = m) := by
    intro k
    rw [Nat.mul_comm i.denominator, ← Nat.mul_assoc]
    exact h.within_iff (k * 10 ^ q)
  -- The point above the number is off it, whether the number is on the grid or not.
  have habove : ¬ (m / 10 ^ q + 1) * 10 ^ q = m := by
    have := Nat.lt_div_mul_add (a := m) hten
    rw [Nat.succ_mul]
    omega
  have hdvd : m / 10 ^ q * 10 ^ q = m ↔ 10 ^ q ∣ m :=
    ⟨fun hm => Dvd.intro_left _ hm, Nat.div_mul_cancel⟩
  unfold onGrid
  simp only [hscale, hunit, hbelow, hpoint, habove, hdvd, decide_false]
  by_cases hd : 10 ^ q ∣ m <;> simp [hd]

theorem magnitude_eq (h : i.IsNatural m) (h0 : m ≠ 0) :
    i.magnitude = (Nat.toDigits 10 m).length := by
  have hden : 0 < i.denominator := by have := h.wide; omega
  have hle : i.denominator ≤ i.value := by
    rw [h.value_eq]
    exact Nat.le_mul_of_pos_left _ (by omega)
  rw [magnitude, if_pos hle, h.value_eq, Nat.mul_div_cancel _ hden]

end Interval.IsNatural

/-- The decimal is a natural. -/
def Digits.Spells (d : Digits) (m : Nat) : Prop := ∃ e : Nat, d.exponent = e ∧ d.digits * 10 ^ e = m

/-- The search ends at the latest on the grid of all naturals. -/
theorem Interval.IsNatural.search_spells {i : Interval} {m : Nat} (h : i.IsNatural m) {fuel q : Nat}
    (hq : q < fuel) : (i.search fuel q).Spells m := by
  induction fuel generalizing q with
  | zero => omega
  | succ fuel ih =>
      unfold search
      rw [h.onGrid_eq]
      by_cases hd : 10 ^ q ∣ m
      · rw [if_pos hd]
        exact ⟨q, rfl, Nat.div_mul_cancel hd⟩
      · rw [if_neg hd]
        cases q with
        | zero => exact absurd (by simp) hd
        | succ q =>
            rw [show ((q + 1 : Nat) : Int) - 1 = q by omega]
            exact ih (by omega)

theorem Digits.Spells.strip {d : Digits} {m : Nat} (h : d.Spells m) (fuel : Nat) :
    (Digits.strip fuel d).Spells m := by
  induction fuel generalizing d with
  | zero => exact h
  | succ fuel ih =>
      unfold Digits.strip
      split
      · rename_i hzero
        obtain ⟨e, he, hm⟩ := h
        refine ih ⟨e + 1, by simp [he], ?_⟩
        rw [← hm, Nat.pow_succ, Nat.mul_comm (10 ^ e), ← Nat.mul_assoc,
          Nat.div_mul_cancel (Nat.dvd_of_mod_eq_zero hzero)]
      · exact h

theorem shortest_spells {m : Nat} (h0 : m ≠ 0) (h : m < 2 ^ 53) :
    (shortest (Binary64.normal m) (-(Binary64.room m : Int))).Spells m := by
  have hi := Interval.isNatural_of h0 h
  have hpos := Nat.length_toDigits_pos (b := 10) (n := m)
  have hlen : (Nat.toDigits 10 m).length ≤ 16 :=
    (Nat.length_toDigits_le_iff (by decide) (by decide)).mpr (by omega)
  unfold shortest
  simp only [hi.magnitude_eq h0]
  rw [show ((Nat.toDigits 10 m).length : Int) - 1 = ((Nat.toDigits 10 m).length - 1 : Nat) by omega]
  exact (hi.search_spells (by omega)).strip 17

/-- Each factor ten is a zero at the end. -/
theorem toDigits_mul_pow {n : Nat} (hn : n ≠ 0) (e : Nat) :
    Nat.toDigits 10 (n * 10 ^ e) = Nat.toDigits 10 n ++ List.replicate e '0' := by
  induction e with
  | zero => simp
  | succ e ih =>
      have hpos : 0 < n * 10 ^ e := Nat.mul_pos (by omega) (Nat.pow_pos (by decide))
      have hstep := Nat.toDigits_append_toDigits (b := 10) (by decide) hpos (show 0 < 10 by decide)
      rw [Nat.pow_succ, ← Nat.mul_assoc, Nat.mul_comm _ 10, ← Nat.add_zero (10 * _), ← hstep, ih,
        List.append_assoc, List.replicate_succ']
      rfl

/-- Positional writing puts the zeros back. -/
theorem Digits.Spells.positional {d : Digits} {m : Nat} (h : d.Spells m) (h0 : m ≠ 0) :
    Layout.display.positional d = Nat.toDigits 10 m := by
  obtain ⟨e, he, rfl⟩ := h
  have hd : d.digits ≠ 0 := by
    intro hz
    simp [hz] at h0
  have hpos := Nat.length_toDigits_pos (b := 10) (n := d.digits)
  have hpoint : d.point = (d.text.length + e : Nat) := by rw [Digits.point, he]; rfl
  have hlen : d.text.length = (Nat.toDigits 10 d.digits).length := rfl
  unfold Layout.positional
  simp only [hpoint]
  rw [if_neg (by omega), if_pos (by omega), toDigits_mul_pow hd]
  have hzeros :
      Layout.zeros ((d.text.length + e : Nat) - d.text.length) = List.replicate e '0' := by
    rw [Layout.zeros, show ((d.text.length + e : Nat) - d.text.length : Int).toNat = e by omega]
  rw [hzeros, Digits.text]
  exact List.append_nil _

theorem magnitude_natural {m : Nat} (h0 : m ≠ 0) (h : m < 2 ^ 53) :
    Layout.display.magnitude (Binary64.normal m) (-(Binary64.room m : Int)) =
      Nat.toDigits 10 m := by
  have hlo := (Binary64.normal_bounds h0 h).1
  unfold Layout.magnitude
  rw [if_neg (by omega)]
  exact (shortest_spells h0 h).positional h0

theorem toString_int (n : Int) :
    toString n = String.ofList ((if n < 0 then ['-'] else []) ++ Nat.toDigits 10 n.natAbs) := by
  cases n with
  | ofNat k => exact Nat.toString_eq_ofList_toDigits
  | negSucc k =>
      change "-" ++ toString (k + 1) = _
      rw [Nat.toString_eq_ofList_toDigits, if_pos (Int.negSucc_lt_zero k), String.ofList_append]
      rfl

end FormulaCompiler.Decimal

/-- Up to `2 ^ 53`, an integer shows the same when it is widened. -/
theorem FormulaCompiler.Value.display_floatOfInt {n : Int64} (h : n.toInt.natAbs ≤ 2 ^ 53) :
    (Value.float (Binary64.floatOfInt n)).display = (Value.int n).display := by
  rcases Binary64.cases_of_le h with ⟨h0, h⟩ | rfl | rfl | rfl
  · change Decimal.Layout.display.write (Binary64.ofFloat (Binary64.floatOfInt n)) =
      toString n.toInt
    rw [Binary64.ofFloat_floatOfInt h0 h, Decimal.toString_int, Decimal.Layout.write,
      Decimal.magnitude_natural (Int.natAbs_ne_zero.mpr h0) h]
    simp only [decide_eq_true_eq]
  · decide +kernel
  · decide +kernel
  · decide +kernel
