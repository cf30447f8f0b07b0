import FormulaCompiler.Decimal.Shortest
import FormulaCompiler.Proofs.Binary64.Parts

/-!
# Decimals that read back

A decimal is read as the double nearest to it, the even one of two. The double is looked for on
finer and finer grids from the bottom: the finest grid of powers of two on which the number has no
more than 53 bits is the one of the double. Whatever lies in the interval of a double is read as
that double, and the shortest decimal of a double lies in its interval, because seventeen digits are
enough to get there.
-/

namespace FormulaCompiler.Decimal

open Binary64 (Canonical)

/-- The natural nearest to a number that is not negative, the even one of two. -/
def halfEven (x : ℚ) : ℕ :=
  let below := ⌊x⌋₊
  if x < below + 1 / 2 ∨ x = below + 1 / 2 ∧ below % 2 = 0 then below else below + 1

/-- Looks for the finest grid, from an exponent upwards, on which a number has a significand that
fits. -/
def nearestFrom (x : ℚ) : Nat → Int → Option (Nat × Int)
  | 0, _ => none
  | fuel + 1, q =>
      let m := halfEven (x / 2 ^ q)
      if m < 2 ^ 53 then some (m, q) else nearestFrom x fuel (q + 1)

/-- The significand and the exponent of the double nearest to a number that is not negative, unless
the number is too large for one. -/
def nearest? (x : ℚ) : Option (Nat × Int) := nearestFrom x 2046 (-1074)

theorem halfEven_eq {x : ℚ} {m : ℕ} (hx : 0 ≤ x) (hlow : (m : ℚ) - 1 / 2 ≤ x)
    (hhigh : x ≤ m + 1 / 2)
    (heven : m % 2 = 0 ∨ (m : ℚ) - 1 / 2 < x ∧ x < m + 1 / 2) : halfEven x = m := by
  have hfloor : (⌊x⌋₊ : ℚ) ≤ x := Nat.floor_le hx
  have hnext : x < ⌊x⌋₊ + 1 := Nat.lt_floor_add_one x
  have hle : ⌊x⌋₊ ≤ m := by
    have hlt : (⌊x⌋₊ : ℚ) < m + 1 := by linarith
    exact Nat.lt_succ_iff.mp (by exact_mod_cast hlt)
  have hge : m ≤ ⌊x⌋₊ + 1 := by
    have hlt : (m : ℚ) < ⌊x⌋₊ + 2 := by linarith
    exact Nat.lt_succ_iff.mp (by exact_mod_cast hlt)
  unfold halfEven
  dsimp only
  by_cases hbelow : ⌊x⌋₊ = m
  · -- The number lies at or above its nearest natural.
    rw [hbelow, if_pos]
    rcases heven with heven | hinside
    · exact (lt_or_eq_of_le hhigh).imp_right fun htie => ⟨htie, heven⟩
    · exact .inl hinside.2
  · have habove : m = ⌊x⌋₊ + 1 := by omega
    have hcast : (m : ℚ) = ⌊x⌋₊ + 1 := by exact_mod_cast habove
    rw [if_neg, ← habove]
    rintro (hlt | ⟨htie, hparity⟩)
    · linarith
    · rcases heven with heven | hinside
      · omega
      · linarith [hinside.1]

/-- A number that is large enough is not rounded below an even natural. -/
theorem le_halfEven {x : ℚ} {m : ℕ} (hm : m % 2 = 0) (h : (m : ℚ) - 1 / 2 ≤ x) :
    m ≤ halfEven x := by
  have hnext : x < ⌊x⌋₊ + 1 := Nat.lt_floor_add_one x
  have hge : m ≤ ⌊x⌋₊ + 1 := by
    have hlt : (m : ℚ) < ⌊x⌋₊ + 2 := by linarith
    exact Nat.lt_succ_iff.mp (by exact_mod_cast hlt)
  unfold halfEven
  dsimp only
  split
  · rename_i hdown
    by_contra hlt
    have habove : m = ⌊x⌋₊ + 1 := by omega
    have hcast : (m : ℚ) = ⌊x⌋₊ + 1 := by exact_mod_cast habove
    rcases hdown with hdown | ⟨-, hparity⟩
    · linarith
    · omega
  · exact hge

/-- How far down the numbers reach that round to a double, in units of its last bit. Below a power
of two the next double is half as far. -/
def reach (m : Nat) (q : Int) : ℚ := if m = 2 ^ 52 ∧ q ≠ -1074 then 1 / 4 else 1 / 2

/-- The number rounds to the double: it lies between the middles to the doubles next to it, and on
one of them only if the significand is even. -/
structure Rounds (m : Nat) (q : Int) (x : ℚ) : Prop where
  low : (m - reach m q) * 2 ^ q ≤ x
  high : x ≤ (m + 1 / 2) * 2 ^ q
  inside : m % 2 = 0 ∨ (m - reach m q) * 2 ^ q < x ∧ x < (m + 1 / 2) * 2 ^ q

theorem reach_le (m : Nat) (q : Int) : reach m q ≤ 1 / 2 := by
  unfold reach
  split <;> norm_num

variable {m : Nat} {q : Int} {x : ℚ}

/-- On the grid of the double the number has the double's significand. -/
theorem Rounds.halfEven_eq (h : Rounds m q x) (hx : 0 ≤ x) : halfEven (x / 2 ^ q) = m := by
  have hpow : (0 : ℚ) < 2 ^ q := by positivity
  have hreach := reach_le m q
  have hlow := (le_div_iff₀ hpow).mpr h.low
  have hhigh := (div_le_iff₀ hpow).mpr h.high
  refine Decimal.halfEven_eq (div_nonneg hx hpow.le) (by linarith) hhigh ?_
  refine h.inside.imp_right fun hinside => ⟨?_, (div_lt_iff₀ hpow).mpr hinside.2⟩
  have hlt := (lt_div_iff₀ hpow).mpr hinside.1
  linarith

/-- On a finer grid the number needs more than 53 bits. -/
theorem Rounds.le_halfEven (h : Rounds m q x) (hm : Canonical m q) {p : Int} (hp : -1074 ≤ p)
    (hlt : p < q) : 2 ^ 53 ≤ halfEven (x / 2 ^ p) := by
  have hnormal : 2 ^ 52 ≤ m := hm.normal.resolve_right (by omega)
  have hbottom : (2 : ℚ) ^ 52 - 1 / 4 ≤ m - reach m q := by
    unfold reach
    by_cases hleast : m = 2 ^ 52
    · rw [if_pos ⟨hleast, by omega⟩, hleast]
      norm_num
    · have hnext : 2 ^ 52 + 1 ≤ m := by omega
      have hcast : (2 : ℚ) ^ 52 + 1 ≤ m := by exact_mod_cast hnext
      rw [if_neg fun hboth => hleast hboth.1]
      linarith
  have hdouble : (2 : ℚ) * 2 ^ p ≤ 2 ^ q := by
    rw [← zpow_one_add₀ (by norm_num)]
    exact zpow_le_zpow_right₀ (by norm_num) (by omega)
  have hpow : (0 : ℚ) < 2 ^ p := by positivity
  refine Decimal.le_halfEven (by norm_num) ((le_div_iff₀ hpow).mpr ?_)
  push_cast
  calc ((2 : ℚ) ^ 53 - 1 / 2) * 2 ^ p = (2 ^ 52 - 1 / 4) * (2 * 2 ^ p) := by ring
    _ ≤ (2 ^ 52 - 1 / 4) * 2 ^ q := by
        exact mul_le_mul_of_nonneg_left hdouble (by norm_num)
    _ ≤ (m - reach m q) * 2 ^ q := mul_le_mul_of_nonneg_right hbottom (by positivity)
    _ ≤ x := h.low

/-- The search goes on up to the grid of the double. -/
theorem Rounds.nearestFrom_eq (h : Rounds m q x) (hm : Canonical m q) (hx : 0 ≤ x) {p : Int}
    (hp : -1074 ≤ p) (hle : p ≤ q) {fuel : Nat} (hfuel : q - p < fuel) :
    nearestFrom x fuel p = some (m, q) := by
  induction fuel generalizing p with
  | zero => omega
  | succ fuel ih =>
      unfold nearestFrom
      dsimp only
      by_cases hsame : p = q
      · rw [hsame, h.halfEven_eq hx, if_pos hm.lt]
      · have hlarge := h.le_halfEven hm hp (by omega)
        rw [if_neg (by omega)]
        exact ih (by omega) (by omega) (by omega)

/-- A number that rounds to a double is read as that double. -/
theorem Rounds.nearest?_eq (h : Rounds m q x) (hm : Canonical m q) (hx : 0 ≤ x) :
    nearest? x = some (m, q) := by
  have hleast := hm.least
  have hmost := hm.most
  exact h.nearestFrom_eq hm hx (Int.le_refl _) hleast (by omega)

theorem rounds_of_lt (hlow : (m - reach m q) * 2 ^ q < x) (hhigh : x < (m + 1 / 2) * 2 ^ q) :
    Rounds m q x :=
  ⟨hlow.le, hhigh.le, .inr ⟨hlow, hhigh⟩⟩

/-- The number that a decimal stands for. -/
def Digits.value (d : Digits) : ℚ := d.digits * 10 ^ d.exponent

theorem tenTo_pos (p : Int) : 0 < tenTo p := Nat.pow_pos (by decide)

theorem zpow_mul_tenTo (p : Int) : (10 : ℚ) ^ p * tenTo (-p) = tenTo p := by
  have hcast : ∀ e : Int, ((tenTo e : ℕ) : ℚ) = 10 ^ (e.toNat : ℤ) := by
    intro e
    rw [tenTo, zpow_natCast]
    exact Nat.cast_pow 10 e.toNat
  rw [hcast, hcast, ← zpow_add₀ (by norm_num)]
  congr 1
  omega

namespace Interval

theorem denominator_pos (m : Nat) (q : Int) : 0 < (of m q).denominator := by
  simp only [of, Nat.shiftLeft_eq]
  positivity

/-- Quarters of the last bit, over the interval's denominator. -/
theorem shifted (n m : Nat) (q : Int) :
    ((n <<< (q - 2).toNat : ℕ) : ℚ) = n / 4 * 2 ^ q * (of m q).denominator := by
  have hpow : (2 : ℚ) ^ ((q - 2).toNat : ℤ) = 2 ^ q / 4 * 2 ^ ((2 - q).toNat : ℤ) := by
    rw [show (4 : ℚ) = 2 ^ (2 : ℤ) by norm_num, ← zpow_sub₀ (by norm_num),
      ← zpow_add₀ (by norm_num)]
    congr 1
    omega
  rw [zpow_natCast, zpow_natCast] at hpow
  simp only [of, Nat.shiftLeft_eq]
  push_cast
  rw [hpow]
  ring

theorem value_eq (m : Nat) (q : Int) :
    ((of m q).value : ℚ) = m * 2 ^ q * (of m q).denominator := by
  have h := shifted (4 * m) m q
  push_cast at h
  rw [show (4 : ℚ) * m / 4 = m by ring] at h
  exact h

theorem upper_eq (m : Nat) (q : Int) :
    ((of m q).upper : ℚ) = (m + 1 / 2) * 2 ^ q * (of m q).denominator := by
  have h := shifted (4 * m + 2) m q
  push_cast at h
  rw [show ((4 : ℚ) * m + 2) / 4 = m + 1 / 2 by ring] at h
  exact h

theorem lower_eq (hm : m ≠ 0) (q : Int) :
    ((of m q).lower : ℚ) = (m - reach m q) * 2 ^ q * (of m q).denominator := by
  have h := shifted (4 * m - if m = Binary64.hiddenBit ∧ q ≠ Binary64.leastExponent then 1 else 2)
    m q
  have hreach : ((4 * m - (if m = Binary64.hiddenBit ∧ q ≠ Binary64.leastExponent then 1 else 2) :
      ℕ) : ℚ) / 4 = m - reach m q := by
    rw [Nat.cast_sub (by split <;> omega)]
    unfold reach
    rw [Binary64.hiddenBit_eq, Binary64.leastExponent]
    split <;> push_cast <;> ring
  rw [hreach] at h
  exact h

/-- The interval of a double holds the numbers that round to it. -/
theorem within_iff (hm : m ≠ 0) {scale numerator : ℕ} (hscale : 0 < scale)
    (hx : x * (scale * (of m q).denominator) = numerator) :
    (of m q).within scale numerator = true ↔ Rounds m q x := by
  have hpos : (0 : ℚ) < scale * (of m q).denominator := by
    have hden := denominator_pos m q
    positivity
  have hlow : ((of m q).lower * scale : ℚ) =
      (m - reach m q) * 2 ^ q * (scale * (of m q).denominator) := by
    rw [lower_eq hm]
    ring
  have hhigh : ((of m q).upper * scale : ℚ) =
      (m + 1 / 2) * 2 ^ q * (scale * (of m q).denominator) := by
    rw [upper_eq]
    ring
  have hclosed : (of m q).closed = decide (m % 2 = 0) := rfl
  have hle : (of m q).lower * scale ≤ numerator ↔ (m - reach m q) * 2 ^ q ≤ x := by
    rw [← Nat.cast_le (α := ℚ), Nat.cast_mul, hlow, ← hx, mul_le_mul_iff_left₀ hpos]
  have hlt : (of m q).lower * scale < numerator ↔ (m - reach m q) * 2 ^ q < x := by
    rw [← Nat.cast_lt (α := ℚ), Nat.cast_mul, hlow, ← hx, mul_lt_mul_iff_left₀ hpos]
  have hle' : numerator ≤ (of m q).upper * scale ↔ x ≤ (m + 1 / 2) * 2 ^ q := by
    rw [← Nat.cast_le (α := ℚ), Nat.cast_mul, hhigh, ← hx, mul_le_mul_iff_left₀ hpos]
  have hlt' : numerator < (of m q).upper * scale ↔ x < (m + 1 / 2) * 2 ^ q := by
    rw [← Nat.cast_lt (α := ℚ), Nat.cast_mul, hhigh, ← hx, mul_lt_mul_iff_left₀ hpos]
  unfold within
  by_cases hparity : m % 2 = 0
  · rw [hclosed, if_pos (by simpa using hparity), decide_eq_true_eq, hle, hle']
    exact ⟨fun h => ⟨h.1, h.2, .inl hparity⟩, fun h => ⟨h.low, h.high⟩⟩
  · rw [hclosed, if_neg (by simpa using hparity), decide_eq_true_eq, hlt, hlt']
    exact ⟨fun h => rounds_of_lt h.1 h.2, fun h => h.inside.resolve_left hparity⟩

/-- A point of a decimal grid, tested as the search does. -/
theorem within_point (hm : m ≠ 0) (p : Int) (n : ℕ) :
    (of m q).within (tenTo (-p)) (n * ((of m q).denominator * tenTo p)) = true ↔
      Rounds m q (n * 10 ^ p) := by
  refine within_iff hm (tenTo_pos _) ?_
  push_cast
  rw [← zpow_mul_tenTo p]
  ring

theorem rounds_of_onGrid (hm : m ≠ 0) {p : Int} {n : ℕ} (h : (of m q).onGrid p = some n) :
    Rounds m q (n * 10 ^ p) := by
  unfold onGrid at h
  dsimp only at h
  split at h <;> rename_i hbelow habove
  · split at h <;> cases h
    · exact (within_point hm p _).mp hbelow
    · exact (within_point hm p _).mp habove
  · cases h
    exact (within_point hm p _).mp hbelow
  · cases h
    exact (within_point hm p _).mp habove
  · cases h

/-- The point of the grid at the number or next below it. -/
def below (i : Interval) (p : Int) : ℕ :=
  i.value * tenTo (-p) / (i.denominator * tenTo p)

/-- The number lies between two points of the grid. -/
theorem below_bounds (m : Nat) (q p : Int) :
    ((of m q).below p : ℚ) * 10 ^ p ≤ m * 2 ^ q ∧
      (m : ℚ) * 2 ^ q < ((of m q).below p + 1 : ℕ) * 10 ^ p := by
  have hunit : 0 < (of m q).denominator * tenTo p :=
    Nat.mul_pos (denominator_pos m q) (tenTo_pos p)
  have hscale : (0 : ℚ) < tenTo (-p) * (of m q).denominator := by
    have hden := denominator_pos m q
    have hten := tenTo_pos (-p)
    positivity
  have hpoint : ∀ n : ℕ, ((n * ((of m q).denominator * tenTo p) : ℕ) : ℚ) =
      n * 10 ^ p * (tenTo (-p) * (of m q).denominator) := by
    intro n
    push_cast
    rw [← zpow_mul_tenTo p]
    ring
  have hvalue : (((of m q).value * tenTo (-p) : ℕ) : ℚ) =
      m * 2 ^ q * (tenTo (-p) * (of m q).denominator) := by
    push_cast
    rw [value_eq]
    ring
  constructor
  · have h : (of m q).below p * ((of m q).denominator * tenTo p) ≤ (of m q).value * tenTo (-p) :=
      Nat.div_mul_le_self _ _
    rw [← Nat.cast_le (α := ℚ), hpoint, hvalue, mul_le_mul_iff_left₀ hscale] at h
    exact h
  · have h : (of m q).value * tenTo (-p) <
        ((of m q).below p + 1) * ((of m q).denominator * tenTo p) := by
      rw [Nat.succ_mul]
      exact Nat.lt_div_mul_add hunit
    rw [← Nat.cast_lt (α := ℚ), hpoint, hvalue, mul_lt_mul_iff_left₀ hscale] at h
    exact h

/-- A grid is passed over only if neither of the number's neighbours on it rounds to the double. -/
theorem not_rounds_of_onGrid (hm : m ≠ 0) {p : Int} (h : (of m q).onGrid p = none) :
    ¬ Rounds m q ((of m q).below p * 10 ^ p) ∧
      ¬ Rounds m q (((of m q).below p + 1 : ℕ) * 10 ^ p) := by
  rw [← within_point hm, ← within_point hm]
  unfold onGrid at h
  dsimp only at h
  split at h <;> rename_i hbelow habove
  · split at h <;> cases h
  · cases h
  · cases h
  · exact ⟨Bool.eq_false_iff.mp hbelow, Bool.eq_false_iff.mp habove⟩

/-- A grid that is finer than the interval is wide has a point in it. -/
theorem onGrid_ne_none (hm : m ≠ 0) {p : Int} (hp : (10 : ℚ) ^ p < (reach m q + 1 / 2) * 2 ^ q) :
    (of m q).onGrid p ≠ none := by
  intro hnone
  obtain ⟨hbelow, habove⟩ := not_rounds_of_onGrid hm hnone
  obtain ⟨hle, hlt⟩ := below_bounds m q p
  have hpow : (0 : ℚ) < 2 ^ q := by positivity
  have hreach : 0 < reach m q * 2 ^ q := by
    unfold reach
    split <;> positivity
  by_cases hnear : (m - reach m q) * 2 ^ q < (of m q).below p * 10 ^ p
  · exact hbelow (rounds_of_lt hnear (by linarith))
  · refine habove (rounds_of_lt (by linarith) ?_)
    push_cast
    linarith

/-- The search ends with a number that rounds to the double, if it meets such a grid. -/
theorem search_rounds (hm : m ≠ 0) {fuel : Nat} {p : Int} {j : Nat} (hj : j < fuel)
    (h : (of m q).onGrid (p - j) ≠ none) : Rounds m q ((of m q).search fuel p).value := by
  induction fuel generalizing p j with
  | zero => omega
  | succ fuel ih =>
      unfold search
      cases hgrid : (of m q).onGrid p with
      | some n => exact rounds_of_onGrid hm hgrid
      | none =>
          cases j with
          | zero => exact absurd hgrid (by simpa using h)
          | succ j =>
              refine ih (Nat.lt_of_succ_lt_succ hj) ?_
              rw [show p - 1 - (j : Int) = p - (j + 1 : Nat) by omega]
              exact h

theorem pow_length_le {n : ℕ} (h : 1 ≤ n) : 10 ^ ((Nat.toDigits 10 n).length - 1) ≤ n := by
  have hlength := Nat.length_toDigits_pos (b := 10) (n := n)
  by_cases hone : (Nat.toDigits 10 n).length = 1
  · rw [hone]
    exact h
  · by_contra hlt
    have hshort := (Nat.length_toDigits_le_iff (by decide) (by omega)).mpr (Nat.not_le.mp hlt)
    omega

/-- The number has so many digits before its point. -/
theorem le_of_magnitude (hm : m ≠ 0) :
    (10 : ℚ) ^ ((of m q).magnitude - 1) ≤ m * 2 ^ q := by
  have hden := denominator_pos m q
  have hden' : (0 : ℚ) < (of m q).denominator := by exact_mod_cast hden
  unfold magnitude
  split
  · rename_i hle
    let n := (of m q).value / (of m q).denominator
    have hpos : 1 ≤ n := (Nat.one_le_div_iff hden).mpr hle
    have hlength := Nat.length_toDigits_pos (b := 10) (n := n)
    have hdigits := pow_length_le hpos
    have hvalue : (n : ℚ) ≤ m * 2 ^ q := by
      have hmul : n * (of m q).denominator ≤ (of m q).value := Nat.div_mul_le_self _ _
      have hcast : (n : ℚ) * (of m q).denominator ≤ (of m q).value := by exact_mod_cast hmul
      rw [value_eq] at hcast
      exact le_of_mul_le_mul_right hcast hden'
    have hexponent : ((Nat.toDigits 10 n).length : Int) - 1 =
        ((Nat.toDigits 10 n).length - 1 : Nat) := by omega
    rw [hexponent, zpow_natCast]
    exact le_trans (by exact_mod_cast hdigits) hvalue
  · rename_i hlt
    let n := ((of m q).denominator - 1) / (of m q).value
    let j := (Nat.toDigits 10 n).length
    have hvalue : 0 < (of m q).value := by
      have hpos : (0 : ℚ) < (of m q).value := by
        rw [value_eq]
        positivity
      exact_mod_cast hpos
    have hn : n < 10 ^ j :=
      (Nat.length_toDigits_le_iff (by decide) Nat.length_toDigits_pos).mp (Nat.le_refl _)
    have hdigits : (of m q).denominator ≤ (of m q).value * 10 ^ j := by
      have h := (Nat.div_lt_iff_lt_mul hvalue).mp hn
      rw [Nat.mul_comm]
      omega
    have hcast : ((of m q).denominator : ℚ) ≤ (of m q).value * 10 ^ j := by
      exact_mod_cast hdigits
    rw [value_eq] at hcast
    rw [show (1 : Int) - j - 1 = -(j : Int) by omega, zpow_neg, zpow_natCast,
      inv_le_iff_one_le_mul₀ (by positivity)]
    refine le_of_mul_le_mul_right ?_ hden'
    linarith

end Interval

theorem Digits.value_strip (d : Digits) (fuel : Nat) : (strip fuel d).value = d.value := by
  induction fuel generalizing d with
  | zero => rfl
  | succ fuel ih =>
      unfold strip
      split
      · rename_i hzero
        rw [ih]
        have htens : d.digits = 10 * (d.digits / 10) := by omega
        simp only [value]
        rw [zpow_add_one₀ (by norm_num)]
        conv_rhs => rw [htens]
        push_cast
        ring
      · rfl

/-- Seventeen digits always suffice. -/
theorem shortest_rounds (h : Canonical m q) (hm : m ≠ 0) : Rounds m q (shortest m q).value := by
  rw [shortest, Digits.value_strip]
  refine Interval.search_rounds hm (show 16 < 17 by decide) (Interval.onGrid_ne_none hm ?_)
  have hmagnitude := Interval.le_of_magnitude hm (q := q)
  have hpow : (0 : ℚ) < 2 ^ q := by positivity
  have hgrid : (10 : ℚ) ^ ((Interval.of m q).magnitude - 1 - (16 : Nat)) =
      10 ^ ((Interval.of m q).magnitude - 1) / 10 ^ 16 := by
    rw [zpow_sub₀ (by norm_num), zpow_natCast]
  have hwide : (m : ℚ) / 10 ^ 16 < reach m q + 1 / 2 := by
    have hlt := h.lt
    unfold reach
    split
    · rename_i hnarrow
      rw [hnarrow.1]
      norm_num
    · have hcast : (m : ℚ) < 2 ^ 53 := by exact_mod_cast hlt
      rw [div_lt_iff₀ (by positivity)]
      linarith [show (2 : ℚ) ^ 53 ≤ (1 / 2 + 1 / 2) * 10 ^ 16 by norm_num]
  calc (10 : ℚ) ^ ((Interval.of m q).magnitude - 1 - (16 : Nat))
      ≤ m * 2 ^ q / 10 ^ 16 := by
        rw [hgrid]
        exact div_le_div_of_nonneg_right hmagnitude (by positivity)
    _ = m / 10 ^ 16 * 2 ^ q := by ring
    _ < (reach m q + 1 / 2) * 2 ^ q := mul_lt_mul_of_pos_right hwide hpow

/-- The shortest decimal of a double is read as the double. -/
theorem nearest?_shortest (h : Canonical m q) (hm : m ≠ 0) :
    nearest? (shortest m q).value = some (m, q) := by
  refine (shortest_rounds h hm).nearest?_eq h ?_
  unfold Digits.value
  positivity

end FormulaCompiler.Decimal
