import FormulaCompiler.Binary64.Basic
import FormulaCompiler.Binary64.Integer
import Mathlib

/-!
# Integers that are doubles

Up to `2 ^ 53` every integer is a double: converting it there and back gives the integer again, and
the parts of the double are known. The proof follows the conversion through rounding, which has
nothing to drop, and packing. Larger integers, of which some are doubles too, are not considered.
-/

namespace FormulaCompiler.Binary64

open Float.Model Float.Model.UnpackedFloat

/-- How far a natural below `2 ^ 53` is shifted to become a normal significand. -/
def room (m : Nat) : Nat := 52 - m.log2

/-- The normal significand of a natural below `2 ^ 53`. -/
def normal (m : Nat) : Nat := m <<< room m

theorem log2_le {m : Nat} (h0 : m ≠ 0) (h : m < 2 ^ 53) : m.log2 ≤ 52 :=
  Nat.lt_succ_iff.mp ((Nat.log2_lt h0).mpr h)

theorem normal_eq (m : Nat) : normal m = m * 2 ^ room m := Nat.shiftLeft_eq m (room m)

theorem normal_bounds {m : Nat} (h0 : m ≠ 0) (h : m < 2 ^ 53) :
    2 ^ 52 ≤ normal m ∧ normal m < 2 ^ 53 := by
  have hl := log2_le h0 h
  have hlo : 2 ^ m.log2 * 2 ^ room m ≤ m * 2 ^ room m :=
    Nat.mul_le_mul_right _ (Nat.log2_self_le h0)
  have hhi : m * 2 ^ room m < 2 ^ (m.log2 + 1) * 2 ^ room m :=
    Nat.mul_lt_mul_of_pos_right Nat.lt_log2_self (Nat.two_pow_pos _)
  rw [← Nat.pow_add, show m.log2 + room m = 52 by unfold room; omega] at hlo
  rw [← Nat.pow_add, show m.log2 + 1 + room m = 53 by unfold room; omega] at hhi
  rw [normal_eq]
  exact ⟨hlo, hhi⟩

theorem log2_of_bounds {m : Nat} (hm : 2 ^ 52 ≤ m) (hm' : m < 2 ^ 53) : m.log2 = 52 :=
  (Nat.log2_eq_iff (by omega)).mpr ⟨hm, hm'⟩

/-- A significand of full width is at its place already, and rounding keeps it. -/
theorem roundWithAccuracy_normal (sign : Sign) {m : Nat} (hm : 2 ^ 52 ≤ m) (hm' : m < 2 ^ 53)
    {e : Int} (he : -1074 ≤ e) :
    roundWithAccuracy .binary64 sign m e .exact =
      .finite sign m e (by omega) := by
  have hlog := log2_of_bounds hm hm'
  have htarget : Format.binary64.targetExponent (totalExponent m e) = e := by
    simp only [Format.targetExponent, totalExponent, hlog, Format.mantissaBits, Format.minExponent]
    omega
  have hshift : shiftToTargetExponent .binary64 m e .exact = (⟨m, false, false⟩, e) := by
    simp only [shiftToTargetExponent, htarget, shiftToExponent, Int.sub_self, Int.toNat_zero]
    exact Prod.ext rfl (Int.add_zero e)
  have hround : (ExtendedMantissa.mk m false false).roundedMantissa = m := rfl
  unfold roundWithAccuracy
  simp only [hshift, hround]
  rw [dif_neg (by omega)]

theorem round_natural (sign : Sign) {m : Nat} (h0 : m ≠ 0) (h : m < 2 ^ 53) :
    UnpackedFloat.round .binary64 sign m 0 =
      .finite sign (normal m) (-(room m : Int)) (by have := (normal_bounds h0 h).1; omega) := by
  have hl := log2_le h0 h
  have htarget : Format.binary64.targetExponent (totalExponent m 0) = -(room m : Int) := by
    simp only [Format.targetExponent, totalExponent, Format.mantissaBits, Format.minExponent, room]
    omega
  have hdecrease : decreaseExponent m 0 (-(room m : Int)) = (normal m, -(room m : Int)) := by
    simp [decreaseExponent, normal]
  unfold UnpackedFloat.round
  simp only [htarget, hdecrease]
  obtain ⟨hlo, hhi⟩ := normal_bounds h0 h
  exact roundWithAccuracy_normal sign hlo hhi (by unfold room; omega)

/-- The bits of a double are its three fields, one above the other. -/
theorem toNat_packComponents (sign : Sign) (e : BitVec 11) (m : BitVec 52) :
    (packComponents .binary64 sign e m).toNat =
      (sign.toBitVec.toNat * 2 ^ 11 + e.toNat) * 2 ^ 52 + m.toNat := by
  unfold packComponents
  rw [BitVec.toNat_append, BitVec.toNat_append, ← Nat.shiftLeft_add_eq_or_of_lt e.isLt,
    ← Nat.shiftLeft_add_eq_or_of_lt m.isLt, Nat.shiftLeft_eq, Nat.shiftLeft_eq]

/-- The exponent field of a significand at an exponent. -/
def field (e : Int) : Nat := (e + 1075).toNat

theorem toNat_field {e : Int} (he' : e ≤ 971) : (BitVec.ofNat 11 (field e)).toNat = field e := by
  rw [BitVec.toNat_ofNat, Nat.mod_eq_of_lt (by unfold field; omega)]

theorem pack_normal (sign : Sign) {m : Nat} (hm : 2 ^ 52 ≤ m) (hm' : m < 2 ^ 53) {e : Int}
    (he : -1074 ≤ e) (he' : e ≤ 971) :
    UnpackedFloat.pack .binary64 (.finite sign m e (by omega)) =
      packComponents .binary64 sign (BitVec.ofNat 11 (field e)) (BitVec.ofNat 52 m) := by
  have hlog := log2_of_bounds hm hm'
  have hfield : (e + Format.binary64.exponentBias +
      Format.binary64.mantissaBitsWithoutImplicit).toNat = field e := by
    simp only [Format.exponentBias, field]
    omega
  unfold UnpackedFloat.pack
  simp only [hfield, hlog]
  rw [if_neg (by unfold field; omega), if_pos (by rfl)]

theorem toNat_pack_normal (sign : Sign) {m : Nat} (hm : 2 ^ 52 ≤ m) (hm' : m < 2 ^ 53) {e : Int}
    (he : -1074 ≤ e) (he' : e ≤ 971) :
    (UnpackedFloat.pack .binary64 (.finite sign m e (by omega))).toNat =
      (sign.toBitVec.toNat * 2 ^ 11 + field e) * 2 ^ 52 + (m - 2 ^ 52) := by
  have hmantissa : (BitVec.ofNat 52 m).toNat = m - 2 ^ 52 := by
    rw [BitVec.toNat_ofNat]
    omega
  rw [pack_normal sign hm hm' he he', toNat_packComponents, toNat_field he', hmantissa]

/-- Packing and unpacking keep a normal number. -/
theorem unpack_pack_normal (sign : Sign) {m : Nat} (hm : 2 ^ 52 ≤ m) (hm' : m < 2 ^ 53) {e : Int}
    (he : -1074 ≤ e) (he' : e ≤ 971) :
    UnpackedFloat.unpack .binary64 (UnpackedFloat.pack .binary64 (.finite sign m e (by omega))) =
      .finite sign m e (by omega) := by
  have hfield := toNat_field he'
  -- The two exponent fields that do not belong to normal numbers.
  have hspecial : ∀ b : BitVec 11, b.toNat = 2047 ∨ b.toNat = 0 →
      BitVec.ofNat 11 (field e) ≠ b := by
    intro b hb h
    rw [← h, hfield] at hb
    unfold field at hb
    omega
  have hone := hspecial (-1#11) (.inl rfl)
  have hzero := hspecial 0#11 (.inr rfl)
  have hmantissa : (1#1 ++ BitVec.ofNat 52 m).toNat = m := by
    rw [BitVec.toNat_append, ← Nat.shiftLeft_add_eq_or_of_lt (BitVec.ofNat 52 m).isLt,
      Nat.shiftLeft_eq, BitVec.toNat_ofNat]
    simp
    omega
  rw [pack_normal sign hm hm' he he']
  unfold UnpackedFloat.unpack
  simp only [unpackExponent_packComponents, unpackMantissa_packComponents,
    unpackSign_packComponents, Sign.ofBitVec_toBitVec]
  rw [if_neg hone, if_neg hzero, UnpackedFloat.finite.injEq]
  refine ⟨rfl, hmantissa, ?_⟩
  rw [hfield]
  change (field e : Int) - (1023 + 52) = e
  unfold field
  omega

/-- The sign of an integer. -/
def signOf (n : Int) : Sign := if n < 0 then .negative else .positive

theorem signOf_apply (n : Int) : (signOf n).apply n.natAbs = n := by
  unfold signOf
  split
  · change -(n.natAbs : Int) = n
    omega
  · change (n.natAbs : Int) = n
    omega

theorem ofInt_eq {n : Int} (h0 : n ≠ 0) (h : n.natAbs < 2 ^ 53) :
    UnpackedFloat.ofInt .binary64 n =
      .finite (signOf n) (normal n.natAbs) (-(room n.natAbs : Int))
        (by have := (normal_bounds (Int.natAbs_ne_zero.mpr h0) h).1; omega) := by
  have hr := fun sign => round_natural sign (Int.natAbs_ne_zero.mpr h0) h
  unfold UnpackedFloat.ofInt UnpackedFloat.normalize
  rcases Int.lt_trichotomy n 0 with hn | hn | hn
  · have habs : (-n).toNat = n.natAbs := by omega
    rw [compare_lt_iff_lt.mpr hn]
    simp only [habs, hr, signOf, if_pos hn]
  · exact absurd hn h0
  · have habs : n.toNat = n.natAbs := by omega
    rw [compare_gt_iff_gt.mpr hn]
    simp only [habs, hr, signOf, if_neg (by omega : ¬ n < 0)]

theorem mantissa_shiftRight (m : ExtendedMantissa) (k : Nat) :
    (m >>> k).mantissa = m.mantissa / 2 ^ k := by
  change (k.repeat ExtendedMantissa.shiftRightOne m).mantissa = _
  induction k with
  | zero => simp [Nat.repeat]
  | succ k ih =>
      change (k.repeat ExtendedMantissa.shiftRightOne m).mantissa / 2 = _
      rw [ih, Nat.div_div_eq_div_mul, Nat.pow_succ]

/-- Shifting a normal significand back gives the natural it came from. -/
theorem roundToInt_normal (sign : Sign) (m : Nat) :
    roundToInt sign (normal m) (-(room m : Int)) = sign.apply m := by
  have hdecrease : decreaseExponent (normal m) (-(room m : Int)) 0 =
      (normal m, -(room m : Int)) := by
    simp [decreaseExponent]
  have hshift : (0 - -(room m : Int)).toNat = room m := by omega
  unfold roundToInt
  simp only [hdecrease, shiftToExponent, hshift, mantissa_shiftRight]
  change sign.apply ((normal m / 2 ^ room m : Nat) : Int) = _
  rw [normal_eq, Nat.mul_div_cancel _ (Nat.two_pow_pos _)]

theorem unpack_floatOfInt {n : Int64} (h0 : n.toInt ≠ 0) (h : n.toInt.natAbs < 2 ^ 53) :
    (floatOfInt n).toModel.unpack =
      .finite (signOf n.toInt) (normal n.toInt.natAbs) (-(room n.toInt.natAbs : Int))
        (by have := (normal_bounds (Int.natAbs_ne_zero.mpr h0) h).1; omega) := by
  obtain ⟨hlo, hhi⟩ := normal_bounds (Int.natAbs_ne_zero.mpr h0) h
  change UnpackedFloat.unpack .binary64 (UnpackedFloat.pack .binary64
    (UnpackedFloat.ofInt .binary64 n.toInt)) = _
  rw [ofInt_eq h0 h]
  exact unpack_pack_normal _ hlo hhi (by unfold room; omega) (by omega)

/-- Zero and the two bounds are left when the integers of the general case are taken away. -/
theorem cases_of_le {n : Int64} (h : n.toInt.natAbs ≤ 2 ^ 53) :
    (n.toInt ≠ 0 ∧ n.toInt.natAbs < 2 ^ 53) ∨ n = 0 ∨ n = 9007199254740992 ∨
      n = -9007199254740992 := by
  have inj : ∀ m : Int64, n.toInt = m.toInt → n = m := fun m => Int64.toInt.inj
  by_cases h0 : n.toInt = 0
  · exact .inr (.inl (inj 0 h0))
  · rcases Nat.lt_or_eq_of_le h with h | h
    · exact .inl ⟨h0, h⟩
    · rcases Int.natAbs_eq_iff.mp h with h | h
      · exact .inr (.inr (.inl (inj _ h)))
      · exact .inr (.inr (.inr (inj _ h)))

/-- Up to `2 ^ 53`, an integer comes back from its double. -/
theorem intOfFloat_floatOfInt {n : Int64} (h : n.toInt.natAbs ≤ 2 ^ 53) :
    intOfFloat (floatOfInt n) = n := by
  rcases cases_of_le h with ⟨h0, h⟩ | rfl | rfl | rfl
  · change Int64.ofIntClamp ((floatOfInt n).toModel.unpack.toInt _ _) = n
    rw [unpack_floatOfInt h0 h]
    change Int64.ofIntClamp (roundToInt _ _ _) = n
    rw [roundToInt_normal, signOf_apply, Int64.ofIntClamp_toInt]
  · decide +kernel
  · decide +kernel
  · decide +kernel

-- The bound is sharp: the next integer has no double of its own.
example : intOfFloat (floatOfInt 9007199254740993) = 9007199254740992 := by decide +kernel

/-- Reading the three fields of a normal number. -/
theorem ofBits_normal {b f m : Nat} (hb : b ≤ 1) (hf : 1 ≤ f) (hf' : f ≤ 2046) (hm : 2 ^ 52 ≤ m)
    (hm' : m < 2 ^ 53) :
    ofBits ((b * 2 ^ 11 + f) * 2 ^ 52 + (m - 2 ^ 52)) =
      .finite (decide (b = 1)) m (leastExponent + ((f : Int) - 1)) := by
  have hhidden : hiddenBit = 2 ^ 52 := rfl
  have hsign : signBit = 2 ^ 63 := rfl
  have hbiased : ((b * 2 ^ 11 + f) * 2 ^ 52 + (m - 2 ^ 52)) / hiddenBit % 2048 = f := by
    rw [hhidden]
    omega
  have hfraction : ((b * 2 ^ 11 + f) * 2 ^ 52 + (m - 2 ^ 52)) % hiddenBit = m - 2 ^ 52 := by
    rw [hhidden]
    omega
  have hnegative : signBit ≤ (b * 2 ^ 11 + f) * 2 ^ 52 + (m - 2 ^ 52) ↔ b = 1 := by
    rw [hsign]
    omega
  unfold ofBits
  simp only [hbiased, hfraction, hnegative]
  rw [if_neg (by omega), if_neg (by omega), hhidden, Nat.add_sub_cancel' hm]

/-- The parts of the double of an integer. -/
theorem ofFloat_floatOfInt {n : Int64} (h0 : n.toInt ≠ 0) (h : n.toInt.natAbs < 2 ^ 53) :
    ofFloat (floatOfInt n) =
      .finite (decide (n.toInt < 0)) (normal n.toInt.natAbs) (-(room n.toInt.natAbs : Int)) := by
  obtain ⟨hlo, hhi⟩ := normal_bounds (Int.natAbs_ne_zero.mpr h0) h
  have hroom : room n.toInt.natAbs ≤ 52 := by unfold room; omega
  have hbits : (floatOfInt n).toBits.toNat =
      ((signOf n.toInt).toBitVec.toNat * 2 ^ 11 + field (-(room n.toInt.natAbs : Int))) * 2 ^ 52 +
        (normal n.toInt.natAbs - 2 ^ 52) := by
    change (UnpackedFloat.pack .binary64 (UnpackedFloat.ofInt .binary64 n.toInt)).toNat = _
    rw [ofInt_eq h0 h]
    exact toNat_pack_normal _ hlo hhi (by omega) (by omega)
  have hsign : decide ((signOf n.toInt).toBitVec.toNat = 1) = decide (n.toInt < 0) := by
    unfold signOf
    split <;> rename_i hn <;> simp [Sign.toBitVec, hn]
  rw [ofFloat, hbits, ofBits_normal (by have := (signOf n.toInt).toBitVec.isLt; omega)
    (by unfold field; omega) (by unfold field; omega) hlo hhi, hsign]
  congr 1
  unfold field leastExponent
  omega

end FormulaCompiler.Binary64
