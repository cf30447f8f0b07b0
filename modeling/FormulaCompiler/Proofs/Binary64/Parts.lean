import FormulaCompiler.Proofs.Binary64.Integer

/-!
# Doubles and their parts

The parts of a double determine it: put together they give its bits again, and of the many bit
patterns that are no number only one is a double here. The significand and the exponent of a finite
double are such as the format allows.
-/

namespace FormulaCompiler.Binary64

open Float.Model Float.Model.UnpackedFloat

/-- The significand and the exponent are those of a double: the significand has its leading bit,
except under the least exponent. -/
structure Canonical (significand : Nat) (exponent : Int) : Prop where
  lt : significand < 2 ^ 53
  least : -1074 ≤ exponent
  most : exponent ≤ 971
  normal : 2 ^ 52 ≤ significand ∨ exponent = -1074

theorem hiddenBit_eq : hiddenBit = 2 ^ 52 := rfl

theorem signBit_eq : signBit = 2 ^ 63 := rfl

variable {bits : Nat} {negative : Bool} {m : Nat} {q : Int}

/-- The bits of canonical parts: nothing has to be shifted. -/
theorem finiteBits_eq (h : Canonical m q) :
    finiteBits negative m q = (if negative then 2 ^ 63 else 0) +
      if m < 2 ^ 52 then m else ((q + 1074).toNat + 1) * 2 ^ 52 + (m - 2 ^ 52) := by
  have hroom : min (fractionBits - m.log2) (q - leastExponent).toNat = 0 := by
    rcases h.normal with hm | hq
    · rw [log2_of_bounds hm h.lt]
      exact Nat.zero_min _
    · rw [hq]
      exact Nat.min_zero _
  have hshift : q - leastExponent = q + 1074 := by simp [leastExponent]
  unfold finiteBits
  simp only [hroom, Nat.shiftLeft_zero, Nat.sub_zero, hiddenBit_eq, signBit_eq]
  rw [hshift]

/-- What the fields of a finite number are, and the bits that they make. -/
theorem finite_of_ofBits (hbits : bits < 2 ^ 64) (h : ofBits bits = .finite negative m q) :
    Canonical m q ∧ finiteBits negative m q = bits := by
  have hfraction : bits % hiddenBit < 2 ^ 52 := Nat.mod_lt _ (by decide)
  have hsplit : bits / hiddenBit * 2 ^ 52 + bits % hiddenBit = bits := by
    rw [hiddenBit_eq, Nat.mul_comm]
    exact Nat.div_add_mod ..
  unfold ofBits at h
  dsimp only at h
  split at h
  · split at h <;> cases h
  · rename_i hfinite
    split at h <;> rename_i hzero <;> cases h
    · have hcanonical : Canonical (bits % hiddenBit) leastExponent :=
        ⟨by omega, Int.le_refl _, by decide, .inr rfl⟩
      refine ⟨hcanonical, ?_⟩
      rw [finiteBits_eq hcanonical, if_pos hfraction, signBit_eq]
      simp only [decide_eq_true_eq]
      split <;> omega
    · have hexponent : leastExponent + ((bits / hiddenBit % 2048 : Nat) - 1 : Int) =
          (bits / hiddenBit % 2048 : Nat) - 1075 := by
        simp only [leastExponent]
        omega
      rw [hexponent, hiddenBit_eq] at *
      have hcanonical : Canonical (2 ^ 52 + bits % 2 ^ 52) ((bits / 2 ^ 52 % 2048 : Nat) - 1075) := by
        constructor <;> omega
      refine ⟨hcanonical, ?_⟩
      rw [finiteBits_eq hcanonical,
        if_neg (show ¬ 2 ^ 52 + bits % 2 ^ 52 < 2 ^ 52 by omega), signBit_eq]
      simp only [decide_eq_true_eq]
      split <;> omega

theorem infinite_of_ofBits (hbits : bits < 2 ^ 64) (h : ofBits bits = .infinite negative) :
    bits = if negative then 0xFFF0000000000000 else 0x7FF0000000000000 := by
  unfold ofBits at h
  dsimp only at h
  split at h
  · rename_i hfield
    split at h <;> rename_i hfraction <;> cases h
    rw [hiddenBit_eq] at hfield hfraction
    rw [signBit_eq]
    simp only [decide_eq_true_eq]
    split <;> omega
  · split at h <;> cases h

/-- Only one bit pattern stands for what is no number. -/
theorem toBits_of_nan {x : Float} (h : ofFloat x = .nan) : x.toBits = 0x7FF8000000000000 := by
  have hvalid := x.toModel.valid.eq_packedNaN
  unfold ofFloat ofBits at h
  dsimp only at h
  split at h
  · rename_i hfield
    split at h <;> rename_i hfraction
    · cases h
    · rw [hiddenBit_eq] at hfield hfraction
      have hexponent : (@unpackExponent .binary64 x.toModel.toBits.toBitVec).toNat =
          x.toBits.toNat / 2 ^ 52 % 2048 := by
        simp [unpackExponent, Nat.shiftRight_eq_div_pow, Float.toBits]
      have hmantissa : (@unpackMantissa .binary64 x.toModel.toBits.toBitVec).toNat =
          x.toBits.toNat % 2 ^ 52 := by
        simp [unpackMantissa, Float.toBits]
      have hpacked := hvalid (BitVec.eq_of_toNat_eq ?_) ?_
      · apply UInt64.toBitVec_inj.mp
        exact hpacked
      · rw [hexponent, hfield]
        rfl
      · intro hzero
        rw [hzero] at hmantissa
        exact hfraction hmantissa.symm
  · split at h <;> cases h

/-- The parts of a double make the double again. -/
theorem toFloat_ofFloat (x : Float) : (ofFloat x).toFloat = x := by
  have hbits : ∀ {bits : UInt64}, x.toBits = bits → Float.ofBits bits = x := by
    intro bits h
    rw [← h, Float.ofBits_toBits]
  cases h : ofFloat x with
  | nan => exact hbits (toBits_of_nan h)
  | infinite negative =>
      refine hbits (UInt64.toNat_inj.mp ?_)
      rw [infinite_of_ofBits x.toBits.toNat_lt h]
      cases negative <;> rfl
  | finite negative m q =>
      refine hbits ?_
      rw [(finite_of_ofBits x.toBits.toNat_lt h).2]
      exact (UInt64.ofNat_toNat).symm

end FormulaCompiler.Binary64
