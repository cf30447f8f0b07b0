/-!
# Binary floating-point numbers taken apart

A finite double is a sign and a natural significand times a power of two. Everything exact about
doubles, their decimal digits and their remainders, is computed on these parts.
-/

namespace FormulaCompiler

/-- What a double stands for. A finite one is `± significand * 2 ^ exponent`. -/
inductive Binary64 where
  | nan
  | infinite (negative : Bool)
  | finite (negative : Bool) (significand : Nat) (exponent : Int)
  deriving DecidableEq, Repr

namespace Binary64

/-- The bits below the exponent field. -/
def fractionBits : Nat := 52

/-- The exponent of the least significand bit of the smallest doubles. -/
def leastExponent : Int := -1074

/-- A normal significand has this leading bit, which the format leaves out. -/
def hiddenBit : Nat := 1 <<< fractionBits

/-- The bit that marks a negative number. -/
def signBit : Nat := 1 <<< 63

/-- Reads the fields of the 64 bits. -/
def ofBits (bits : Nat) : Binary64 :=
  let negative := decide (signBit ≤ bits)
  let biased := bits / hiddenBit % 2048
  let fraction := bits % hiddenBit
  if biased = 2047 then
    if fraction = 0 then .infinite negative else .nan
  else if biased = 0 then .finite negative fraction leastExponent
  else .finite negative (hiddenBit + fraction) (leastExponent + (biased - 1))

/-- The parts of a double. -/
def ofFloat (x : Float) : Binary64 := ofBits x.toBits.toNat

/-- The bits of a finite number whose significand is below `2 ^ 53` and whose exponent is at least
the least one. A significand is doubled until it is normal or the exponent is the least one. -/
def finiteBits (negative : Bool) (significand : Nat) (exponent : Int) : Nat :=
  let room := min (fractionBits - significand.log2) (exponent - leastExponent).toNat
  let significand := significand <<< room
  let biased := (exponent - leastExponent).toNat - room + 1
  (if negative then signBit else 0) +
    (if significand < hiddenBit then significand
      else biased * hiddenBit + (significand - hiddenBit))

/-- The double with the given parts. -/
def toFloat : Binary64 → Float
  | .nan => Float.ofBits 0x7FF8000000000000
  | .infinite negative =>
      Float.ofBits (if negative then 0xFFF0000000000000 else 0x7FF0000000000000)
  | .finite negative significand exponent =>
      Float.ofBits (finiteBits negative significand exponent).toUInt64

end Binary64
end FormulaCompiler
