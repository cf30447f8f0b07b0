import FormulaCompiler.Decimal.Shortest

/-!
# Decimal texts of doubles

The digits are the shortest that read back. A layout decides where positional writing ends and
whether an integral number keeps a fraction.
-/

namespace FormulaCompiler.Decimal

/-- The decisions of a decimal text. -/
structure Layout where
  /-- Whether a number whose leading digit counts `10 ^ e` is written with an exponent. -/
  scientific : Int → Bool
  /-- Whether an integral number in positional writing ends in `.0`. -/
  fraction : Bool

namespace Layout

/-- Display text: always positional, integral numbers without a fraction. -/
def display : Layout := ⟨fun _ => false, false⟩

/-- Literal text: positional from `10 ^ -4` up to `10 ^ 16`, always told apart from an integer. -/
def literal : Layout := ⟨fun e => decide (e < -4 ∨ 16 ≤ e), true⟩

/-- `count` zeros. -/
def zeros (count : Int) : List Char := List.replicate count.toNat '0'

/-- The digits with the point at its place. -/
def positional (layout : Layout) (d : Digits) : List Char :=
  let digits := d.text
  let point := d.point
  if point ≤ 0 then '0' :: '.' :: zeros (-point) ++ digits
  else if digits.length ≤ point then
    digits ++ zeros (point - digits.length) ++ if layout.fraction then ['.', '0'] else []
  else digits.take point.toNat ++ '.' :: digits.drop point.toNat

/-- One digit before the point, the others after it, and the exponent. -/
def exponential (d : Digits) : List Char :=
  let digits := d.text
  let tail := digits.drop 1
  digits.take 1 ++ (if tail.isEmpty then [] else '.' :: tail) ++ 'e' ::
    (toString (d.point - 1)).toList

/-- The text of a number's magnitude. -/
def magnitude (layout : Layout) (significand : Nat) (exponent : Int) : List Char :=
  if significand = 0 then '0' :: if layout.fraction then ['.', '0'] else []
  else
    let d := shortest significand exponent
    if layout.scientific (d.point - 1) then exponential d else layout.positional d

/-- The text of a number. A NaN carries no sign. -/
def write (layout : Layout) : Binary64 → String
  | .nan => "NaN"
  | .infinite negative => if negative then "-inf" else "inf"
  | .finite negative significand exponent =>
      String.ofList ((if negative then ['-'] else []) ++ layout.magnitude significand exponent)

end Layout
end FormulaCompiler.Decimal
