import FormulaCompiler.Binary64.Basic

/-!
# The fewest decimal digits that read back

The reals that round to `m * 2 ^ q` form an interval around it. Among the decimal grids
`10 ^ p`, the coarsest with a point in that interval gives the digits, and on it the point nearest
to the number. All comparisons are between naturals.
-/

namespace FormulaCompiler.Decimal

/-- A positive decimal `digits * 10 ^ exponent`. -/
structure Digits where
  digits : Nat
  exponent : Int
  deriving DecidableEq, Repr

namespace Digits

/-- The decimal digits, most significant first. -/
def text (d : Digits) : List Char := Nat.toDigits 10 d.digits

/-- How many of the digits stand before the point; negative when zeros follow the point first. -/
def point (d : Digits) : Int := d.text.length + d.exponent

/-- Moves trailing zeros of the digits into the exponent, at most `fuel` of them. -/
def strip : Nat → Digits → Digits
  | 0, d => d
  | fuel + 1, d =>
      if d.digits % 10 = 0 then strip fuel ⟨d.digits / 10, d.exponent + 1⟩ else d

end Digits

/-- The power of ten with this exponent, one when it is negative. -/
def tenTo (exponent : Int) : Nat := Nat.pow 10 exponent.toNat

/-- The reals that round to a positive double, and the double itself, over one denominator. -/
structure Interval where
  lower : Nat
  value : Nat
  upper : Nat
  denominator : Nat
  /-- Whether the ends round to the number as well. -/
  closed : Bool

namespace Interval

/-- The interval of `significand * 2 ^ exponent`. The gap below a power of two is half as wide,
unless the exponent is already the least one. -/
def of (significand : Nat) (exponent : Int) : Interval :=
  let narrow := significand = Binary64.hiddenBit ∧ exponent ≠ Binary64.leastExponent
  let shift := (exponent - 2).toNat
  { lower := (4 * significand - if narrow then 1 else 2) <<< shift
    value := (4 * significand) <<< shift
    upper := (4 * significand + 2) <<< shift
    denominator := 1 <<< (2 - exponent).toNat
    closed := significand % 2 = 0 }

/-- The least `k` with the number below `10 ^ k`. -/
def magnitude (i : Interval) : Int :=
  if i.denominator ≤ i.value then (Nat.toDigits 10 (i.value / i.denominator)).length
  else 1 - (Nat.toDigits 10 ((i.denominator - 1) / i.value)).length

/-- Whether a real rounds to the number, its numerator taken over `scale` times the denominator. -/
def within (i : Interval) (scale numerator : Nat) : Bool :=
  if i.closed then decide (i.lower * scale ≤ numerator ∧ numerator ≤ i.upper * scale)
  else decide (i.lower * scale < numerator ∧ numerator < i.upper * scale)

/-- The point of the grid `10 ^ p` that lies in the interval, the nearer of the number's two
neighbours if both do and the upper one on a tie. -/
def onGrid (i : Interval) (p : Int) : Option Nat :=
  let scale := tenTo (-p)
  let unit := i.denominator * tenTo p
  let value := i.value * scale
  let below := value / unit
  let above := below + 1
  match i.within scale (below * unit), i.within scale (above * unit) with
  | true, true =>
      if value - below * unit < above * unit - value then some below else some above
  | true, false => some below
  | false, true => some above
  | false, false => none

/-- Tries grids of one digit more each time, at most `fuel` of them. -/
def search (i : Interval) : Nat → Int → Digits
  | 0, p => ⟨i.value * tenTo (-p) / (i.denominator * tenTo p), p⟩
  | fuel + 1, p =>
      match i.onGrid p with
      | some n => ⟨n, p⟩
      | none => i.search fuel (p - 1)

end Interval

/-- The shortest decimal that rounds to the positive double `significand * 2 ^ exponent`. Seventeen
digits always suffice. -/
def shortest (significand : Nat) (exponent : Int) : Digits :=
  let i := Interval.of significand exponent
  (i.search 17 (i.magnitude - 1)).strip 17

end FormulaCompiler.Decimal
