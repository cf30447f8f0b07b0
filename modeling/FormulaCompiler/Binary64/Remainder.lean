import FormulaCompiler.Binary64.Basic

/-!
# The exact remainder of two doubles

`x - n * y` for the integer `n` nearest to zero that leaves less than `|y|`. It is always a double,
so no rounding takes place, and it carries the sign of the dividend.
-/

namespace FormulaCompiler.Binary64

/-- The remainder of a division that rounds its quotient toward zero. -/
def remainder : Binary64 → Binary64 → Binary64
  | .finite negative m p, .finite _ n q =>
      if n = 0 then .nan
      else
        let exponent := min p q
        let dividend := m <<< (p - exponent).toNat
        let divisor := n <<< (q - exponent).toNat
        .finite negative (dividend % divisor) exponent
  | .finite negative m p, .infinite _ => .finite negative m p
  | _, _ => .nan

/-- The remainder of two doubles. -/
def remainderFloat (x y : Float) : Float := ((ofFloat x).remainder (ofFloat y)).toFloat

end FormulaCompiler.Binary64
