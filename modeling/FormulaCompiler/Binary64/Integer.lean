/-!
# Doubles and integers

The double nearest to a 64-bit integer, and the 64-bit integer that a double is before its point.
-/

namespace FormulaCompiler.Binary64

/-- The double nearest to an integer, the even one of two. -/
def floatOfInt (n : Int64) : Float := .ofModel (.ofInt64 n)

/-- A double without its fraction. It stops at the bounds, and NaN is zero. -/
def intOfFloat (x : Float) : Int64 := x.toModel.toInt64

end FormulaCompiler.Binary64
