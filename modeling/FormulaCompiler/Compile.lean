import FormulaCompiler.Generator

/-!
# Compiling formulas

A loader turns a generated unit into something that can be run, or refuses it. It is asked once for
every unit that was generated.
-/

namespace FormulaCompiler

/-- Why a formula could not be compiled, with the loader's own reason if it was the loader. -/
inductive CompileError (ε : Type) where
  | generation (cause : BuildError)
  | loading (unit : String) (cause : ε)

/-- The failure in words, given the words of the loader's reason. -/
def CompileError.message {ε : Type} (reason : ε → String) : CompileError ε → String
  | .generation cause => cause.message
  | .loading unit cause => "loading `" ++ unit ++ "` failed: " ++ reason cause

/-- What compiling gives, beside the generation it came from. -/
structure Compilation (ε α : Type) where
  result : Except (CompileError ε) α
  generation : Generator.Generation

/-- Generates the unit of a formula and has it loaded. -/
def Generator.compile {m : Type → Type} [Monad m] {ε α : Type} (g : Generator)
    (load : EvalUnit → m (Except ε α)) (ctx : Context) (counters : Counters) (tree : Tree) :
    m (Compilation ε α) := do
  let generation := g.generate ctx counters tree
  match generation.result with
  | .error cause => pure ⟨.error (.generation cause), generation⟩
  | .ok unit => do
      let loaded ← load unit
      pure ⟨loaded.mapError (.loading unit.qualifiedName), generation⟩

end FormulaCompiler
