import FormulaCompiler.Pass.Collapse
import FormulaCompiler.Pass.Folding
import FormulaCompiler.Pass.ReadCaching
import FormulaCompiler.Text.Quoted

/-!
# Pipelines of passes

Passes run one after the other, each on what the one before it left. A pass is disabled by its name,
which need not be the name of a pass in the pipeline.
-/

namespace FormulaCompiler

/-- Passes in order, and the names that are not to run. -/
structure Pipeline where
  passes : List Pass := []
  disabled : List String := []

namespace Pipeline

/-- Folding, collapsing, then caching. -/
def default : Pipeline := { passes := [.folding, .collapse, .readCaching] }

/-- Adds a pass at the end. -/
def add (p : Pipeline) (pass : Pass) : Pipeline := { p with passes := p.passes ++ [pass] }

def isEnabled (p : Pipeline) (name : String) : Bool := !p.disabled.contains name

def disable (p : Pipeline) (name : String) : Pipeline :=
  if p.isEnabled name then { p with disabled := p.disabled ++ [name] } else p

def enable (p : Pipeline) (name : String) : Pipeline :=
  { p with disabled := p.disabled.filter (· ≠ name) }

def size (p : Pipeline) : Nat := p.passes.length

def isEmpty (p : Pipeline) : Bool := p.passes.isEmpty

def passNames (p : Pipeline) : List String := p.passes.map (·.name)

/-- The passes that run. -/
def enabled (p : Pipeline) : List Pass := p.passes.filter fun pass => p.isEnabled pass.name

/-- Runs passes in order, up to the first failure. -/
def runAll (ctx : Context) : List Pass → EStateM BuildError Tree PUnit
  | [] => pure ⟨⟩
  | pass :: rest => do
      let _ ← pass.runOn ctx
      runAll ctx rest

/-- Runs the enabled passes on a formula. -/
def run (p : Pipeline) (ctx : Context) : EStateM BuildError Tree PUnit := runAll ctx p.enabled

/-- Quoted names between commas. -/
def quotedNames (names : List String) : String :=
  String.intercalate ", " (names.map Text.Quoted.quote)

/-- The pipeline in listings. -/
def debugText (p : Pipeline) : String :=
  "PassManager \x7b passes: [" ++ quotedNames p.passNames ++ "], disabled: \x7b" ++
    quotedNames p.disabled ++ "\x7d \x7d"

theorem isEnabled_disable (p : Pipeline) (name other : String) :
    (p.disable name).isEnabled other = (p.isEnabled other && other != name) := by
  unfold disable
  split <;> rename_i h <;> by_cases ho : other = name <;> simp_all [isEnabled]

theorem isEnabled_enable (p : Pipeline) (name other : String) :
    (p.enable name).isEnabled other = (p.isEnabled other || other == name) := by
  by_cases ho : other = name <;> simp_all [isEnabled, enable]

end Pipeline
end FormulaCompiler
