import FormulaCompiler.Skeleton.Source

/-!
# Settings of a generator

The stems of generated names, the skeleton of units and the passes that are not to run.
-/

namespace FormulaCompiler

/-- How a generator names and builds its units. -/
structure Settings where
  unitStem : String := "Fel_"
  fieldStem : String := "attr_"
  localStem : String := "var_"
  skeleton : SkeletonSource := .builtin
  disabled : List String := []
  deriving DecidableEq, Repr, Inhabited

namespace Settings

/-- The environment variable that names a skeleton file. -/
def skeletonVariable : String := "FEL_UNIT_TEMPLATE"

/-- The default settings, with the skeleton file that the environment names, if any. -/
def ofEnvironment (skeletonPath : Option String) : Settings :=
  match skeletonPath with
  | none | some "" => {}
  | some path => { skeleton := .file path }

/-- The settings with one more pass disabled. -/
def without (s : Settings) (pass : String) : Settings :=
  { s with disabled := s.disabled ++ [pass] }

end Settings
end FormulaCompiler
