import FormulaCompiler.Binary64.Basic
import FormulaCompiler.Binary64.Integer
import FormulaCompiler.Binary64.Remainder
import FormulaCompiler.Bindings
import FormulaCompiler.BuildError
import FormulaCompiler.Compile
import FormulaCompiler.Counter
import FormulaCompiler.Decimal.Layout
import FormulaCompiler.Decimal.Shortest
import FormulaCompiler.Field
import FormulaCompiler.Fragment.Basic
import FormulaCompiler.Fragment.Render
import FormulaCompiler.Fragment.Typing
import FormulaCompiler.Generator
import FormulaCompiler.Operator.Apply
import FormulaCompiler.Operator.Basic
import FormulaCompiler.Pass.Basic
import FormulaCompiler.Pass.Collapse
import FormulaCompiler.Pass.Folding
import FormulaCompiler.Pass.Pipeline
import FormulaCompiler.Pass.ReadCaching
import FormulaCompiler.ReadCache
import FormulaCompiler.Settings
import FormulaCompiler.Skeleton.Basic
import FormulaCompiler.Skeleton.Slot
import FormulaCompiler.Skeleton.Source
import FormulaCompiler.Target.Code
import FormulaCompiler.Target.Type
import FormulaCompiler.Text.Blank
import FormulaCompiler.Text.CodeRanges
import FormulaCompiler.Text.GraphemeExtend
import FormulaCompiler.Text.Hidden
import FormulaCompiler.Text.Quoted
import FormulaCompiler.Text.Unassigned
import FormulaCompiler.Tree.Eval
import FormulaCompiler.Tree.Node
import FormulaCompiler.Tree.Store
import FormulaCompiler.Ty
import FormulaCompiler.Value
import FormulaCompiler.Proofs.Tree.Acyclic
import FormulaCompiler.Proofs.Tree.Evaluation
import FormulaCompiler.Proofs.Ends
import FormulaCompiler.Proofs.Naming
import FormulaCompiler.Proofs.Tree.Rewriting
import FormulaCompiler.Proofs.Pass.Optimizer
import FormulaCompiler.Proofs.Pass.Preservation
import FormulaCompiler.Proofs.Operator.Prediction
import FormulaCompiler.Proofs.Tree.Typing
import FormulaCompiler.Proofs.Tree.TypedEvaluation
import FormulaCompiler.Proofs.Pass.Prepared
import FormulaCompiler.Proofs.Fragment.Rendering
import FormulaCompiler.Proofs.Operator.Route
import FormulaCompiler.Proofs.Binary64.Integer
import FormulaCompiler.Proofs.Binary64.Parts
import FormulaCompiler.Proofs.Decimal.Natural
import FormulaCompiler.Proofs.Decimal.Nearest
import FormulaCompiler.Proofs.Decimal.Reading
import FormulaCompiler.Proofs.Pass.ContextFree
import FormulaCompiler.Proofs.Tree.Fitting
import FormulaCompiler.Proofs.Pass.Normal
import FormulaCompiler.Proofs.Pass.Repetition
import FormulaCompiler.Proofs.Generator.Recompiling
import FormulaCompiler.Proofs.Fragment.TwoPhase
import FormulaCompiler.Proofs.Fragment.Inference
import FormulaCompiler.Proofs.Tree.Retyping
import FormulaCompiler.Proofs.Pass.Routes
import FormulaCompiler.Proofs.Fragment.Outline
import FormulaCompiler.Proofs.Pass.Failure
import FormulaCompiler.Proofs.Generator.Session
import FormulaCompiler.Proofs.Generator.Determinism
import FormulaCompiler.Proofs.Generator.Outcome
import FormulaCompiler.Proofs.Generator.NameHistory
import FormulaCompiler.Proofs.Generator.ClosedFormula
import FormulaCompiler.Proofs.Skeleton.Reading
import FormulaCompiler.Proofs.Skeleton.RoundTrip
import FormulaCompiler.Proofs.Skeleton.Refusal
import FormulaCompiler.Proofs.Pass.ExactFolding
import FormulaCompiler.Proofs.Pass.FirstMisfit
import FormulaCompiler.Proofs.Pass.ExactCaching
import FormulaCompiler.Proofs.Fragment.Appending
import FormulaCompiler.Proofs.Text.Quoting
import FormulaCompiler.Proofs.Generator.Lines
import FormulaCompiler.Proofs.Target.Reading
import FormulaCompiler.Proofs.Target.RoundTrip
import FormulaCompiler.Proofs.Target.Legibility
import FormulaCompiler.Proofs.Target.Typing
import FormulaCompiler.Proofs.Target.Semantics
import FormulaCompiler.Proofs.Target.Correctness
import FormulaCompiler.Proofs.Tree.IntegerEvaluation
import FormulaCompiler.Proofs.Transcript
import FormulaCompiler.Proofs.ReadCache.Consistency
import FormulaCompiler.Proofs.FieldQueue.Interleaving
import FormulaCompiler.Proofs.Fragment.Places
import FormulaCompiler.Proofs.Generator.WidenedLocals
import FormulaCompiler.Proofs.Walk.Course
import FormulaCompiler.Proofs.Walk.Termination
