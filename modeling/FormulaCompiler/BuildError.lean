import FormulaCompiler.Skeleton.Slot
import FormulaCompiler.Tree.Eval

/-!
# Why a unit cannot be built

A formula may be malformed, a skeleton may be unusable, or what is generated may not come out as it
has to. Each failure is recorded by its cause, and `BuildError.message` is the one place with its
wording.
-/

namespace FormulaCompiler

/-- The stage of a build that met a malformed formula. -/
inductive Stage where
  | optimize
  | render
  | assemble
  deriving DecidableEq, Repr

def Stage.name : Stage → String
  | .optimize => "optimize"
  | .render => "render"
  | .assemble => "assemble"

/-- What is wrong with a formula at one node. -/
inductive Defect where
  | missingNode
  | missingRoot
  | childCount (expected found : Nat)
  | evaluation (cause : EvalError)
  | untypedBinary (op : BinaryOp) (left right : Ty)
  | untypedUnary (op : UnaryOp) (operand : Ty)
  | cachedOperation
  | emptyExpression
  | cyclic
  | other (message : String)
  deriving DecidableEq, Repr

def Defect.message : Defect → String
  | .missingNode => "node does not exist"
  | .missingRoot => "root does not exist"
  | .childCount expected found =>
      "expected " ++ toString expected ++ " children, found " ++ toString found
  | .evaluation cause => cause.message
  | .untypedBinary op left right =>
      "`" ++ op.symbol ++ "` cannot be typed for " ++ left.name ++ " and " ++ right.name
  | .untypedUnary op operand => "`" ++ op.symbol ++ "` cannot be typed for " ++ operand.name
  | .cachedOperation => "cached read on a non-variable node"
  | .emptyExpression => "rendered to an empty expression"
  | .cyclic => "node contains itself"
  | .other message => message

/-- Why a file gives no text. -/
inductive FileError where
  | notFound
  | isDirectory
  | notText
  deriving DecidableEq, Repr

def FileError.message : FileError → String
  | .notFound => "No such file or directory (os error 2)"
  | .isDirectory => "Is a directory (os error 21)"
  | .notText => "stream did not contain valid UTF-8"

/-- Why a skeleton cannot be used. -/
inductive SkeletonError where
  | unreadable (path : String) (cause : FileError)
  | unterminated (offset : Nat)
  | unknown (token : String)
  | missing (slot : Slot)
  | other (message : String)
  deriving DecidableEq, Repr

def SkeletonError.message : SkeletonError → String
  | .unreadable path cause => "cannot read " ++ path ++ ": " ++ cause.message
  | .unterminated offset => "unterminated placeholder at byte " ++ toString offset
  | .unknown token => "unknown placeholder `" ++ Slot.mark token ++ "`"
  | .missing slot => "missing placeholder `" ++ slot.placeholder ++ "`"
  | .other message => message

/-- What has to hold of generated code and does not: names are kept apart, there is a number for each
of them, and no field stays behind. -/
inductive Clash where
  | readCached (text : String)
  | localDeclared (name : String)
  | nameDeclared (name unit : String)
  | numbersExhausted
  | localNumbersExhausted
  | fieldsLeft (count : Nat) (unit : String)
  | other (message : String)
  deriving DecidableEq, Repr

def Clash.message : Clash → String
  | .readCached text => "variable `" ++ text ++ "` cached twice in one session"
  | .localDeclared name => "local `" ++ name ++ "` declared twice in one session"
  | .nameDeclared name unit => "`" ++ name ++ "` declared twice in `" ++ unit ++ "`"
  | .numbersExhausted => "name counter exhausted"
  | .localNumbersExhausted => "local name counter exhausted"
  | .fieldsLeft count unit =>
      toString count ++ " hoisted constants left after assembling `" ++ unit ++ "`"
  | .other message => message

/-- Why a unit cannot be built. -/
inductive BuildError where
  | malformed (stage : Stage) (node : NodeId) (fragment : String) (defect : Defect)
  | skeleton (cause : SkeletonError)
  | clash (cause : Clash)
  deriving DecidableEq, Repr

namespace BuildError

def message : BuildError → String
  | .malformed stage node fragment defect =>
      stage.name ++ " failed at node " ++ node.display ++ " (`" ++ fragment ++ "`): " ++
        defect.message
  | .skeleton cause => "unit template unavailable: " ++ cause.message
  | .clash cause => "internal invariant violated: " ++ cause.message

/-- The stage that met a malformed formula. -/
def stage? : BuildError → Option Stage
  | .malformed stage .. => some stage
  | _ => none

/-- A walk that came back to a node it is still inside of. -/
def ofCycle (stage : Stage) (id : NodeId) : BuildError := .malformed stage id "" .cyclic

end BuildError

/-- What is wrong with a node, as a defect that a stage met there. -/
def Store.Misfit.buildError (stage : Stage) (id : NodeId) : Misfit → BuildError
  | .missing => .malformed stage id "" .missingNode
  | .childCount label expected found => .malformed stage id label (.childCount expected found)

/-- A node with its shape, or the defect that a stage met there. -/
def Store.inspectAt (s : Store) (stage : Stage) (id : NodeId) : Except BuildError (Node × Shape) :=
  (s.inspect id).mapError (·.buildError stage id)

end FormulaCompiler
