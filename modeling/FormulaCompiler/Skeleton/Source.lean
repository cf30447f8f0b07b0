import FormulaCompiler.Skeleton.Basic

/-!
# Where skeletons come from

A skeleton is the built-in one, a text at hand or a file.
-/

namespace FormulaCompiler

/-- The text of the built-in skeleton: a type that holds a context, with its fields, a constructor
and the evaluating function. -/
def Skeleton.builtinText : String :=
  String.intercalate "\n"
    ["// Generated by fel_codegen. Do not edit.",
     "#![allow(",
     "    non_camel_case_types,",
     "    non_upper_case_globals,",
     "    unused_parens,",
     "    unused_variables,",
     "    clippy::all,",
     "    clippy::pedantic",
     ")]",
     "",
     "use fel_ir::\x7bContext, Value\x7d;",
     "",
     "pub struct $\x7bunit_name\x7d<'ctx> \x7b",
     "    ctx: &'ctx dyn Context,",
     "\x7d",
     "",
     "impl<'ctx> $\x7bunit_name\x7d<'ctx> \x7b",
     "$\x7bfields\x7d",
     "",
     "    pub fn new(ctx: &'ctx dyn Context) -> Self \x7b",
     "        Self \x7b ctx \x7d",
     "    \x7d",
     "",
     "    pub fn eval(&self) -> Value \x7b",
     "        let ctx = self.ctx;",
     "$\x7blocals\x7d",
     "        Value::from($\x7bexpression\x7d)",
     "    \x7d",
     "\x7d",
     ""]

/-- What reading a file gives. -/
abbrev Files := String → Except FileError ByteArray

/-- The text of a file. -/
def Files.readText (files : Files) (path : String) : Except FileError String := do
  let bytes ← files path
  match String.fromUTF8? bytes with
  | some text => pure text
  | none => throw .notText

/-- Where a skeleton comes from. -/
inductive SkeletonSource where
  | builtin
  | inline (text : String)
  | file (path : String)
  deriving DecidableEq, Repr, Inhabited

/-- Reads the skeleton. -/
def SkeletonSource.load (files : Files) : SkeletonSource → Except SkeletonError Skeleton
  | .builtin => Skeleton.parse Skeleton.builtinText
  | .inline text => Skeleton.parse text
  | .file path => do
      let text ← (files.readText path).mapError (.unreadable path)
      Skeleton.parse text

end FormulaCompiler
