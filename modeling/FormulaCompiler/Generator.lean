import FormulaCompiler.Fragment.Render
import FormulaCompiler.Pass.Pipeline
import FormulaCompiler.Settings
import FormulaCompiler.Text.Blank

/-!
# Generating units

A generator optimises a formula, renders it, draws a number for the unit and fills the skeleton.
The formula stays optimised. Field numbers that were drawn stay drawn also when no unit comes of
it; a unit number is only drawn once the formula is rendered. Cached reads are forgotten after
every unit.
-/

namespace FormulaCompiler

/-- A generated unit. -/
structure EvalUnit where
  name : String
  source : String
  deriving DecidableEq, Repr

namespace EvalUnit

/-- The namespace of all generated units. -/
def space : String := "fel_codegen"

def qualifiedName (u : EvalUnit) : String := space ++ "::" ++ u.name

end EvalUnit

/-- What turns formulas into units. -/
structure Generator where
  settings : Settings
  skeleton : Skeleton
  pipeline : Pipeline
  unitCounter : CounterId := .units
  fieldCounter : CounterId := .fields
  locals : ReadCache LocalRead

namespace Generator

/-- A generator with the default passes, as the settings have it. -/
def ofSettings (files : Files) (settings : Settings) : Except BuildError Generator := do
  let skeleton ← (settings.skeleton.load files).mapError .skeleton
  pure
    { settings
      skeleton
      pipeline := settings.disabled.foldl Pipeline.disable Pipeline.default
      locals := { stem := settings.localStem } }

/-- The generator drawing on other counters. -/
def withCounters (g : Generator) (unitCounter fieldCounter : CounterId) : Generator :=
  { g with unitCounter, fieldCounter }

/-- The generator with one more pass at the end. -/
def addPass (g : Generator) (pass : Pass) : Generator :=
  { g with pipeline := g.pipeline.add pass }

/-- The reads it holds; none between two units. -/
def cachedReads (g : Generator) : Nat := g.locals.size

/-- What generating a unit works on and may change. -/
structure Work where
  counters : Counters
  locals : ReadCache LocalRead
  tree : Tree

abbrev WorkM := EStateM BuildError Work

/-- Runs the passes on the formula. -/
def optimize (g : Generator) (ctx : Context) : WorkM PUnit := fun ⟨counters, locals, tree⟩ =>
  match g.pipeline.run ctx tree with
  | .ok _ tree => .ok ⟨⟩ ⟨counters, locals, tree⟩
  | .error e tree => .error e ⟨counters, locals, tree⟩

/-- Renders the formula's root, and queues the fields it needs. -/
def render (g : Generator) (ctx : Context) : WorkM (Fragment × FieldQueue) :=
    fun ⟨counters, locals, tree⟩ =>
  let start : RenderState := ⟨counters.get g.fieldCounter, ⟨g.settings.fieldStem, #[]⟩, locals⟩
  match tree.store.renderRoot ctx tree.root start with
  | .ok f ⟨counter, fields, locals⟩ =>
      .ok (f, fields) ⟨counters.set g.fieldCounter counter, locals, tree⟩
  | .error e ⟨counter, _, locals⟩ => .error e ⟨counters.set g.fieldCounter counter, locals, tree⟩

/-- Optimises and renders the formula. -/
def prepare (g : Generator) (ctx : Context) : WorkM (Fragment × FieldQueue) := do
  g.optimize ctx
  g.render ctx

/-- Refuses an expression without any text. -/
def requireText (expression : String) : WorkM PUnit := fun work =>
  if Text.isBlank expression then
    let label := ((work.tree.store.get? work.tree.root).map (·.label)).getD ""
    .error (.malformed .assemble work.tree.root label .emptyExpression) work
  else .ok ⟨⟩ work

/-- Draws the name of the unit. -/
def drawName (g : Generator) : WorkM String := fun ⟨counters, locals, tree⟩ =>
  match counters.next g.unitCounter with
  | .ok n counters => .ok (numbered g.settings.unitStem n) ⟨counters, locals, tree⟩
  | .error cause counters => .error (.clash cause) ⟨counters, locals, tree⟩

/-- The first name that also stands before itself, `seen` standing before the list. -/
def repeated? (seen : List String) : List String → Option String
  | [] => none
  | name :: rest => if name ∈ seen then some name else repeated? (name :: seen) rest

/-- Declarations, each on a line of its own behind the indent. -/
def block (indent : String) (declarations : List String) : String :=
  String.intercalate "\n" (declarations.map (indent ++ ·))

/-- What goes into a unit beside its name. -/
structure Contents where
  expression : String
  fields : List Field
  locals : List (CachedRead LocalRead)
  deriving DecidableEq, Repr

namespace Contents

/-- All names that are declared, in order. -/
def declared (c : Contents) : List String := c.fields.map (·.name) ++ c.locals.map (·.name)

/-- What fills the skeleton's slots. -/
def parts (c : Contents) (name : String) : Parts where
  unitName := name
  fields := block "    " (c.fields.map (·.declaration))
  locals := block "        " (c.locals.map (·.declaration))
  expression := c.expression

end Contents

/-- Puts the unit together with all fields of the queue, unless a field stays behind or a name is
declared twice. -/
def assemble (g : Generator) (name expression : String) (queue : FieldQueue)
    (locals : ReadCache LocalRead) : Except BuildError EvalUnit :=
  let (fields, left) := queue.drain
  if left.isEmpty then
    let contents : Contents := ⟨expression, fields, locals.toList⟩
    match repeated? [] contents.declared with
    | some twice => .error (.clash (.nameDeclared twice name))
    | none => .ok ⟨name, g.skeleton.fill (contents.parts name)⟩
  else .error (.clash (.fieldsLeft left.size name))

/-- Makes the unit of the formula at hand. -/
def produce (g : Generator) (ctx : Context) : WorkM EvalUnit := do
  let (f, queue) ← g.prepare ctx
  requireText f.text
  let name ← g.drawName
  fun work =>
    match g.assemble name f.text queue work.locals with
    | .ok unit => .ok unit work
    | .error e => .error e work

/-- What generating a unit gives and leaves behind. -/
structure Generation where
  result : Except BuildError EvalUnit
  generator : Generator
  counters : Counters
  tree : Tree

/-- What is left for the next unit: cached reads are forgotten. -/
def finish (g : Generator) (result : Except BuildError EvalUnit) (work : Work) : Generation :=
  ⟨result, { g with locals := work.locals.clear }, work.counters, work.tree⟩

/-- Generates the unit of a formula. -/
def generate (g : Generator) (ctx : Context) (counters : Counters) (tree : Tree) : Generation :=
  match g.produce ctx ⟨counters, g.locals, tree⟩ with
  | .ok unit work => g.finish (.ok unit) work
  | .error e work => g.finish (.error e) work

end Generator
end FormulaCompiler
