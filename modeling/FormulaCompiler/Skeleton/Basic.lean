import FormulaCompiler.BuildError

/-!
# Skeletons of units

A skeleton is fixed text with slots. Its text is read once into pieces; filling it puts the pieces
together, so that what fills a slot is never searched for placeholders.
-/

namespace FormulaCompiler

/-- A piece of a skeleton: fixed text or a slot. -/
inductive Piece where
  | text (s : String)
  | slot (s : Slot)
  deriving DecidableEq, Repr

/-- The texts that fill the slots of a unit. -/
structure Parts where
  unitName : String
  fields : String
  locals : String
  expression : String
  deriving DecidableEq, Repr

def Parts.get (p : Parts) : Slot → String
  | .unitName => p.unitName
  | .fields => p.fields
  | .locals => p.locals
  | .expression => p.expression

namespace Piece

/-- The piece with its slot filled. -/
def fill (parts : Parts) : Piece → String
  | .text s => s
  | .slot s => parts.get s

/-- The piece as it stands in the skeleton's text. -/
def source : Piece → String
  | .text s => s
  | .slot s => s.placeholder

end Piece

/-- A skeleton, read into pieces. -/
structure Skeleton where
  pieces : List Piece
  deriving DecidableEq, Repr, Inhabited

namespace Skeleton

/-- Where the reader stands: in fixed text, or inside a placeholder that began at a byte offset.
The characters read there are kept in reverse. -/
inductive Cursor where
  | text (seen : List Char)
  | placeholder (start : Nat) (seen : List Char)

/-- Characters read in reverse, as a piece before others; no text makes no piece. -/
def textBefore (seen : List Char) (pieces : List Piece) : List Piece :=
  if seen.isEmpty then pieces else .text (String.ofList seen.reverse) :: pieces

/-- Reads the pieces of a text from a byte offset on. A placeholder ends at the first closing
brace. -/
def scan (offset : Nat) : Cursor → List Char → Except SkeletonError (List Piece)
  | .text seen, [] => .ok (textBefore seen [])
  | .text seen, '$' :: '\x7b' :: rest =>
      (scan (offset + 2) (.placeholder offset []) rest).map (textBefore seen)
  | .text seen, c :: rest => scan (offset + c.utf8Size) (.text (c :: seen)) rest
  | .placeholder start _, [] => .error (.unterminated start)
  | .placeholder _ seen, '\x7d' :: rest =>
      let token := String.ofList seen.reverse
      match Slot.ofToken? token with
      | none => .error (.unknown token)
      | some slot => (scan (offset + 1) (.text []) rest).map (.slot slot :: ·)
  | .placeholder start seen, c :: rest =>
      scan (offset + c.utf8Size) (.placeholder start (c :: seen)) rest

/-- The first slot that does not occur. -/
def missing? (pieces : List Piece) : Option Slot :=
  Slot.all.find? fun s => !pieces.contains (.slot s)

/-- Reads a skeleton, in which every slot has to occur. -/
def parse (text : String) : Except SkeletonError Skeleton := do
  let pieces ← scan 0 (.text []) text.toList
  match missing? pieces with
  | some slot => throw (.missing slot)
  | none => pure ⟨pieces⟩

/-- The skeleton with its slots filled. -/
def fill (s : Skeleton) (parts : Parts) : String := String.join (s.pieces.map (·.fill parts))

/-- The skeleton's text. -/
def source (s : Skeleton) : String := String.join (s.pieces.map (·.source))

end Skeleton
end FormulaCompiler
