import FormulaCompiler.Proofs.Decimal.Reading
import FormulaCompiler.Proofs.Text.Quoting
import FormulaCompiler.Target.Code

/-!
# Reading the target language

A reader for what generated code is made of: expressions with their literals, fields, locals, reads
of variables, casts and operators in brackets and joins of texts, and the declarations of fields and
locals, one a line. It goes by words and characters and knows nothing of how code is printed. A
minus directly before digits belongs to the number; an operator before a number needs brackets.
-/

namespace FormulaCompiler

/-- The types between which casts are made. -/
def TargetType.isNumber : TargetType → Bool
  | .i64 | .f64 => true
  | _ => false

namespace Reading

/-- A word ends at a blank, a bracket, a comma, a semicolon or a quote. -/
def endsWord (c : Char) : Bool :=
  c = ' ' || c = '(' || c = ')' || c = ',' || c = ';' || c = '"'

/-- The word at the beginning. -/
def word (cs : List Char) : List Char := cs.takeWhile fun c => !endsWord c

/-- What follows the word at the beginning. -/
def afterWord (cs : List Char) : List Char := cs.dropWhile fun c => !endsWord c

/-- What follows a text that has to come first. -/
def expect (text : String) (cs : List Char) : Option (List Char) := cs.dropPrefix? text.toList

/-- The characters of names. -/
def isNameChar (c : Char) : Bool := c.isAlphanum || c = '_'

/-- A word of letters, digits and underscores that does not begin with a digit. -/
def isIdentifier : List Char → Bool
  | [] => false
  | c :: cs => isNameChar c && !c.isDigit && cs.all isNameChar

/-- An identifier that is not reserved for a literal. -/
def isName (cs : List Char) : Bool :=
  isIdentifier cs && cs ≠ "true".toList && cs ≠ "false".toList

/-- The text up to the closing quote, with its escapes undone, and what follows it. -/
def quoted? (cs : List Char) : Option (String × List Char) := do
  let (inside, cs) ← Text.Quoted.closing? cs
  let s ← Text.Quoted.decode inside
  some (String.ofList s, cs)

def operator? : String → Option BinaryOp
  | "+" => some .add
  | "-" => some .sub
  | "*" => some .mul
  | "/" => some .div
  | "%" => some .mod
  | "==" => some .eq
  | "!=" => some .ne
  | "<" => some .lt
  | "<=" => some .le
  | ">" => some .gt
  | ">=" => some .ge
  | "&&" => some .and
  | "||" => some .or
  | _ => none

def numberType? : String → Option TargetType
  | "i64" => some .i64
  | "f64" => some .f64
  | _ => none

def getter? : String → Option Getter
  | "ctx.get_int" => some .int
  | "ctx.get_float" => some .float
  | "ctx.get_bool" => some .bool
  | "ctx.get_str" => some .text
  | "ctx.get_value" => some .value
  | _ => none

/-- The literals that are words. -/
def keyword? : String → Option Value
  | "true" => some (.bool true)
  | "false" => some (.bool false)
  | "f64::NAN" => some (.float Binary64.nan.toFloat)
  | "f64::INFINITY" => some (.float (Binary64.infinite false).toFloat)
  | "f64::NEG_INFINITY" => some (.float (Binary64.infinite true).toFloat)
  | _ => none

/-- An expression that is a single word. -/
def atom? (w : List Char) : Option Code :=
  match keyword? (String.ofList w) with
  | some v => some (.literal v)
  | none =>
      match expect "Self::" w with
      | some name => if isName name then some (.field (String.ofList name)) else none
      | none =>
          if isName w then some (.localVar (String.ofList w)) else (numeral? w).map .literal

section Inner

variable (inner : List Char → Option (Code × List Char))

/-- A cast or an operator between two operands, behind its opening bracket. -/
def operation? (cs : List Char) : Option (Code × List Char) := do
  let (left, cs) ← inner cs
  let cs ← expect " " cs
  let symbol := String.ofList (word cs)
  let cs ← expect " " (afterWord cs)
  if symbol = "as" then do
    let type ← numberType? (String.ofList (word cs))
    let cs ← expect ")" (afterWord cs)
    some (.cast left type, cs)
  else do
    let op ← operator? symbol
    let (right, cs) ← inner cs
    let cs ← expect ")" cs
    some (.binary op left right, cs)

/-- An operator before its operand, behind the operator. -/
def operand? (op : UnaryOp) (cs : List Char) : Option (Code × List Char) := do
  let (operand, cs) ← inner cs
  let cs ← expect ")" cs
  some (.unary op operand, cs)

/-- What stands behind an opening bracket. -/
def bracketed? : List Char → Option (Code × List Char)
  | ')' :: cs => some (.literal .null, cs)
  | '!' :: cs => operand? inner .not cs
  | '-' :: '(' :: cs => operand? inner .neg ('(' :: cs)
  | cs => operation? inner cs

/-- A join of two texts, behind its name. -/
def join? (cs : List Char) : Option (Code × List Char) := do
  let cs ← expect "(\"\x7b\x7d\x7b\x7d\", " cs
  let (left, cs) ← inner cs
  let cs ← expect ", " cs
  let (right, cs) ← inner cs
  let cs ← expect ")" cs
  some (.concat left right, cs)

/-- An expression that begins with a word. -/
def worded? (cs : List Char) : Option (Code × List Char) :=
  if word cs = "format!".toList then join? inner (afterWord cs)
  else
    match getter? (String.ofList (word cs)) with
    | some getter => do
        let cs ← expect "(\"" (afterWord cs)
        let (name, cs) ← quoted? cs
        let cs ← expect ")" cs
        some (.read getter name, cs)
    | none => (atom? (word cs)).map fun c => (c, afterWord cs)

end Inner

/-- An expression and what follows it; brackets may be nested to some depth. -/
def expression? : Nat → List Char → Option (Code × List Char)
  | 0, _ => none
  | depth + 1, '(' :: cs => bracketed? (expression? depth) cs
  | _ + 1, '"' :: cs => do
      let (s, cs) ← quoted? cs
      some (.literal (.text s), cs)
  | depth + 1, cs => worded? (expression? depth) cs

/-- The expression that a text is. -/
def whole? (cs : List Char) : Option Code :=
  match expression? (cs.length + 1) cs with
  | some (c, []) => some c
  | _ => none

/-- The types that declarations name. -/
def types : List (String × TargetType) :=
  [("()", .unit), ("i64", .i64), ("f64", .f64), ("bool", .bool), ("&'static str", .staticText),
    ("String", .ownedText), ("Value", .value)]

def type? (cs : List Char) : Option (TargetType × List Char) :=
  types.findSome? fun (text, type) => (expect text cs).map (type, ·)

/-- What a declared name starts with: an expression, which may be cast without brackets. -/
def initial? (cs : List Char) : Option (Code × List Char) := do
  let (c, cs) ← expression? (cs.length + 1) cs
  match expect " as " cs with
  | some cs => do
      let type ← numberType? (String.ofList (word cs))
      some (.cast c type, afterWord cs)
  | none => some (c, cs)

/-- Nothing but blanks and perhaps a comment up to the end of the line. -/
def isRemark (cs : List Char) : Bool :=
  let cs := cs.dropWhile (· = ' ')
  cs.isEmpty || (expect "//" cs).isSome && decide (Text.Breakless cs)

end Reading

/-- A declared name with its type and what it starts with. -/
structure Declared (α : Type) where
  name : String
  type : TargetType
  content : α
  deriving DecidableEq, Repr

namespace Reading

/-- The declaration that a line is, behind its indent. -/
def declaration? (keyword : String) (line : List Char) : Option (Declared Code) := do
  let cs ← expect keyword (line.dropWhile (· = ' '))
  let name := cs.takeWhile isNameChar
  let cs ← expect ": " (cs.dropWhile isNameChar)
  let (type, cs) ← type? cs
  let cs ← expect " = " cs
  let (content, cs) ← initial? cs
  let cs ← expect ";" cs
  if isName name && isRemark cs then some ⟨String.ofList name, type, content⟩ else none

/-- The field that a line declares. -/
def constant? (line : String) : Option (Declared Value) := do
  let d ← declaration? "const " line.toList
  match d.content with
  | .literal v => some ⟨d.name, d.type, v⟩
  | _ => none

/-- The local that a line declares. -/
def local? (line : String) : Option (Declared Code) := declaration? "let " line.toList

end Reading
end FormulaCompiler
