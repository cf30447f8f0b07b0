import FormulaCompiler.Text.Hidden

/-!
# Quoted text

A text between double quotes, as the target language and the node labels write it. Six characters
have an escape of their own, hidden characters are written by their number, all others stand for
themselves. `decode` reads the inside back, whichever characters are hidden.
-/

namespace FormulaCompiler.Text.Quoted

/-- Lower-case hexadecimal digits of a number, without leading zeros. -/
def hexDigits (n : Nat) : List Char := Nat.toDigits 16 n

/-- How one character stands between the quotes, given which ones are hidden. -/
def encodeChar (hidden : Char → Bool) (c : Char) : List Char :=
  if c = '\x00' then ['\\', '0']
  else if c = '\t' then ['\\', 't']
  else if c = '\n' then ['\\', 'n']
  else if c = '\r' then ['\\', 'r']
  else if c = '"' then ['\\', '"']
  else if c = '\\' then ['\\', '\\']
  else if hidden c then ['\\', 'u', '\x7b'] ++ hexDigits c.toNat ++ ['\x7d']
  else [c]

/-- The inside of the quoted text. -/
def encode (hidden : Char → Bool) (cs : List Char) : List Char := cs.flatMap (encodeChar hidden)

/-- The text between double quotes, given which characters are hidden. -/
def quoteWith (hidden : Char → Bool) (s : String) : String :=
  "\"" ++ String.ofList (encode hidden s.toList) ++ "\""

/-- The text between double quotes. -/
def quote (s : String) : String := quoteWith isHidden s

/-- The value of one hexadecimal digit, upper or lower case. -/
def hexValue? (c : Char) : Option Nat :=
  if '0' ≤ c ∧ c ≤ '9' then some (c.toNat - '0'.toNat)
  else if 'a' ≤ c ∧ c ≤ 'f' then some (c.toNat - 'a'.toNat + 10)
  else if 'A' ≤ c ∧ c ≤ 'F' then some (c.toNat - 'A'.toNat + 10)
  else none

/-- The character whose number is written in hexadecimal, if there is one. -/
def charOfHex? (digits : List Char) : Option Char := do
  guard !digits.isEmpty
  let n ← digits.foldlM (fun n d => (hexValue? d).map (16 * n + ·)) 0
  if n.isValidChar then some (Char.ofNat n) else none

/-- Where the reader of a quoted text stands: in plain text, after a backslash, after the `u` of a
numbered character, or among its digits (kept in reverse). -/
inductive Position where
  | plain
  | escape
  | opening
  | digits (seen : List Char)

/-- Reads the inside of a quoted text back. Refuses an unescaped double quote, line feed or carriage
return, an unknown escape and a text that ends inside one. -/
def decodeFrom : Position → List Char → Option (List Char)
  | .plain, [] => some []
  | .plain, '\\' :: rest => decodeFrom .escape rest
  | .plain, c :: rest =>
      if c = '"' ∨ c = '\n' ∨ c = '\r' then none else (decodeFrom .plain rest).map (c :: ·)
  | .escape, '0' :: rest => (decodeFrom .plain rest).map ('\x00' :: ·)
  | .escape, 't' :: rest => (decodeFrom .plain rest).map ('\t' :: ·)
  | .escape, 'n' :: rest => (decodeFrom .plain rest).map ('\n' :: ·)
  | .escape, 'r' :: rest => (decodeFrom .plain rest).map ('\r' :: ·)
  | .escape, '"' :: rest => (decodeFrom .plain rest).map ('"' :: ·)
  | .escape, '\\' :: rest => (decodeFrom .plain rest).map ('\\' :: ·)
  | .escape, 'u' :: rest => decodeFrom .opening rest
  | .opening, '\x7b' :: rest => decodeFrom (.digits []) rest
  | .digits seen, '\x7d' :: rest => do
      let c ← charOfHex? seen.reverse
      let cs ← decodeFrom .plain rest
      pure (c :: cs)
  | .digits seen, d :: rest => decodeFrom (.digits (d :: seen)) rest
  | _, _ => none

/-- Reads the inside of a quoted text. -/
def decode (cs : List Char) : Option (List Char) := decodeFrom .plain cs

@[simp] theorem encode_nil (hidden : Char → Bool) : encode hidden [] = [] := rfl

@[simp] theorem encode_cons (hidden : Char → Bool) (c : Char) (cs : List Char) :
    encode hidden (c :: cs) = encodeChar hidden c ++ encode hidden cs := rfl

end FormulaCompiler.Text.Quoted
