import FormulaCompiler.Text.Quoted

/-!
# Quoted texts

Text from outside enters generated code between double quotes. It must not end them early, start a
new line, or be read back as something else. All of this is shown one character at a time: what a
character is written as is passed over as a whole when the closing quote is looked for, and gives
that character alone when it is read back. All of it holds for any set of hidden characters.
-/

namespace FormulaCompiler.Text

/-- No character breaks the line. -/
def Breakless (cs : List Char) : Prop := ∀ c ∈ cs, c ≠ '\n' ∧ c ≠ '\r'

instance (cs : List Char) : Decidable (Breakless cs) :=
  List.decidableBAll (fun c => c ≠ '\n' ∧ c ≠ '\r') cs

@[simp] theorem breakless_append (as bs : List Char) :
    Breakless (as ++ bs) ↔ Breakless as ∧ Breakless bs :=
  List.forall_mem_append

@[simp] theorem breakless_cons (c : Char) (cs : List Char) :
    Breakless (c :: cs) ↔ (c ≠ '\n' ∧ c ≠ '\r') ∧ Breakless cs :=
  List.forall_mem_cons

/-- The text is on a single line. -/
def OneLine (s : String) : Prop := Breakless s.toList

instance (s : String) : Decidable (OneLine s) := inferInstanceAs (Decidable (Breakless _))

@[simp] theorem oneLine_append (a b : String) : OneLine (a ++ b) ↔ OneLine a ∧ OneLine b := by
  simp only [OneLine, String.toList_append, breakless_append]

theorem oneLine_ofList (cs : List Char) : OneLine (String.ofList cs) ↔ Breakless cs := by
  rw [OneLine, String.toList_ofList]

namespace Quoted

/-- What stands before the first double quote that no backslash escapes, and what stands behind
it. -/
def closing? : List Char → Option (List Char × List Char)
  | [] => none
  | '"' :: rest => some ([], rest)
  | '\\' :: c :: rest => (closing? rest).map fun p => ('\\' :: c :: p.1, p.2)
  | c :: rest => (closing? rest).map fun p => (c :: p.1, p.2)

/-- The text begins and ends with a double quote. Whatever follows, the last one is the first that
is not escaped. There is no line break in between, and what is there reads back as the string. -/
structure Encloses (text s : String) (inside : List Char) : Prop where
  ends : text.toList = '"' :: (inside ++ ['"'])
  closes : ∀ rest, closing? (inside ++ '"' :: rest) = some (inside, rest)
  breakless : Breakless inside
  reads : decode inside = some s.toList

/-- A quoted text tells what it quotes. -/
theorem Encloses.inj {text s t : String} {inside inside' : List Char}
    (h : Encloses text s inside) (h' : Encloses text t inside') : s = t := by
  have hsame := h.ends.symm.trans h'.ends
  simp only [List.cons.injEq, true_and, List.append_cancel_right_eq] at hsame
  have hreads := h.reads
  rw [hsame, h'.reads] at hreads
  exact (String.toList_inj.mp (Option.some.inj hreads)).symm

theorem digit_of_mem_hexDigits {n : Nat} {c : Char} (h : c ∈ hexDigits n) :
    ∃ d < 16, c = Nat.digitChar d := by
  induction n using Nat.strongRecOn with
  | ind n ih =>
      by_cases hn : n < 16
      · rw [hexDigits, Nat.toDigits_of_lt_base hn, List.mem_singleton] at h
        exact ⟨n, hn, h⟩
      · rw [hexDigits, Nat.toDigits_of_base_le (by decide) (by omega), List.mem_append,
          List.mem_singleton] at h
        rcases h with h | h
        · exact ih (n / 16) (by omega) h
        · exact ⟨n % 16, Nat.mod_lt _ (by decide), h⟩

/-- Digits are neither quotes nor backslashes, braces or line breaks. -/
theorem harmless_of_mem_hexDigits {n : Nat} {c : Char} (h : c ∈ hexDigits n) :
    c ≠ '"' ∧ c ≠ '\\' ∧ c ≠ '\x7d' ∧ c ≠ '\n' ∧ c ≠ '\r' := by
  have hall : ∀ d < 16, Nat.digitChar d ≠ '"' ∧ Nat.digitChar d ≠ '\\' ∧
      Nat.digitChar d ≠ '\x7d' ∧ Nat.digitChar d ≠ '\n' ∧ Nat.digitChar d ≠ '\r' := by decide
  obtain ⟨d, hd, rfl⟩ := digit_of_mem_hexDigits h
  exact hall d hd

theorem foldlM_hexDigits (n : Nat) :
    (hexDigits n).foldlM (fun n d => (hexValue? d).map (16 * n + ·)) 0 = some n := by
  have hvalue : ∀ d < 16, hexValue? (Nat.digitChar d) = some d := by decide
  induction n using Nat.strongRecOn with
  | ind n ih =>
      by_cases hn : n < 16
      · rw [hexDigits, Nat.toDigits_of_lt_base hn]
        simp [hvalue n hn]
      · have hrest := ih (n / 16) (by omega)
        rw [hexDigits] at hrest
        rw [hexDigits, Nat.toDigits_of_base_le (by decide) (by omega), List.foldlM_append, hrest]
        have hsum : 16 * (n / 16) + n % 16 = n := by omega
        simp [hvalue (n % 16) (Nat.mod_lt _ (by decide)), hsum]

theorem charOfHex?_hexDigits (c : Char) : charOfHex? (hexDigits c.toNat) = some c := by
  have hne : (hexDigits c.toNat).isEmpty = false := by
    simp [hexDigits, Nat.toDigits_ne_nil]
  have hguard : (guard (!(hexDigits c.toNat).isEmpty) : Option Unit) = some () := by
    rw [hne]
    rfl
  have hvalid : c.toNat.isValidChar := c.valid
  rw [charOfHex?, hguard]
  simp only [Option.bind_eq_bind, Option.bind_some, foldlM_hexDigits, hvalid, if_true,
    Char.ofNat_toNat]

/-- Digits are collected up to the closing brace. -/
theorem decodeFrom_digits {digits : List Char} (h : '\x7d' ∉ digits) (seen rest : List Char) :
    decodeFrom (.digits seen) (digits ++ '\x7d' :: rest) =
      (charOfHex? (seen.reverse ++ digits)).bind fun c =>
        (decodeFrom .plain rest).map (c :: ·) := by
  induction digits generalizing seen with
  | nil =>
      rw [List.nil_append, decodeFrom, List.append_nil]
      cases charOfHex? seen.reverse with
      | none => rfl
      | some c => cases decodeFrom .plain rest <;> rfl
  | cons d digits ih =>
      rw [List.mem_cons, not_or] at h
      obtain ⟨hd, hdigits⟩ := h
      rw [List.cons_append, decodeFrom, ih hdigits (d :: seen)]
      · simp
      · exact fun heq => hd heq.symm

/-- What a character is written as: an escape of two characters, a number in braces, or the character
itself. -/
theorem encodeChar_cases (hidden : Char → Bool) (c : Char) :
    (∃ e, encodeChar hidden c = ['\\', e] ∧ e ≠ '\n' ∧ e ≠ '\r' ∧ ∀ rest,
        decodeFrom .escape (e :: rest) = (decodeFrom .plain rest).map (c :: ·)) ∨
      encodeChar hidden c = ['\\', 'u', '\x7b'] ++ hexDigits c.toNat ++ ['\x7d'] ∨
      encodeChar hidden c = [c] ∧ c ≠ '"' ∧ c ≠ '\\' ∧ c ≠ '\n' ∧ c ≠ '\r' := by
  unfold encodeChar
  by_cases h0 : c = '\x00'
  · exact .inl ⟨'0', if_pos h0, by decide, by decide, fun _ => by rw [h0, decodeFrom]⟩
  rw [if_neg h0]
  by_cases ht : c = '\t'
  · exact .inl ⟨'t', if_pos ht, by decide, by decide, fun _ => by rw [ht, decodeFrom]⟩
  rw [if_neg ht]
  by_cases hn : c = '\n'
  · exact .inl ⟨'n', if_pos hn, by decide, by decide, fun _ => by rw [hn, decodeFrom]⟩
  rw [if_neg hn]
  by_cases hr : c = '\r'
  · exact .inl ⟨'r', if_pos hr, by decide, by decide, fun _ => by rw [hr, decodeFrom]⟩
  rw [if_neg hr]
  by_cases hq : c = '"'
  · exact .inl ⟨'"', if_pos hq, by decide, by decide, fun _ => by rw [hq, decodeFrom]⟩
  rw [if_neg hq]
  by_cases hb : c = '\\'
  · exact .inl ⟨'\\', if_pos hb, by decide, by decide, fun _ => by rw [hb, decodeFrom]⟩
  rw [if_neg hb]
  by_cases hh : hidden c = true
  · exact .inr (.inl (if_pos hh))
  · exact .inr (.inr ⟨if_neg hh, hq, hb, hn, hr⟩)

/-- One character is read back from what it is written as. -/
theorem decodeFrom_encodeChar (hidden : Char → Bool) (c : Char) (rest : List Char) :
    decodeFrom .plain (encodeChar hidden c ++ rest) = (decodeFrom .plain rest).map (c :: ·) := by
  rcases encodeChar_cases hidden c with ⟨e, he, -, -, hread⟩ | hnumber | ⟨hself, hq, hb, hn, hr⟩
  · rw [he]
    change decodeFrom .plain ('\\' :: e :: rest) = _
    rw [decodeFrom, hread]
  · have hbrace : '\x7d' ∉ hexDigits c.toNat := fun h => (harmless_of_mem_hexDigits h).2.2.1 rfl
    rw [hnumber]
    simp only [List.cons_append, List.nil_append, List.append_assoc]
    rw [decodeFrom, decodeFrom, decodeFrom, decodeFrom_digits hbrace]
    simp [charOfHex?_hexDigits]
  · rw [hself, List.singleton_append, decodeFrom, if_neg (by simp [hq, hn, hr])]
    exact hb

theorem decode_encode (hidden : Char → Bool) (cs : List Char) :
    decode (encode hidden cs) = some cs := by
  induction cs with
  | nil => rw [encode_nil, decode, decodeFrom]
  | cons c cs ih =>
      rw [decode] at ih
      rw [encode_cons, decode, decodeFrom_encodeChar, ih]
      rfl

theorem closing?_plain {c : Char} (hq : c ≠ '"') (hb : c ≠ '\\') (rest : List Char) :
    closing? (c :: rest) = (closing? rest).map fun p => (c :: p.1, p.2) := by
  rw [closing?]
  · exact hq
  · exact fun _ _ h => absurd h hb

/-- Characters that are neither quotes nor backslashes are passed over. -/
theorem closing?_append {cs : List Char} (h : ∀ c ∈ cs, c ≠ '"' ∧ c ≠ '\\') (rest : List Char) :
    closing? (cs ++ rest) = (closing? rest).map fun p => (cs ++ p.1, p.2) := by
  induction cs with
  | nil => simp
  | cons c cs ih =>
      obtain ⟨hq, hb⟩ := h c List.mem_cons_self
      have hcs := ih fun d hd => h d (List.mem_cons_of_mem c hd)
      rw [List.cons_append, closing?_plain hq hb, hcs, Option.map_map]
      rfl

/-- What a character is written as is passed over as a whole. -/
theorem closing?_encodeChar (hidden : Char → Bool) (c : Char) (rest : List Char) :
    closing? (encodeChar hidden c ++ rest) =
      (closing? rest).map fun p => (encodeChar hidden c ++ p.1, p.2) := by
  rcases encodeChar_cases hidden c with ⟨e, he, -⟩ | hnumber | ⟨hself, hq, hb, -⟩
  · rw [he]
    change closing? ('\\' :: e :: rest) = _
    rw [closing?]
    rfl
  · have hharmless : ∀ d ∈ '\x7b' :: (hexDigits c.toNat ++ ['\x7d']), d ≠ '"' ∧ d ≠ '\\' := by
      intro d hd
      rcases List.mem_cons.mp hd with rfl | hd
      · decide
      rcases List.mem_append.mp hd with hd | hd
      · exact ⟨(harmless_of_mem_hexDigits hd).1, (harmless_of_mem_hexDigits hd).2.1⟩
      · rw [List.mem_singleton.mp hd]
        decide
    have hsplit : encodeChar hidden c = '\\' :: 'u' :: '\x7b' :: (hexDigits c.toNat ++ ['\x7d']) := by
      rw [hnumber]
      rfl
    rw [hsplit]
    change closing? ('\\' :: 'u' :: ('\x7b' :: (hexDigits c.toNat ++ ['\x7d']) ++ rest)) = _
    rw [closing?, closing?_append hharmless, Option.map_map]
    rfl
  · rw [hself]
    exact closing?_append (by simp [hq, hb]) rest

theorem closing?_encode (hidden : Char → Bool) (cs rest : List Char) :
    closing? (encode hidden cs ++ '"' :: rest) = some (encode hidden cs, rest) := by
  induction cs with
  | nil => rw [encode_nil, List.nil_append, closing?]
  | cons c cs ih =>
      rw [encode_cons, List.append_assoc, closing?_encodeChar, ih]
      rfl

theorem breakless_encode (hidden : Char → Bool) (cs : List Char) :
    Breakless (encode hidden cs) := by
  intro d h
  obtain ⟨c, -, hd⟩ := List.mem_flatMap.mp h
  rcases encodeChar_cases hidden c with ⟨e, he, hn, hr, -⟩ | hnumber | ⟨hself, -, -, hn, hr⟩
  · rw [he, List.mem_cons, List.mem_singleton] at hd
    rcases hd with rfl | rfl
    · decide
    · exact ⟨hn, hr⟩
  · rw [hnumber, List.mem_append, List.mem_append, List.mem_singleton] at hd
    rcases hd with (hd | hd) | rfl
    · have hmark : Breakless ['\\', 'u', '\x7b'] := by decide
      exact hmark d hd
    · exact (harmless_of_mem_hexDigits hd).2.2.2
    · decide
  · rw [hself, List.mem_singleton] at hd
    rw [hd]
    exact ⟨hn, hr⟩

theorem toList_quoteWith (hidden : Char → Bool) (s : String) :
    (quoteWith hidden s).toList = '"' :: (encode hidden s.toList ++ ['"']) := by
  simp [quoteWith, String.toList_append]

/-- Quoting encloses any text. -/
theorem encloses_quoteWith (hidden : Char → Bool) (s : String) :
    Encloses (quoteWith hidden s) s (encode hidden s.toList) where
  ends := toList_quoteWith hidden s
  closes := closing?_encode hidden s.toList
  breakless := breakless_encode hidden s.toList
  reads := decode_encode hidden s.toList

theorem quoteWith_injective (hidden : Char → Bool) : Function.Injective (quoteWith hidden) := by
  intro s t h
  have hs := encloses_quoteWith hidden s
  rw [h] at hs
  exact hs.inj (encloses_quoteWith hidden t)

theorem oneLine_quoteWith (hidden : Char → Bool) (s : String) : OneLine (quoteWith hidden s) := by
  rw [OneLine, toList_quoteWith, breakless_cons, breakless_append]
  exact ⟨by decide, breakless_encode hidden s.toList, by decide⟩

end Quoted
end FormulaCompiler.Text
