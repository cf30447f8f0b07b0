import FormulaCompiler.Proofs.Target.Reading

/-!
# Generated code reads back

An expression reads back from its text, whatever ends the text, if its names are names of the target
language, its casts are between numbers, and what it negates is cast. So do declarations, with and
without a cast behind their expression.
-/

namespace FormulaCompiler

namespace Reading

/-- Nothing that belongs to a word comes first. -/
def Stops (cs : List Char) : Prop := ∀ c ∈ cs.head?, endsWord c = true

theorem stops_nil : Stops [] := fun _ h => by cases h

theorem stops_cons {c : Char} (h : endsWord c = true) (cs : List Char) : Stops (c :: cs) := by
  intro d hd
  cases hd
  exact h

/-- No character of the word ends it. -/
def Unbroken (w : List Char) : Prop := ∀ c ∈ w, endsWord c = false

instance (w : List Char) : Decidable (Unbroken w) :=
  List.decidableBAll (fun c => endsWord c = false) w

theorem word_append {w cs : List Char} (hw : Unbroken w) (hcs : Stops cs) :
    word (w ++ cs) = w ∧ afterWord (w ++ cs) = cs := by
  have hall : ∀ c ∈ w, (!endsWord c) = true := by
    intro c hc
    rw [hw c hc]
    rfl
  unfold word afterWord
  rw [List.takeWhile_append_of_pos hall, List.dropWhile_append_of_pos hall]
  cases cs with
  | nil => simp
  | cons c cs => simp [hcs c rfl]

theorem expect_append (text : String) (cs : List Char) :
    expect text (text.toList ++ cs) = some cs :=
  List.dropPrefix?_eq_some_iff.mpr ⟨_, rfl, beq_self_eq_true _⟩

theorem expect_blank (cs : List Char) : expect " " (' ' :: cs) = some cs := expect_append " " cs

theorem expect_close (cs : List Char) : expect ")" (')' :: cs) = some cs := expect_append ")" cs

theorem quoted?_encode (hidden : Char → Bool) (s : String) (cs : List Char) :
    quoted? (Text.Quoted.encode hidden s.toList ++ '"' :: cs) = some (s, cs) := by
  simp [quoted?, Text.Quoted.closing?_encode, Text.Quoted.decode_encode]

/-- The characters of expressions that are single words. -/
def isAtomChar (c : Char) : Bool := isNameChar c || c = '.' || c = '-' || c = ':'

theorem endsWord_of_isAtomChar {c : Char} (h : isAtomChar c = true) :
    endsWord c = false ∧ c ≠ '!' := by
  have hne : ∀ d, isAtomChar d = false → c ≠ d := by
    rintro d hd rfl
    rw [h] at hd
    cases hd
  simp [endsWord, hne ' ' rfl, hne '(' rfl, hne ')' rfl, hne ',' rfl, hne ';' rfl, hne '"' rfl,
    hne '!' rfl]

theorem isIdentifier_of_isName {w : List Char} (h : isName w = true) : isIdentifier w = true := by
  simp only [isName, Bool.and_eq_true] at h
  exact h.1.1

theorem all_isNameChar {w : List Char} (h : isIdentifier w = true) : w.all isNameChar = true := by
  cases w with
  | nil => cases h
  | cons c w =>
      simp only [isIdentifier, Bool.and_eq_true] at h
      rw [List.all_cons, h.1.1, h.2]
      rfl

theorem isAtomChar_of_isName {w : List Char} (h : isName w = true) : w.all isAtomChar = true := by
  rw [List.all_eq_true]
  intro c hc
  simp [isAtomChar, List.all_eq_true.mp (all_isNameChar (isIdentifier_of_isName h)) c hc]

theorem isAtomChar_of_digital {w : List Char} (h : Digital w) : w.all isAtomChar = true := by
  rw [List.all_eq_true]
  intro c hc
  rcases h.chars c hc with hc | hc
  · simp only [Decimal.isDecimal, Bool.or_eq_true, decide_eq_true_eq] at hc
    rcases hc with ((hc | rfl) | rfl) | rfl
    · simp [isAtomChar, isNameChar, Char.isAlphanum, hc]
    all_goals rfl
  · simp only [isSuffix, Bool.or_eq_true, decide_eq_true_eq] at hc
    rcases hc with (((rfl | rfl) | rfl) | rfl) | rfl
    all_goals rfl

theorem isAtomChar_of_numeral? {w : List Char} {v : Value} (h : numeral? w = some v) :
    w.all isAtomChar = true := by
  have hall := isAtomChar_of_digital (digital_of_numeral? h)
  rcases eq_of_signed w with hw | hw
  · rw [hw, List.all_cons, hall]
    rfl
  · rw [hw]
    exact hall

theorem eq_of_expect {text : String} {w rest : List Char} (h : expect text w = some rest) :
    w = text.toList ++ rest := by
  obtain ⟨before, hw, hsame⟩ := List.dropPrefix?_eq_some_iff.mp h
  rw [hw, eq_of_beq hsame]

theorem isAtomChar_of_keyword? {w : List Char} {v : Value}
    (h : keyword? (String.ofList w) = some v) : w.all isAtomChar = true := by
  unfold keyword? at h
  split at h
  case h_6 => cases h
  all_goals
    rename_i hw
    rw [String.ofList_eq.mp hw]
    rfl

/-- What is read as a single word has one, and all its characters are such. -/
theorem isAtomChar_of_atom? {w : List Char} {c : Code} (h : atom? w = some c) :
    w ≠ [] ∧ w.all isAtomChar = true := by
  refine ⟨?_, ?_⟩
  · rintro rfl
    cases h
  unfold atom? at h
  split at h
  · exact isAtomChar_of_keyword? ‹_›
  · split at h
    · rename_i name hself
      split at h
      · rename_i hname
        rw [eq_of_expect hself, List.all_append, isAtomChar_of_isName hname]
        rfl
      · cases h
    · split at h
      · exact isAtomChar_of_isName ‹_›
      · obtain ⟨v, hv, -⟩ := Option.map_eq_some_iff.mp h
        exact isAtomChar_of_numeral? hv

theorem head_of_numeral? {w : List Char} {v : Value} (h : numeral? w = some v) :
    ∃ c rest, w = c :: rest ∧ (c.isDigit = true ∨ c = '-') := by
  rcases eq_of_signed w with hw | hw
  · exact ⟨_, _, hw, .inr rfl⟩
  · obtain ⟨c, hc, hdigit⟩ := (digital_of_numeral? h).head
    rw [← hw] at hc
    cases w with
    | nil => cases hc
    | cons d rest =>
        cases hc
        exact ⟨c, rest, rfl, .inl hdigit⟩

/-- Keywords begin with a small letter. -/
theorem keyword?_eq_none {c : Char} (h : c ≠ 't' ∧ c ≠ 'f') (w : List Char) :
    keyword? (String.ofList (c :: w)) = none := by
  unfold keyword?
  split
  case h_6 => rfl
  all_goals
    rename_i hw
    have hc := (List.cons.inj (String.ofList_eq.mp hw)).1
    first | exact absurd hc h.1 | exact absurd hc h.2

theorem expect_eq_none {text : String} {w : List Char} (h : ¬ text.toList <+: w) :
    expect text w = none := by
  cases hexpect : expect text w with
  | none => rfl
  | some rest =>
      rw [eq_of_expect hexpect] at h
      exact absurd (List.prefix_append _ _) h

theorem atom?_of_numeral? {w : List Char} {v : Value} (h : numeral? w = some v) :
    atom? w = some (.literal v) := by
  obtain ⟨c, rest, rfl, hc⟩ := head_of_numeral? h
  have hne : ∀ d, d.isDigit = false → d ≠ '-' → c ≠ d := by
    rintro d hd hminus rfl
    rcases hc with hc | hc
    · rw [hc] at hd
      cases hd
    · exact hminus hc
  have hself : ¬ "Self::".toList <+: c :: rest := by
    intro hp
    obtain ⟨hS, -⟩ := List.cons_prefix_cons.mp hp
    exact hne 'S' rfl (by decide) hS.symm
  have hname : isName (c :: rest) = false := by
    rcases hc with hc | rfl
    · simp [isName, isIdentifier, hc]
    · rfl
  unfold atom?
  rw [keyword?_eq_none ⟨hne 't' rfl (by decide), hne 'f' rfl (by decide)⟩, expect_eq_none hself]
  simp [hname, h]

/-- Literals of numbers and truth values are single words. -/
theorem atom?_literal {v : Value} (hnull : v ≠ .null) (htext : ∀ s, v ≠ .text s) :
    atom? v.literal.toList = some (.literal v) := by
  cases v with
  | null => exact absurd rfl hnull
  | int n => exact atom?_of_numeral? (numeral?_int n)
  | float x =>
      have hx := Binary64.toFloat_ofFloat x
      cases h : Binary64.ofFloat x with
      | nan =>
          have hliteral : (Value.float x).literal = "f64::NAN" := by simp only [Value.literal, h]
          rw [h] at hx
          rw [hliteral, ← hx]
          rfl
      | infinite negative =>
          have hliteral : (Value.float x).literal =
              if negative then "f64::NEG_INFINITY" else "f64::INFINITY" := by
            simp only [Value.literal, h]
          rw [h] at hx
          rw [hliteral, ← hx]
          cases negative <;> rfl
      | finite negative m q => exact atom?_of_numeral? (numeral?_float h)
  | bool b => cases b <;> rfl
  | text s => exact absurd rfl (htext s)

theorem atom?_field {name : String} (h : isName name.toList = true) :
    atom? ("Self::" ++ name).toList = some (.field name) := by
  have hlist : ("Self::" ++ name).toList = "Self::".toList ++ name.toList :=
    String.toList_append
  have hkeyword : keyword? (String.ofList ("Self::".toList ++ name.toList)) = none :=
    keyword?_eq_none (by decide) _
  unfold atom?
  rw [hlist, hkeyword, expect_append]
  simp [h]

theorem atom?_localVar {name : String} (h : isName name.toList = true) :
    atom? name.toList = some (.localVar name) := by
  have hkeyword : keyword? (String.ofList name.toList) = none := by
    rw [String.ofList_toList]
    unfold keyword?
    split
    case h_6 => rfl
    all_goals cases h
  have hself : ¬ "Self::".toList <+: name.toList := by
    intro hp
    have hall := List.all_eq_true.mp (all_isNameChar (isIdentifier_of_isName h)) ':' (hp.subset (by simp))
    cases hall
  unfold atom?
  rw [hkeyword, expect_eq_none hself]
  simp [h]

/-- What is read as a single word is neither the name of a join nor of a getter. -/
theorem plain_of_atom? {w : List Char} {c : Code} (h : atom? w = some c) :
    w ≠ "format!".toList ∧ getter? (String.ofList w) = none := by
  refine ⟨?_, ?_⟩
  · rintro rfl
    cases h
  · unfold getter?
    split
    case h_6 => rfl
    all_goals
      rename_i hw
      rw [String.ofList_eq.mp hw] at h
      cases h

theorem numberType?_text {type : TargetType} (h : type.isNumber = true) :
    Unbroken type.text.toList ∧ numberType? (String.ofList type.text.toList) = some type := by
  cases type <;> first | exact ⟨by decide, rfl⟩ | cases h

theorem getter?_name (getter : Getter) :
    Unbroken ("ctx." ++ getter.name).toList ∧
      ("ctx." ++ getter.name).toList ≠ "format!".toList ∧
      getter? (String.ofList ("ctx." ++ getter.name).toList) = some getter := by
  cases getter <;> exact ⟨by decide, by decide, rfl⟩

section Inner

variable {inner : List Char → Option (Code × List Char)} {cs after rest : List Char} {l r : Code}

theorem operation?_cast {type : TargetType} (ht : type.isNumber = true)
    (h : inner cs = some (l, ' ' :: ("as".toList ++ ' ' :: (type.text.toList ++ ')' :: rest)))) :
    operation? inner cs = some (.cast l type, rest) := by
  obtain ⟨has, hafter⟩ := word_append (w := "as".toList) (by decide)
    (stops_cons (c := ' ') rfl (type.text.toList ++ ')' :: rest))
  obtain ⟨hunbroken, hread⟩ := numberType?_text ht
  obtain ⟨hword, hclose⟩ := word_append hunbroken (stops_cons (c := ')') rfl rest)
  simp only [operation?, h, Option.bind_eq_bind, Option.bind_some, expect_blank, has, hafter,
    hword, hclose, hread, expect_close]
  rfl

theorem operation?_binary {op : BinaryOp}
    (hl : inner cs = some (l, ' ' :: (op.symbol.toList ++ ' ' :: after)))
    (hr : inner after = some (r, ')' :: rest)) :
    operation? inner cs = some (.binary op l r, rest) := by
  have hop : Unbroken op.symbol.toList ∧ String.ofList op.symbol.toList ≠ "as" ∧
      operator? (String.ofList op.symbol.toList) = some op := by
    cases op <;> exact ⟨by decide, by decide, rfl⟩
  obtain ⟨hword, hafter⟩ := word_append hop.1 (stops_cons (c := ' ') rfl after)
  simp only [operation?, hl, Option.bind_eq_bind, Option.bind_some, expect_blank, hword, hafter,
    if_neg hop.2.1, hop.2.2, hr, expect_close]

theorem operand?_eq (op : UnaryOp) (h : inner cs = some (l, ')' :: rest)) :
    operand? inner op cs = some (.unary op l, rest) := by
  simp only [operand?, h, Option.bind_eq_bind, Option.bind_some, expect_close]

theorem join?_eq (hl : inner cs = some (l, ", ".toList ++ after))
    (hr : inner after = some (r, ')' :: rest)) :
    join? inner ("(\"\x7b\x7d\x7b\x7d\", ".toList ++ cs) = some (.concat l r, rest) := by
  simp only [join?, expect_append, hl, Option.bind_eq_bind, Option.bind_some, hr, expect_close]

theorem worded?_join (hl : inner cs = some (l, ", ".toList ++ after))
    (hr : inner after = some (r, ')' :: rest)) :
    worded? inner ("format!".toList ++ ("(\"\x7b\x7d\x7b\x7d\", ".toList ++ cs)) =
      some (.concat l r, rest) := by
  obtain ⟨hword, hafter⟩ := word_append (w := "format!".toList) (by decide)
    (stops_cons (c := '(') rfl ("\"\x7b\x7d\x7b\x7d\", ".toList ++ cs))
  have hopen : "(\"\x7b\x7d\x7b\x7d\", ".toList ++ cs =
    '(' :: ("\"\x7b\x7d\x7b\x7d\", ".toList ++ cs) := rfl
  rw [worded?, hopen, hword, if_pos rfl, hafter]
  exact join?_eq hl hr

theorem worded?_read (inner : List Char → Option (Code × List Char)) (getter : Getter)
    (name : String) (rest : List Char) :
    worded? inner (("ctx." ++ getter.name).toList ++ '(' :: ((Text.Quoted.quote name).toList ++
      ')' :: rest)) = some (.read getter name, rest) := by
  obtain ⟨hunbroken, hformat, hread⟩ := getter?_name getter
  obtain ⟨hword, hafter⟩ := word_append hunbroken
    (stops_cons (c := '(') rfl ((Text.Quoted.quote name).toList ++ ')' :: rest))
  have hopen : ∀ cs, expect "(\"" ('(' :: '"' :: cs) = some cs := expect_append "(\""
  rw [worded?, hword, if_neg hformat, hread, hafter, Text.Quoted.quote,
    Text.Quoted.toList_quoteWith]
  simp only [List.cons_append, List.append_assoc, List.nil_append, hopen, Option.bind_eq_bind,
    Option.bind_some, quoted?_encode, expect_close]

end Inner

/-- A word begins neither with a bracket nor with a quote. -/
theorem expression?_word {w : List Char} (hw : Unbroken w) (hne : w ≠ []) (depth : Nat)
    (cs : List Char) :
    expression? (depth + 1) (w ++ cs) = worded? (expression? depth) (w ++ cs) := by
  cases w with
  | nil => exact absurd rfl hne
  | cons d w =>
      have hd := hw d List.mem_cons_self
      rw [List.cons_append, expression?]
      all_goals
        intro rest hhead
        obtain ⟨rfl, -⟩ := List.cons.inj hhead
        cases hd

theorem expression?_atom {w : List Char} {c : Code} (h : atom? w = some c) (depth : Nat)
    {cs : List Char} (hcs : Stops cs) : expression? (depth + 1) (w ++ cs) = some (c, cs) := by
  obtain ⟨hne, hall⟩ := isAtomChar_of_atom? h
  obtain ⟨hformat, hgetter⟩ := plain_of_atom? h
  have hunbroken : Unbroken w := fun d hd =>
    (endsWord_of_isAtomChar (List.all_eq_true.mp hall d hd)).1
  obtain ⟨hword, hafter⟩ := word_append hunbroken hcs
  rw [expression?_word hunbroken hne, worded?, hword, if_neg hformat, hgetter, h, hafter]
  rfl

end Reading

namespace Code

open Reading

/-- How deep brackets are nested. -/
def height : Code → Nat
  | .literal _ | .field _ | .localVar _ | .read _ _ => 1
  | .cast operand _ | .unary _ operand => operand.height + 1
  | .binary _ left right | .concat left right => max left.height right.height + 1

/-- Names are names of the target language, casts are between numbers, and what is negated is
cast. -/
inductive Legible : Code → Prop
  | literal (v : Value) : Legible (.literal v)
  | field {name : String} (h : isName name.toList = true) : Legible (.field name)
  | localVar {name : String} (h : isName name.toList = true) : Legible (.localVar name)
  | read (getter : Getter) (name : String) : Legible (.read getter name)
  | cast {c : Code} {type : TargetType} (h : Legible c) (ht : type.isNumber = true) :
      Legible (.cast c type)
  | neg {c : Code} {type : TargetType} (h : Legible (.cast c type)) :
      Legible (.unary .neg (.cast c type))
  | not {c : Code} (h : Legible c) : Legible (.unary .not c)
  | binary (op : BinaryOp) {l r : Code} (hl : Legible l) (hr : Legible r) :
      Legible (.binary op l r)
  | concat {l r : Code} (hl : Legible l) (hr : Legible r) : Legible (.concat l r)

theorem exists_of_height_le {c : Code} {depth : Nat} (h : c.height ≤ depth) :
    ∃ k, depth = k + 1 := by
  have hpos : 1 ≤ c.height := by cases c <;> simp [height]
  exact ⟨depth - 1, by omega⟩

theorem height_le_length (c : Code) : c.height ≤ c.print.toList.length + 1 := by
  have hopen : "(".toList.length = 1 := rfl
  have hclose : ")".toList.length = 1 := rfl
  induction c with
  | literal | field | localVar | read => simp [height]
  | cast operand type ih =>
      simp only [height, print_cast, String.toList_append, List.length_append]
      omega
  | unary op operand ih =>
      simp only [height, print_unary, String.toList_append, List.length_append]
      omega
  | binary op left right ihl ihr =>
      simp only [height, print_binary, String.toList_append, List.length_append]
      omega
  | concat left right ihl ihr =>
      simp only [height, print_concat, String.toList_append, List.length_append]
      omega

/-- What stands behind an opening bracket neither closes it nor is an operator. -/
def Opens (cs : List Char) : Prop :=
  ∃ c rest, cs = c :: rest ∧ c ≠ ')' ∧ c ≠ '!' ∧ (c = '-' → rest.head? ≠ some '(')

theorem bracketed?_of_opens {cs : List Char} (h : Opens cs)
    (inner : List Char → Option (Code × List Char)) :
    bracketed? inner cs = operation? inner cs := by
  obtain ⟨c, rest, rfl, hclose, hnot, hminus⟩ := h
  rw [bracketed?]
  · intro cs hc
    exact hclose (List.cons.inj hc).1
  · intro cs hc
    exact hnot (List.cons.inj hc).1
  · intro cs hc
    obtain ⟨rfl, rfl⟩ := List.cons.inj hc
    exact hminus rfl rfl

theorem opens_of_atom? {w : List Char} {c : Code} (h : atom? w = some c) (cs : List Char) :
    Opens (w ++ ' ' :: cs) := by
  obtain ⟨hne, hall⟩ := isAtomChar_of_atom? h
  have hends : ∀ d ∈ w, endsWord d = false ∧ d ≠ '!' := fun d hd =>
    endsWord_of_isAtomChar (List.all_eq_true.mp hall d hd)
  cases w with
  | nil => exact absurd rfl hne
  | cons d w =>
      obtain ⟨hd, hnot⟩ := hends d List.mem_cons_self
      refine ⟨d, w ++ ' ' :: cs, rfl, ?_, hnot, fun _ => ?_⟩
      · rintro rfl
        cases hd
      · cases w with
        | nil => simp
        | cons e w =>
            have he := (hends e (by simp)).1
            rw [List.cons_append, List.head?_cons]
            rintro ⟨⟩
            cases he

section Text

variable (c l r : Code) (cs : List Char)

theorem toList_open : "(".toList ++ cs = '(' :: cs := rfl

theorem toList_close : ")".toList ++ cs = ')' :: cs := rfl

theorem toList_blank : " ".toList ++ cs = ' ' :: cs := rfl

theorem toList_read (getter : Getter) (name : String) :
    (read getter name).print.toList ++ cs = ("ctx." ++ getter.name).toList ++
      '(' :: ((Text.Quoted.quote name).toList ++ ')' :: cs) := by
  simp only [print_read, String.toList_append, List.append_assoc, List.cons_append, toList_open,
    toList_close]

theorem toList_cast (type : TargetType) :
    (cast c type).print.toList ++ cs =
      '(' :: (c.print.toList ++ ' ' :: ("as".toList ++ ' ' :: (type.text.toList ++ ')' :: cs))) := by
  have has : ∀ cs, " as ".toList ++ cs = ' ' :: ("as".toList ++ ' ' :: cs) := fun _ => rfl
  simp only [print_cast, String.toList_append, List.append_assoc, List.cons_append, toList_open,
    toList_close, has]

theorem toList_unary (op : UnaryOp) :
    (unary op c).print.toList ++ cs = '(' :: (op.symbol.toList ++ (c.print.toList ++ ')' :: cs)) := by
  simp only [print_unary, String.toList_append, List.append_assoc, List.cons_append, toList_open,
    toList_close]

theorem toList_binary (op : BinaryOp) :
    (binary op l r).print.toList ++ cs = '(' :: (l.print.toList ++
      ' ' :: (op.symbol.toList ++ ' ' :: (r.print.toList ++ ')' :: cs))) := by
  simp only [print_binary, String.toList_append, List.append_assoc, List.cons_append, toList_open,
    toList_close, toList_blank]

theorem toList_concat :
    (concat l r).print.toList ++ cs = "format!".toList ++ ("(\"\x7b\x7d\x7b\x7d\", ".toList ++
      (l.print.toList ++ (", ".toList ++ (r.print.toList ++ ')' :: cs)))) := by
  have hname : "format!(\"\x7b\x7d\x7b\x7d\", ".toList =
      "format!".toList ++ "(\"\x7b\x7d\x7b\x7d\", ".toList := rfl
  simp only [print_concat, String.toList_append, List.append_assoc, hname, toList_close]

end Text

theorem opens_cons {d : Char} (hclose : d ≠ ')') (hnot : d ≠ '!') (hminus : d ≠ '-')
    (cs : List Char) : Opens (d :: cs) :=
  ⟨d, cs, rfl, hclose, hnot, fun h => absurd h hminus⟩

theorem Legible.opens {c : Code} (h : c.Legible) (cs : List Char) :
    Opens (c.print.toList ++ ' ' :: cs) := by
  cases h with
  | literal v =>
      rw [print_literal]
      cases v with
      | null => exact opens_cons (by decide) (by decide) (by decide) _
      | text s =>
          rw [Value.literal, Text.Quoted.quote, Text.Quoted.toList_quoteWith]
          exact opens_cons (by decide) (by decide) (by decide) _
      | int | float | bool => exact opens_of_atom? (atom?_literal (by simp) (by simp)) cs
  | field h =>
      rw [print_field]
      exact opens_of_atom? (atom?_field h) cs
  | localVar h =>
      rw [print_local]
      exact opens_of_atom? (atom?_localVar h) cs
  | read getter name =>
      rw [toList_read, String.toList_append]
      exact opens_cons (by decide) (by decide) (by decide) _
  | cast h ht =>
      rw [toList_cast]
      exact opens_cons (by decide) (by decide) (by decide) _
  | neg h | not h =>
      rw [toList_unary]
      exact opens_cons (by decide) (by decide) (by decide) _
  | binary op hl hr =>
      rw [toList_binary]
      exact opens_cons (by decide) (by decide) (by decide) _
  | concat hl hr =>
      rw [toList_concat]
      exact opens_cons (by decide) (by decide) (by decide) _

/-- Every legible expression reads back from its text, wherever the text ends. -/
theorem Legible.expression?_print {c : Code} (h : c.Legible) {depth : Nat} (hd : c.height ≤ depth)
    {cs : List Char} (hcs : Stops cs) :
    expression? depth (c.print.toList ++ cs) = some (c, cs) := by
  induction h generalizing depth cs with
  | literal v =>
      obtain ⟨depth, rfl⟩ := exists_of_height_le hd
      rw [print_literal]
      cases v with
      | null => rfl
      | text s =>
          rw [Value.literal, Text.Quoted.quote, Text.Quoted.toList_quoteWith, List.cons_append,
            List.append_assoc, expression?, List.cons_append, List.nil_append, quoted?_encode]
          rfl
      | int | float | bool => exact expression?_atom (atom?_literal (by simp) (by simp)) depth hcs
  | field h =>
      obtain ⟨depth, rfl⟩ := exists_of_height_le hd
      rw [print_field]
      exact expression?_atom (atom?_field h) depth hcs
  | localVar h =>
      obtain ⟨depth, rfl⟩ := exists_of_height_le hd
      rw [print_local]
      exact expression?_atom (atom?_localVar h) depth hcs
  | read getter name =>
      obtain ⟨depth, rfl⟩ := exists_of_height_le hd
      rw [toList_read, expression?_word (getter?_name getter).1 (by simp)]
      exact worded?_read (expression? depth) getter name cs
  | @cast c type hc ht ih =>
      obtain ⟨depth, rfl⟩ := exists_of_height_le hd
      rw [height] at hd
      rw [toList_cast, expression?, bracketed?_of_opens (hc.opens _)]
      exact operation?_cast ht (ih (by omega) (stops_cons rfl _))
  | @neg c type hc ih =>
      obtain ⟨depth, rfl⟩ := exists_of_height_le hd
      rw [height] at hd
      have hread : expression? depth ((Code.cast c type).print.toList ++ ')' :: cs) = _ :=
        ih (by omega) (stops_cons rfl _)
      rw [toList_unary, expression?]
      rw [toList_cast] at hread ⊢
      exact operand?_eq .neg hread
  | @not c hc ih =>
      obtain ⟨depth, rfl⟩ := exists_of_height_le hd
      rw [height] at hd
      rw [toList_unary, expression?]
      exact operand?_eq .not (ih (by omega) (stops_cons rfl _))
  | @binary op l r hl hr ihl ihr =>
      obtain ⟨depth, rfl⟩ := exists_of_height_le hd
      rw [height] at hd
      rw [toList_binary, expression?, bracketed?_of_opens (hl.opens _)]
      exact operation?_binary (ihl (by omega) (stops_cons rfl _)) (ihr (by omega) (stops_cons rfl _))
  | @concat l r hl hr ihl ihr =>
      obtain ⟨depth, rfl⟩ := exists_of_height_le hd
      rw [height] at hd
      have hright : expression? depth (r.print.toList ++ ')' :: cs) = _ :=
        ihr (by omega) (stops_cons rfl _)
      rw [toList_concat, expression?_word (by decide) (by simp)]
      exact worded?_join (ihl (by omega) (stops_cons rfl _)) hright

theorem Legible.whole?_print {c : Code} (h : c.Legible) : whole? c.print.toList = some c := by
  have hread := h.expression?_print c.height_le_length stops_nil
  rw [List.append_nil] at hread
  rw [whole?, hread]

end Code

namespace Reading

theorem type?_text (type : TargetType) (cs : List Char) :
    type? (type.text.toList ++ cs) = some (type, cs) := by
  cases type <;> simp [type?, types, expect, List.dropPrefix?, TargetType.text]

section Initial

variable {c : Code} (h : c.Legible) (cs : List Char)

include h

theorem expression?_rest (hcs : Stops cs) :
    expression? ((c.print.toList ++ cs).length + 1) (c.print.toList ++ cs) = some (c, cs) := by
  refine h.expression?_print ?_ hcs
  have hheight := c.height_le_length
  rw [List.length_append]
  omega

theorem initial?_print : initial? (c.print.toList ++ ';' :: cs) = some (c, ';' :: cs) := by
  have hcast : expect " as " (';' :: cs) = none := rfl
  simp only [initial?, expression?_rest h _ (stops_cons (c := ';') rfl cs), Option.bind_eq_bind,
    Option.bind_some, hcast]

theorem initial?_cast {type : TargetType} (ht : type.isNumber = true) :
    initial? (c.print.toList ++ (" as ".toList ++ (type.text.toList ++ ';' :: cs))) =
      some (.cast c type, ';' :: cs) := by
  obtain ⟨hunbroken, hread⟩ := numberType?_text ht
  obtain ⟨hword, hafter⟩ := word_append hunbroken (stops_cons (c := ';') rfl cs)
  have hstops : Stops (" as ".toList ++ (type.text.toList ++ ';' :: cs)) := stops_cons rfl _
  simp only [initial?, expression?_rest h _ hstops, Option.bind_eq_bind, Option.bind_some,
    expect_append, hword, hafter, hread]

end Initial

/-- A declaration reads back from its parts. -/
theorem declaration?_eq {keyword name : String} {type : TargetType} {content : Code}
    {indent start remark : List Char} (hindent : ∀ c ∈ indent, c = ' ')
    (hkeyword : ∃ c rest, keyword.toList = c :: rest ∧ c ≠ ' ') (hname : isName name.toList = true)
    (hstart : initial? (start ++ ';' :: remark) = some (content, ';' :: remark))
    (hremark : isRemark remark = true) :
    declaration? keyword (indent ++ (keyword.toList ++ (name.toList ++ (": ".toList ++
      (type.text.toList ++ (" = ".toList ++ (start ++ ';' :: remark))))))) =
      some ⟨name, type, content⟩ := by
  have hbehind : ∀ cs, (indent ++ (keyword.toList ++ cs)).dropWhile (· = ' ') =
      keyword.toList ++ cs := by
    intro cs
    obtain ⟨c, rest, hlist, hc⟩ := hkeyword
    rw [List.dropWhile_append_of_pos (by simpa using hindent), hlist]
    simp [hc]
  have hchars : ∀ c ∈ name.toList, isNameChar c = true := List.all_eq_true.mp (all_isNameChar (isIdentifier_of_isName hname))
  have hcolon : ∀ cs, ": ".toList ++ cs = ':' :: ' ' :: cs := fun _ => rfl
  have hsplit : ∀ cs, (name.toList ++ (": ".toList ++ cs)).takeWhile isNameChar = name.toList ∧
      (name.toList ++ (": ".toList ++ cs)).dropWhile isNameChar = ": ".toList ++ cs := by
    intro cs
    rw [List.takeWhile_append_of_pos hchars, List.dropWhile_append_of_pos hchars, hcolon]
    have hstop : isNameChar ':' = false := rfl
    simp [hstop]
  have hsemicolon : expect ";" (';' :: remark) = some remark := expect_append ";" remark
  simp only [declaration?, hbehind, expect_append, Option.bind_eq_bind, Option.bind_some,
    (hsplit _).1, (hsplit _).2, type?_text, hstart, hsemicolon, hname, hremark, Bool.and_self,
    if_true, String.ofList_toList]

end Reading

end FormulaCompiler
