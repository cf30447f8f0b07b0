import FormulaCompiler.Operator.Apply
import FormulaCompiler.Proofs.Decimal.Natural
import FormulaCompiler.Proofs.Decimal.Nearest
import FormulaCompiler.Target.Code

/-!
# Reading numerals

A numeral is digits with a point and an exponent, as the case may be, and the name of its type. It
is read without regard to how it was written. An integer is the number that its digits make, a float
the double nearest to the decimal. So every number is read back from its literal.
-/

namespace FormulaCompiler.Decimal

/-- The digits at the beginning, of which there is at least one, and what follows them. -/
def digits? (cs : List Char) : Option (List Char × List Char) :=
  if (cs.takeWhile Char.isDigit).isEmpty then none
  else some (cs.takeWhile Char.isDigit, cs.dropWhile Char.isDigit)

/-- The natural that is written. -/
def natural? (cs : List Char) : Option Nat :=
  match digits? cs with
  | some (ds, []) => some (Nat.ofDigitChars 10 ds 0)
  | _ => none

/-- The power of ten behind a decimal; none is the zeroth. -/
def exponent? : List Char → Option Int
  | [] => some 0
  | 'e' :: '-' :: cs => (natural? cs).map fun (n : Nat) => -(n : Int)
  | 'e' :: cs => (natural? cs).map fun (n : Nat) => (n : Int)
  | _ => none

/-- The digits behind the point, if there is one, and what follows them. -/
def fraction? : List Char → Option (List Char × List Char)
  | '.' :: cs => digits? cs
  | cs => some ([], cs)

/-- The number that a decimal without a sign stands for. -/
def decimal? (cs : List Char) : Option ℚ := do
  let (whole, cs) ← digits? cs
  let (fraction, cs) ← fraction? cs
  let exponent ← exponent? cs
  some (Nat.ofDigitChars 10 (whole ++ fraction) 0 * 10 ^ (exponent - fraction.length))

/-- Only digits. -/
def AllDigits (cs : List Char) : Prop := ∀ c ∈ cs, c.isDigit = true

theorem allDigits_nil : AllDigits [] := fun _ h => by cases h

theorem allDigits_toDigits (n : Nat) : AllDigits (Nat.toDigits 10 n) := fun _ hc =>
  Nat.isDigit_of_mem_toDigits (by decide) (by decide) hc

theorem allDigits_zeros (count : Int) : AllDigits (Layout.zeros count) := by
  intro c hc
  rw [List.eq_of_mem_replicate hc]
  rfl

theorem AllDigits.append {as bs : List Char} (ha : AllDigits as) (hb : AllDigits bs) :
    AllDigits (as ++ bs) := by
  intro c hc
  rcases List.mem_append.mp hc with hc | hc
  · exact ha c hc
  · exact hb c hc

/-- No digit comes next. -/
def DigitFree (cs : List Char) : Prop := ∀ c ∈ cs.head?, c.isDigit = false

theorem digitFree_nil : DigitFree [] := fun _ h => by cases h

theorem digits?_append {ds cs : List Char} (hds : AllDigits ds) (hne : ds ≠ [])
    (hcs : DigitFree cs) : digits? (ds ++ cs) = some (ds, cs) := by
  have hstop : cs.takeWhile Char.isDigit = [] ∧ cs.dropWhile Char.isDigit = cs := by
    cases cs with
    | nil => exact ⟨rfl, rfl⟩
    | cons c cs =>
        have hc : c.isDigit = false := hcs c rfl
        simp [hc]
  unfold digits?
  rw [List.takeWhile_append_of_pos hds, List.dropWhile_append_of_pos hds, hstop.1, hstop.2,
    List.append_nil, if_neg (by simpa using hne)]

theorem natural?_toDigits (n : Nat) : natural? (Nat.toDigits 10 n) = some n := by
  have h := digits?_append (allDigits_toDigits n) Nat.toDigits_ne_nil digitFree_nil
  rw [List.append_nil] at h
  rw [natural?, h]
  simp

theorem exponent?_toString (n : Int) : exponent? ('e' :: (toString n).toList) = some n := by
  rw [toString_int, String.toList_ofList]
  by_cases hn : n < 0
  · rw [if_pos hn]
    simp only [List.cons_append, List.nil_append, exponent?]
    rw [natural?_toDigits]
    exact congrArg some (show -(n.natAbs : Int) = n by omega)
  · rw [if_neg hn, List.nil_append]
    cases hd : Nat.toDigits 10 n.natAbs with
    | nil => exact absurd hd Nat.toDigits_ne_nil
    | cons d ds =>
        have hdigit : d ≠ '-' := by
          rintro rfl
          have h := allDigits_toDigits n.natAbs '-' (by rw [hd]; exact List.mem_cons_self)
          cases h
        have hread := natural?_toDigits n.natAbs
        rw [hd] at hread
        rw [exponent?, hread]
        · exact congrArg some (show (n.natAbs : Int) = n by omega)
        · exact fun _ h => hdigit (List.cons.inj h).1

/-- A decimal with a fraction, as the case may be, and an exponent. -/
theorem decimal?_eq {whole fraction tail : List Char} {e : Int} (hwhole : AllDigits whole)
    (hne : whole ≠ []) (hfraction : AllDigits fraction) (htail : DigitFree tail)
    (hpoint : tail.head? ≠ some '.') (he : exponent? tail = some e) :
    decimal? (whole ++ ((if fraction = [] then [] else '.' :: fraction) ++ tail)) =
      some ((Nat.ofDigitChars 10 (whole ++ fraction) 0 : ℚ) * 10 ^ (e - fraction.length)) := by
  by_cases hnil : fraction = []
  · have hfree : fraction? tail = some ([], tail) := by
      cases tail with
      | nil => rfl
      | cons c cs =>
          rw [fraction?]
          intro rest hdot
          rw [hdot] at hpoint
          exact hpoint rfl
    have hdigits := digits?_append hwhole hne htail
    rw [if_pos hnil, List.nil_append, hnil]
    simp only [decimal?, hdigits, hfree, he, Option.bind_eq_bind, Option.bind_some]
  · have hdot : DigitFree ('.' :: (fraction ++ tail)) := by
      intro c hc
      cases hc
      rfl
    have hdigits := digits?_append hwhole hne hdot
    have hfree : fraction? ('.' :: (fraction ++ tail)) = some (fraction, tail) :=
      digits?_append hfraction hnil htail
    rw [if_neg hnil, List.cons_append]
    simp only [decimal?, hdigits, hfree, he, Option.bind_eq_bind, Option.bind_some]

/-- Digits on both sides of the point. -/
theorem decimal?_point {whole fraction : List Char} (hwhole : AllDigits whole) (hne : whole ≠ [])
    (hfraction : AllDigits fraction) (hne' : fraction ≠ []) :
    decimal? (whole ++ '.' :: fraction) =
      some ((Nat.ofDigitChars 10 (whole ++ fraction) 0 : ℚ) * 10 ^ (-(fraction.length : Int))) := by
  have h := decimal?_eq hwhole hne hfraction digitFree_nil (by simp) rfl
  rw [if_neg hne', List.append_nil, Int.zero_sub] at h
  exact h

theorem Digits.ofDigitChars_text (d : Digits) : Nat.ofDigitChars 10 d.text 0 = d.digits :=
  Nat.ofDigitChars_ten_toDigits

theorem Digits.text_ne_nil (d : Digits) : d.text ≠ [] := Nat.toDigits_ne_nil

theorem Digits.allDigits_text (d : Digits) : AllDigits d.text := allDigits_toDigits _

theorem AllDigits.sublist {as bs : List Char} (h : AllDigits bs) (hs : as.Sublist bs) :
    AllDigits as := fun c hc => h c (hs.subset hc)

theorem ofDigitChars_zeros (count : Int) (n : Nat) :
    Nat.ofDigitChars 10 (Layout.zeros count) n = 10 ^ count.toNat * n :=
  Nat.ofDigitChars_replicate_zero

theorem allDigits_zero : AllDigits ['0'] := allDigits_zeros 1

/-- Positional writing that always has a fraction. -/
theorem decimal?_positional (d : Digits) :
    decimal? (Layout.literal.positional d) = some d.value := by
  have hpoint : d.point = d.text.length + d.exponent := rfl
  have hlength := List.length_pos_iff.mpr d.text_ne_nil
  have htext := d.allDigits_text
  unfold Layout.positional Digits.value
  dsimp only
  by_cases hsmall : d.point ≤ 0
  · -- Zeros stand between the point and the digits.
    have h := decimal?_point allDigits_zero (List.cons_ne_nil _ _)
      ((allDigits_zeros (-d.point)).append htext) (by simp [d.text_ne_nil])
    have hdigits : Nat.ofDigitChars 10 (['0'] ++ (Layout.zeros (-d.point) ++ d.text)) 0 =
        d.digits := by
      rw [Nat.ofDigitChars_append, Nat.ofDigitChars_append, ofDigitChars_zeros]
      exact d.ofDigitChars_text
    rw [if_pos hsmall]
    refine h.trans ?_
    rw [hdigits, List.length_append, Layout.zeros, List.length_replicate]
    congr 3
    omega
  · rw [if_neg hsmall]
    by_cases hlarge : (d.text.length : Int) ≤ d.point
    · -- Zeros stand between the digits and the point.
      have h := decimal?_point (htext.append (allDigits_zeros (d.point - d.text.length)))
        (by simp [d.text_ne_nil]) allDigits_zero (List.cons_ne_nil _ _)
      have hdigits : Nat.ofDigitChars 10 (d.text ++ Layout.zeros (d.point - d.text.length) ++ ['0'])
          0 = 10 * (10 ^ (d.point - d.text.length).toNat * d.digits) := by
        rw [Nat.ofDigitChars_append, Nat.ofDigitChars_append, ofDigitChars_zeros,
          d.ofDigitChars_text]
        rfl
      have hexponent : ((d.point - d.text.length).toNat : Int) = d.exponent := by omega
      rw [if_pos hlarge]
      refine h.trans (congrArg some ?_)
      rw [hdigits]
      push_cast
      rw [← zpow_natCast, hexponent]
      simp only [List.length_singleton, Nat.cast_one, zpow_neg, zpow_one]
      ring
    · rw [if_neg hlarge]
      have h := decimal?_point (htext.sublist (List.take_sublist d.point.toNat _))
        (by simp [d.text_ne_nil]; omega) (htext.sublist (List.drop_sublist d.point.toNat _))
        (by simp; omega)
      refine h.trans ?_
      rw [List.take_append_drop, d.ofDigitChars_text, List.length_drop]
      congr 3
      omega

theorem decimal?_exponential (d : Digits) : decimal? (Layout.exponential d) = some d.value := by
  have hpoint : d.point = d.text.length + d.exponent := rfl
  have hlength := List.length_pos_iff.mpr d.text_ne_nil
  have htext := d.allDigits_text
  have htail : DigitFree ('e' :: (toString (d.point - 1)).toList) := by
    intro c hc
    cases hc
    rfl
  have h := decimal?_eq (htext.sublist (List.take_sublist 1 _)) (by simp [d.text_ne_nil])
    (htext.sublist (List.drop_sublist 1 _)) htail (by simp) (exponent?_toString (d.point - 1))
  unfold Layout.exponential Digits.value
  dsimp only
  rw [List.append_assoc]
  simp only [List.isEmpty_iff]
  refine h.trans ?_
  rw [List.take_append_drop, d.ofDigitChars_text, List.length_drop]
  congr 3
  omega

/-- A literal's magnitude is read as the number that it is the shortest decimal of. -/
theorem decimal?_magnitude (m : Nat) (q : Int) :
    decimal? (Layout.literal.magnitude m q) =
      some (if m = 0 then 0 else (shortest m q).value) := by
  unfold Layout.magnitude
  split
  · have h := decimal?_point allDigits_zero (List.cons_ne_nil _ _) allDigits_zero
      (List.cons_ne_nil _ _)
    refine h.trans (congrArg some ?_)
    simp [Nat.ofDigitChars]
  · dsimp only
    split
    · exact decimal?_exponential _
    · exact decimal?_positional _

theorem eq_of_digits? {cs ds rest : List Char} (h : digits? cs = some (ds, rest)) :
    cs = ds ++ rest ∧ AllDigits ds ∧ ds ≠ [] := by
  unfold digits? at h
  split at h
  · cases h
  · rename_i hne
    cases h
    refine ⟨List.takeWhile_append_dropWhile.symm, ?_, by simpa using hne⟩
    exact fun c hc => List.mem_takeWhile_imp hc

/-- The characters of decimals. -/
def isDecimal (c : Char) : Bool := c.isDigit || c = '.' || c = 'e' || c = '-'

theorem AllDigits.all_isDecimal {cs : List Char} (h : AllDigits cs) : cs.all isDecimal = true := by
  rw [List.all_eq_true]
  intro c hc
  simp [isDecimal, h c hc]

theorem AllDigits.head {cs : List Char} (h : AllDigits cs) (hne : cs ≠ []) :
    ∃ c ∈ cs.head?, c.isDigit = true := by
  cases cs with
  | nil => exact absurd rfl hne
  | cons c cs => exact ⟨c, rfl, h c List.mem_cons_self⟩

theorem allDigits_of_natural? {cs : List Char} {n : Nat} (h : natural? cs = some n) :
    AllDigits cs ∧ cs ≠ [] := by
  unfold natural? at h
  split at h
  · rename_i ds hdigits
    obtain ⟨rfl, hds, hne⟩ := eq_of_digits? hdigits
    rw [List.append_nil]
    exact ⟨hds, hne⟩
  · cases h

theorem all_isDecimal_of_exponent? {cs : List Char} {e : Int} (h : exponent? cs = some e) :
    cs.all isDecimal = true := by
  unfold exponent? at h
  split at h
  · rfl
  · obtain ⟨n, hn, -⟩ := Option.map_eq_some_iff.mp h
    simpa [isDecimal] using (allDigits_of_natural? hn).1.all_isDecimal
  · obtain ⟨n, hn, -⟩ := Option.map_eq_some_iff.mp h
    simpa [isDecimal] using (allDigits_of_natural? hn).1.all_isDecimal
  · cases h

/-- What is read as a decimal begins with a digit and has no other characters. -/
theorem chars_of_decimal? {cs : List Char} {x : ℚ} (h : decimal? cs = some x) :
    (∃ c ∈ cs.head?, c.isDigit = true) ∧ cs.all isDecimal = true := by
  simp only [decimal?, Option.bind_eq_bind, Option.bind_eq_some_iff] at h
  obtain ⟨⟨whole, rest⟩, hwhole, ⟨fraction, tail⟩, hfraction, e, he, -⟩ := h
  obtain ⟨rfl, hdigits, hne⟩ := eq_of_digits? hwhole
  refine ⟨?_, ?_⟩
  · obtain ⟨c, hc, hdigit⟩ := hdigits.head hne
    exact ⟨c, by rw [List.head?_append, hc]; rfl, hdigit⟩
  · have htail := all_isDecimal_of_exponent? he
    rw [List.all_append, hdigits.all_isDecimal, Bool.true_and]
    unfold fraction? at hfraction
    split at hfraction
    · rename_i hrest
      obtain ⟨rfl, hdigits', -⟩ := eq_of_digits? hfraction
      rw [show rest = _ from hrest, List.all_cons, List.all_append, hdigits'.all_isDecimal, htail]
      rfl
    · cases hfraction
      exact htail

theorem nearest?_zero : nearest? 0 = some (0, -1074) := by
  have hzero : halfEven (0 / 2 ^ (-1074 : Int)) = 0 :=
    halfEven_eq (by simp) (by norm_num) (by norm_num) (.inl rfl)
  unfold nearest? nearestFrom
  dsimp only
  rw [hzero, if_pos (by norm_num)]

/-- Every finite double is read back from its magnitude. -/
theorem nearest?_magnitude {m : Nat} {q : Int} (h : Binary64.Canonical m q) :
    (decimal? (Layout.literal.magnitude m q)).bind nearest? = some (m, q) := by
  rw [decimal?_magnitude, Option.bind_some]
  split
  · rename_i hm
    have hq : q = -1074 := h.normal.resolve_left (by rw [hm]; norm_num)
    rw [hm, hq]
    exact nearest?_zero
  · rename_i hm
    exact nearest?_shortest h hm

end FormulaCompiler.Decimal

namespace FormulaCompiler

open Decimal

/-- A sign and what follows it. -/
def signed : List Char → Bool × List Char
  | '-' :: cs => (true, cs)
  | cs => (false, cs)

/-- The number that a numeral stands for. -/
def numeral? (cs : List Char) : Option Value :=
  let (negative, cs) := signed cs
  let body := cs.takeWhile (· ≠ '_')
  let suffix := cs.dropWhile (· ≠ '_')
  if suffix = ['_', 'i', '6', '4'] then do
    let n ← natural? body
    let n ← fitInt64? (if negative then -n else n)
    some (.int n)
  else if suffix = ['_', 'f', '6', '4'] then do
    let x ← decimal? body
    let (m, q) ← nearest? x
    some (.float (Binary64.finite negative m q).toFloat)
  else none

theorem eq_of_signed (cs : List Char) : cs = '-' :: (signed cs).2 ∨ cs = (signed cs).2 := by
  unfold signed
  split
  · exact .inl rfl
  · exact .inr rfl

/-- A character of the names of the two types. -/
def isSuffix (c : Char) : Bool := c = '_' || c = 'i' || c = 'f' || c = '6' || c = '4'

/-- The text begins with a digit and has the characters of decimals and of the names of the two
types. -/
structure Digital (cs : List Char) : Prop where
  head : ∃ c ∈ cs.head?, c.isDigit = true
  chars : ∀ c ∈ cs, isDecimal c = true ∨ isSuffix c = true

theorem digital_append {body suffix : List Char} (hhead : ∃ c ∈ body.head?, c.isDigit = true)
    (hbody : body.all isDecimal = true) (hsuffix : suffix.all isSuffix = true) :
    Digital (body ++ suffix) where
  head := by
    obtain ⟨c, hc, hdigit⟩ := hhead
    exact ⟨c, by rw [List.head?_append, hc]; rfl, hdigit⟩
  chars := by
    intro c hc
    rcases List.mem_append.mp hc with hc | hc
    · exact .inl (List.all_eq_true.mp hbody c hc)
    · exact .inr (List.all_eq_true.mp hsuffix c hc)

/-- What is read as a numeral is digital, apart from a sign. -/
theorem digital_of_numeral? {cs : List Char} {v : Value} (h : numeral? cs = some v) :
    Digital (signed cs).2 := by
  rcases hsigned : signed cs with ⟨negative, rest⟩
  unfold numeral? at h
  rw [hsigned] at h
  dsimp only at h ⊢
  have hrest : rest.takeWhile (· ≠ '_') ++ rest.dropWhile (· ≠ '_') = rest :=
    List.takeWhile_append_dropWhile
  rw [← hrest]
  split at h
  · rename_i hdrop
    obtain ⟨n, hn, -⟩ := Option.bind_eq_some_iff.mp h
    obtain ⟨hdigits, hne⟩ := allDigits_of_natural? hn
    exact digital_append (hdigits.head hne) hdigits.all_isDecimal (by rw [hdrop]; rfl)
  · split at h
    · rename_i hdrop
      obtain ⟨x, hx, -⟩ := Option.bind_eq_some_iff.mp h
      obtain ⟨hhead, hall⟩ := chars_of_decimal? hx
      exact digital_append hhead hall (by rw [hdrop]; rfl)
    · cases h

/-- Where the name of the type begins. -/
theorem split_suffix {body : List Char} (h : body.all isDecimal = true) (name : List Char) :
    (body ++ '_' :: name).takeWhile (· ≠ '_') = body ∧
      (body ++ '_' :: name).dropWhile (· ≠ '_') = '_' :: name := by
  have hbody : ∀ c ∈ body, decide (c ≠ '_') = true := by
    intro c hc
    have hdecimal := List.all_eq_true.mp h c hc
    refine decide_eq_true ?_
    rintro rfl
    cases hdecimal
  constructor
  · rw [List.takeWhile_append_of_pos hbody]
    simp
  · rw [List.dropWhile_append_of_pos hbody]
    simp

theorem signed_append (negative : Bool) {cs : List Char} (h : ∃ c ∈ cs.head?, c.isDigit = true) :
    signed ((if negative then ['-'] else []) ++ cs) = (negative, cs) := by
  cases negative with
  | true => rfl
  | false =>
      obtain ⟨c, hc, hdigit⟩ := h
      cases cs with
      | nil => cases hc
      | cons d cs =>
          cases hc
          rw [if_neg Bool.false_ne_true, List.nil_append, signed]
          intro rest hminus
          obtain ⟨rfl, -⟩ := List.cons.inj hminus
          cases hdigit

/-- A numeral with its sign and its type taken apart. -/
theorem numeral?_eq (negative : Bool) {body : List Char} {x : ℚ} (h : decimal? body = some x)
    (name : List Char) :
    numeral? ((if negative then ['-'] else []) ++ (body ++ '_' :: name)) =
      if '_' :: name = ['_', 'i', '6', '4'] then do
        let n ← natural? body
        let n ← fitInt64? (if negative then -n else n)
        some (.int n)
      else if '_' :: name = ['_', 'f', '6', '4'] then do
        let (m, q) ← nearest? x
        some (.float (Binary64.finite negative m q).toFloat)
      else none := by
  obtain ⟨hhead, hall⟩ := chars_of_decimal? h
  have hsigned : signed ((if negative then ['-'] else []) ++ (body ++ '_' :: name)) =
      (negative, body ++ '_' :: name) := by
    refine signed_append negative ?_
    cases body with
    | nil =>
        obtain ⟨c, hc, -⟩ := hhead
        cases hc
    | cons c body => exact hhead
  obtain ⟨htake, hdrop⟩ := split_suffix hall name
  unfold numeral?
  rw [hsigned]
  dsimp only
  rw [htake, hdrop, h]
  rfl

theorem fitInt64?_toInt (n : Int64) : fitInt64? n.toInt = some n := by
  have hsome := (fitInt64?_isSome_iff n.toInt).mpr ⟨n.minValue_le_toInt, n.toInt_le⟩
  obtain ⟨m, hm⟩ := Option.isSome_iff_exists.mp hsome
  rw [hm, Int64.toInt_inj.mp (toInt_of_fitInt64? hm)]

theorem numeral?_int (n : Int64) : numeral? (Value.int n).literal.toList = some (.int n) := by
  have hdecimal := decimal?_eq (allDigits_toDigits n.toInt.natAbs) Nat.toDigits_ne_nil
    allDigits_nil digitFree_nil (by simp) rfl
  rw [if_pos rfl, List.append_nil, List.append_nil] at hdecimal
  have hliteral : (Value.int n).literal.toList = (if decide (n.toInt < 0) then ['-'] else []) ++
      (Nat.toDigits 10 n.toInt.natAbs ++ '_' :: ['i', '6', '4']) := by
    simp only [Value.literal, toString_int, String.toList_append, String.toList_ofList,
      List.append_assoc, decide_eq_true_eq]
    rfl
  have hvalue : (if decide (n.toInt < 0) then -(n.toInt.natAbs : Int) else n.toInt.natAbs) =
      n.toInt := by
    simp only [decide_eq_true_eq]
    split <;> omega
  rw [hliteral, numeral?_eq _ hdecimal, if_pos rfl, natural?_toDigits]
  simp only [Option.bind_eq_bind, Option.bind_some, hvalue, fitInt64?_toInt]

theorem numeral?_float {x : Float} {negative : Bool} {m : Nat} {q : Int}
    (h : Binary64.ofFloat x = .finite negative m q) :
    numeral? (Value.float x).literal.toList = some (.float x) := by
  have hcanonical := (Binary64.finite_of_ofBits x.toBits.toNat_lt h).1
  have hnearest := nearest?_magnitude hcanonical
  obtain ⟨y, hy, hmq⟩ := Option.bind_eq_some_iff.mp hnearest
  have hliteral : (Value.float x).literal.toList =
      (if negative then ['-'] else []) ++ (Layout.literal.magnitude m q ++ '_' :: ['f', '6', '4']) := by
    simp only [Value.literal, h, Layout.write, String.toList_append, String.toList_ofList,
      List.append_assoc]
    rfl
  rw [hliteral, numeral?_eq negative hy]
  rw [if_neg (by decide), if_pos rfl, hmq]
  have hx := Binary64.toFloat_ofFloat x
  rw [h] at hx
  exact congrArg (some ∘ Value.float) hx

end FormulaCompiler
