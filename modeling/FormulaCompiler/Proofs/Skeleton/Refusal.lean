import FormulaCompiler.Proofs.Naming
import FormulaCompiler.Proofs.Skeleton.RoundTrip

/-!
# Why a text is no skeleton

A reader that goes from opener to opener, behind each known placeholder, either comes to one that
begins no known placeholder or reads the whole text. In the first case the text is refused for that
opener, in the second for the first slot that does not occur in it, if there is one. Each refusal
is told apart by its wording. Files that cannot be read are not considered here.
-/

namespace FormulaCompiler

theorem Slot.mark_inj {token token' : String} (h : mark token = mark token') : token = token' :=
  (String.append_right_inj _).mp ((String.append_left_inj _).mp h)

namespace SkeletonError

/-- The refusal concerns the text of a skeleton, not the file that holds it. -/
def AboutText : SkeletonError → Prop
  | .unterminated _ | .unknown _ | .missing _ => True
  | .unreadable _ _ | .other _ => False

/-- What the wording of a refusal begins with, by which its kind is told. -/
def heading : SkeletonError → List Char
  | .unterminated _ => ['u', 'n', 't']
  | .unknown _ => ['u', 'n', 'k']
  | .missing _ => ['m', 'i', 's']
  | .unreadable _ _ | .other _ => []

theorem take_message {e : SkeletonError} (he : e.AboutText) :
    e.message.toList.take 3 = e.heading := by
  have htake : ∀ (a b : String) (cs : List Char), a.toList.take 3 = cs → cs.length = 3 →
      (a ++ b).toList.take 3 = cs := by
    intro a b cs ha hcs
    have hlong : 3 ≤ a.toList.length := by
      rw [← ha, List.length_take] at hcs
      omega
    rw [String.toList_append, List.take_append_of_le_length hlong, ha]
  cases e with
  | unreadable | other => exact he.elim
  | unterminated offset =>
      exact htake "unterminated placeholder at byte " (toString offset) ['u', 'n', 't']
        (by decide +kernel) rfl
  | unknown token =>
      exact htake _ "`" _ (htake "unknown placeholder `" (Slot.mark token) ['u', 'n', 'k']
        (by decide +kernel) rfl) rfl
  | missing slot =>
      exact htake _ "`" _ (htake "missing placeholder `" slot.placeholder ['m', 'i', 's']
        (by decide +kernel) rfl) rfl

/-- Refusals of a text differ in their wording. -/
theorem message_inj {e e' : SkeletonError} (he : e.AboutText) (he' : e'.AboutText)
    (h : e.message = e'.message) : e = e' := by
  have hkind : e.heading = e'.heading := by rw [← take_message he, ← take_message he', h]
  cases e with
  | unreadable | other => exact he.elim
  | unterminated offset =>
      cases e' with
      | unreadable | other => exact he'.elim
      | unknown | missing => simp [heading] at hkind
      | unterminated offset' =>
          change numbered "unterminated placeholder at byte " offset =
            numbered "unterminated placeholder at byte " offset' at h
          rw [(numbered_inj _).mp h]
  | unknown token =>
      cases e' with
      | unreadable | other => exact he'.elim
      | unterminated | missing => simp [heading] at hkind
      | unknown token' =>
          have hmark : Slot.mark token = Slot.mark token' :=
            (String.append_right_inj _).mp ((String.append_left_inj _).mp h)
          rw [Slot.mark_inj hmark]
  | missing slot =>
      cases e' with
      | unreadable | other => exact he'.elim
      | unterminated | unknown => simp [heading] at hkind
      | missing slot' =>
          have hmark : Slot.mark slot.token = Slot.mark slot'.token :=
            (String.append_right_inj _).mp ((String.append_left_inj _).mp h)
          rw [Slot.token_inj (Slot.mark_inj hmark)]

end SkeletonError

namespace Skeleton

/-- Going through a text from opener to opener, behind each known placeholder, one comes to the
opener between `before` and `after`. -/
inductive ComesTo : List Char → List Char → List Char → Prop
  | first {before after : List Char} (h : Unmarked before) :
      ComesTo (before ++ (opener ++ after)) before after
  | onward {t rest before after : List Char} (ht : Unmarked t) (slot : Slot)
      (h : ComesTo rest before after) :
      ComesTo (t ++ (slot.placeholder.toList ++ rest)) (t ++ slot.placeholder.toList ++ before)
        after

/-- The first opener of a text that begins no known placeholder. -/
structure StrayOpener (text before after : List Char) : Prop where
  comes : ComesTo text before after
  stray : ∀ slot : Slot, ¬ slot.token.toList ++ ['\x7d'] <+: after

/-- The slot's placeholder stands in the text. -/
def Occurs (slot : Slot) (text : String) : Prop := slot.placeholder.toList <:+: text.toList

section Stray

variable {text before after : List Char}

theorem ComesTo.split (h : ComesTo text before after) : text = before ++ (opener ++ after) := by
  induction h with
  | first _ => rfl
  | onward _ slot _ ih => rw [ih, List.append_assoc, List.append_assoc]

theorem scan_unterminated (h : StrayOpener text before after) (hclose : '\x7d' ∉ after)
    (offset : Nat) :
    scan offset (.text []) text = .error (.unterminated (offset + bytes before)) := by
  induction h.comes generalizing offset with
  | first hbefore => exact read_unterminated offset hbefore hclose
  | @onward t rest before after ht slot hrest ih =>
      rw [read_slot offset ht, ih ⟨hrest, h.stray⟩ hclose, bytes_append _ before,
        ← Nat.add_assoc]
      rfl

theorem scan_unknown {token rest : List Char}
    (h : StrayOpener text before (token ++ '\x7d' :: rest)) (hclose : '\x7d' ∉ token)
    (offset : Nat) :
    scan offset (.text []) text = .error (.unknown (String.ofList token)) := by
  have hno : ∀ slot : Slot, slot.token.toList ≠ token := by
    intro slot hslot
    refine h.stray slot ⟨rest, ?_⟩
    rw [hslot, List.append_assoc]
    rfl
  obtain ⟨hcomes, -⟩ := h
  generalize hafter : token ++ '\x7d' :: rest = after at hcomes
  induction hcomes generalizing offset with
  | first hbefore =>
      rw [← hafter]
      exact read_unknown offset hbefore hclose hno
  | onward ht slot _ ih =>
      rw [read_slot offset ht, ih _ hafter]
      rfl

/-- Reading either gives pieces or comes to a stray opener. -/
theorem scan_ok_or_stray (text : List Char) :
    (∃ pieces, ∀ offset, scan offset (.text []) text = .ok pieces) ∨
      ∃ before after, StrayOpener text before after := by
  induction text using reading_induction with
  | unmarked t ht => exact .inl ⟨_, fun offset => read_unmarked offset ht⟩
  | unterminated t rest ht hclose =>
      refine .inr ⟨t, rest, .first ht, fun slot hslot => hclose (hslot.subset ?_)⟩
      simp
  | unknown t token rest ht hclose hno =>
      refine .inr ⟨t, _, .first ht, fun slot hslot => ?_⟩
      obtain ⟨tail, htail⟩ := hslot
      rw [List.append_assoc, List.singleton_append] at htail
      exact hno slot (closer_inj slot.closer_notMem_token hclose htail).1
  | slot t s rest ht ih =>
      rcases ih with ⟨pieces, hpieces⟩ | ⟨before, after, hcomes, hstray⟩
      · refine .inl ⟨textBefore t.reverse (.slot s :: pieces), fun offset => ?_⟩
        rw [read_slot offset ht, hpieces]
        rfl
      · exact .inr ⟨_, after, .onward ht s hcomes, hstray⟩

end Stray

section Occurrence

variable {t rest : List Char}

/-- What begins with a character that is not in `u` does not begin inside `u`. -/
theorem infix_of_notMem {c : Char} {l u : List Char} (hc : c ∉ u)
    (h : c :: l <:+: u ++ rest) : c :: l <:+: rest := by
  induction u with
  | nil => exact h
  | cons d u ih =>
      simp only [List.mem_cons, not_or] at hc
      rw [List.cons_append, List.infix_cons_iff] at h
      rcases h with hhead | hbelow
      · obtain ⟨tail, htail⟩ := hhead
        exact absurd (List.cons.inj htail).1 hc.1
      · exact ih hc.2 hbelow

/-- A placeholder does not begin inside unmarked text. -/
theorem placeholder_infix_of_unmarked {slot : Slot} (ht : Unmarked t)
    (hrest : rest.head? ≠ some '\x7b') (h : slot.placeholder.toList <:+: t ++ rest) :
    slot.placeholder.toList <:+: rest := by
  induction t with
  | nil => exact h
  | cons c t ih =>
      rw [List.cons_append, List.infix_cons_iff] at h
      rcases h with hhead | hbelow
      · exact absurd ((opener_prefix_placeholder slot).trans hhead) (ht.no_opener hrest)
      · exact ih ht.tail hbelow

/-- Nor does it begin inside another placeholder. -/
theorem placeholder_infix_of_placeholder {slot s : Slot}
    (h : slot.placeholder.toList <:+: s.placeholder.toList ++ rest) :
    slot = s ∨ slot.placeholder.toList <:+: rest := by
  by_cases hhead : slot.placeholder.toList <+: s.placeholder.toList ++ rest
  · exact .inl (eq_of_placeholder_begins hhead)
  · have hinside : '$' ∉ '\x7b' :: (s.token.toList ++ ['\x7d']) := by
      simp [s.dollar_notMem_token]
    have hsplit : ∀ s : Slot, s.placeholder.toList =
        '$' :: '\x7b' :: (s.token.toList ++ ['\x7d']) := toList_placeholder
    rw [hsplit s, List.cons_append, List.infix_cons_iff, ← List.cons_append, ← hsplit s] at h
    have hbelow := h.resolve_left hhead
    rw [hsplit slot] at hbelow ⊢
    exact .inr (infix_of_notMem hinside hbelow)

theorem slot_mem_textBefore {slot : Slot} {pieces : List Piece} :
    .slot slot ∈ textBefore t.reverse pieces ↔ .slot slot ∈ pieces := by
  rw [textBefore_reverse]
  split <;> simp

/-- A placeholder stands in the text of regular pieces exactly where a slot was read. -/
theorem placeholder_infix_chars {pieces : List Piece} (h : Regular pieces) (slot : Slot) :
    slot.placeholder.toList <:+: chars pieces ↔ .slot slot ∈ pieces := by
  constructor
  · refine Regular.induction (P := fun pieces => slot.placeholder.toList <:+: chars pieces →
      .slot slot ∈ pieces) ?_ ?_ pieces h
    · intro t ht hin
      rw [chars_textBefore, chars_nil, List.append_nil] at hin
      exact absurd ((opener_prefix_placeholder slot).isInfix.trans hin) ht
    · intro t s below ht _ ih hin
      rw [chars_textBefore, chars_slot] at hin
      rw [slot_mem_textBefore, List.mem_cons]
      have hplace := placeholder_infix_of_unmarked ht (head?_placeholder s _) hin
      rcases placeholder_infix_of_placeholder hplace with rfl | hbelow
      · exact .inl rfl
      · exact .inr (ih hbelow)
  · intro hmem
    obtain ⟨above, below, rfl⟩ := List.append_of_mem hmem
    refine ⟨chars above, chars below, ?_⟩
    simp [chars, Piece.source]

end Occurrence

section Refusal

variable {text : String} {e : SkeletonError}

/-- Why a text is refused: for its first stray opener, which nothing or some word closes, and
without one for the first slot that does not occur. -/
inductive Refused (text : String) : SkeletonError → Prop
  | unterminated {before after : List Char} (h : StrayOpener text.toList before after)
      (hclose : '\x7d' ∉ after) : Refused text (.unterminated (bytes before))
  | unknown {before rest : List Char} {token : String}
      (h : StrayOpener text.toList before (token.toList ++ '\x7d' :: rest))
      (hclose : '\x7d' ∉ token.toList) : Refused text (.unknown token)
  | missing {slot : Slot} {earlier later : List Slot}
      (h : ∀ before after, ¬ StrayOpener text.toList before after)
      (hall : Slot.all = earlier ++ slot :: later) (hslot : ¬ Occurs slot text)
      (hearlier : ∀ s ∈ earlier, Occurs s text) : Refused text (.missing slot)

theorem Refused.aboutText (h : Refused text e) : e.AboutText := by
  cases h <;> trivial

/-- The slot reported as missing is the first one that was not read. -/
theorem missing?_eq_some_iff (pieces : List Piece) (slot : Slot) :
    missing? pieces = some slot ↔ ∃ earlier later, Slot.all = earlier ++ slot :: later ∧
      .slot slot ∉ pieces ∧ ∀ s ∈ earlier, .slot s ∈ pieces := by
  simp only [missing?, List.find?_eq_some_iff_append, Bool.not_eq_true', Bool.not_not,
    List.contains_iff_mem, ← Bool.not_eq_true]
  constructor
  · intro h
    obtain ⟨hslot, earlier, later, hall, hearlier⟩ := h
    exact ⟨earlier, later, hall, hslot, hearlier⟩
  · intro h
    obtain ⟨earlier, later, hall, hslot, hearlier⟩ := h
    exact ⟨hslot, earlier, later, hall, hearlier⟩

/-- Without a stray opener it only matters which slots occur. -/
theorem parse_of_no_stray (h : ∀ before after, ¬ StrayOpener text.toList before after) :
    ∃ pieces, (∀ slot, .slot slot ∈ pieces ↔ Occurs slot text) ∧
      parse text = match missing? pieces with
        | some slot => .error (.missing slot)
        | none => .ok ⟨pieces⟩ := by
  rcases scan_ok_or_stray text.toList with ⟨pieces, hscan⟩ | ⟨before, after, hstray⟩
  · obtain ⟨hregular, hchars⟩ := regular_of_scan (hscan 0)
    refine ⟨pieces, fun slot => ?_, parse_of_scan (hscan 0)⟩
    rw [Occurs, ← hchars, placeholder_infix_chars hregular]
  · exact absurd hstray (h before after)

theorem parse_of_refused (h : Refused text e) : parse text = .error e := by
  cases h with
  | unterminated hstray hclose =>
      have hscan := scan_unterminated hstray hclose 0
      rw [Nat.zero_add] at hscan
      exact parse_of_scan_error hscan
  | unknown hstray hclose =>
      have hscan := scan_unknown hstray hclose 0
      rw [String.ofList_toList] at hscan
      exact parse_of_scan_error hscan
  | @missing slot earlier later hno hall hslot hearlier =>
      obtain ⟨pieces, hoccurs, hparse⟩ := parse_of_no_stray hno
      simp only [← hoccurs] at hslot hearlier
      rw [hparse, (missing?_eq_some_iff pieces slot).mpr ⟨earlier, later, hall, hslot, hearlier⟩]

/-- Every text is refused, or has no stray opener and all slots and is accepted. -/
theorem refused_or_accepted (text : String) :
    (∃ e, Refused text e) ∨
      (∀ before after, ¬ StrayOpener text.toList before after) ∧ (∀ slot, Occurs slot text) ∧
        ∃ s, parse text = .ok s := by
  by_cases hstray : ∃ before after, StrayOpener text.toList before after
  · obtain ⟨before, after, hstray⟩ := hstray
    by_cases hclose : '\x7d' ∈ after
    · obtain ⟨token, rest, rfl, htoken⟩ := List.eq_append_cons_of_mem hclose
      rw [← @String.toList_ofList token] at hstray htoken
      exact .inl ⟨_, .unknown hstray htoken⟩
    · exact .inl ⟨_, .unterminated hstray hclose⟩
  · have hno : ∀ before after, ¬ StrayOpener text.toList before after :=
      fun before after h => hstray ⟨before, after, h⟩
    obtain ⟨pieces, hoccurs, hparse⟩ := parse_of_no_stray hno
    cases hmissing : missing? pieces with
    | some slot =>
        obtain ⟨earlier, later, hall, hslot, hearlier⟩ :=
          (missing?_eq_some_iff pieces slot).mp hmissing
        simp only [hoccurs] at hslot hearlier
        exact .inl ⟨_, .missing hno hall hslot hearlier⟩
    | none =>
        have hall := missing?_eq_none_iff.mp hmissing
        simp only [hoccurs] at hall
        rw [hmissing] at hparse
        exact .inr ⟨hno, hall, _, hparse⟩

theorem parse_eq_error_iff : parse text = .error e ↔ Refused text e := by
  constructor
  · intro h
    rcases refused_or_accepted text with ⟨e', hrefused⟩ | ⟨-, -, s, hs⟩
    · cases (parse_of_refused hrefused).symm.trans h
      exact hrefused
    · cases hs.symm.trans h
  · exact parse_of_refused

/-- The wording under which a text is refused. -/
def refusal? (text : String) : Option String :=
  match parse text with
  | .ok _ => none
  | .error e => some e.message

theorem refusal?_eq_some_iff (he : e.AboutText) :
    refusal? text = some e.message ↔ Refused text e := by
  rw [← parse_eq_error_iff]
  unfold refusal?
  cases h : parse text with
  | ok s => simp
  | error e' =>
      simp only [Option.some.injEq, Except.error.injEq]
      constructor
      · exact SkeletonError.message_inj (parse_eq_error_iff.mp h).aboutText he
      · exact congrArg _

theorem refusal?_eq_none_iff : refusal? text = none ↔ ∃ s, parse text = .ok s := by
  unfold refusal?
  cases parse text <;> simp

end Refusal

/-- A text is refused for its first stray opener, with the byte where it stands if nothing closes it
and else with the word up to the closing brace. A text without one is refused for the first slot in
order that does not occur in it, and accepted if all of them occur. -/
theorem refusal?_exact (text : String) :
    (∀ offset, refusal? text = some ("unterminated placeholder at byte " ++ toString offset) ↔
      ∃ before after, StrayOpener text.toList before after ∧ '\x7d' ∉ after ∧
        text.toList = before ++ (opener ++ after) ∧
        offset = (String.ofList before).utf8ByteSize) ∧
    (∀ token, refusal? text = some ("unknown placeholder `" ++ Slot.mark token ++ "`") ↔
      ∃ before rest, StrayOpener text.toList before (token.toList ++ '\x7d' :: rest) ∧
        '\x7d' ∉ token.toList) ∧
    ((∀ before after, ¬ StrayOpener text.toList before after) →
      (∀ slot, refusal? text = some ("missing placeholder `" ++ slot.placeholder ++ "`") ↔
        ∃ earlier later, Slot.all = earlier ++ slot :: later ∧ ¬ Occurs slot text ∧
          ∀ s ∈ earlier, Occurs s text) ∧
      (refusal? text = none ↔ ∀ slot, Occurs slot text)) := by
  refine ⟨fun offset => ?_, fun token => ?_, fun hno => ⟨fun slot => ?_, ?_⟩⟩
  · show refusal? text = some (SkeletonError.unterminated offset).message ↔ _
    rw [refusal?_eq_some_iff (by trivial)]
    constructor
    · intro h
      cases h with
      | unterminated hstray hclose =>
          exact ⟨_, _, hstray, hclose, hstray.comes.split, rfl⟩
    · intro h
      obtain ⟨before, after, hstray, hclose, -, hoffset⟩ := h
      exact hoffset ▸ .unterminated hstray hclose
  · show refusal? text = some (SkeletonError.unknown token).message ↔ _
    rw [refusal?_eq_some_iff (by trivial)]
    constructor
    · intro h
      cases h with
      | unknown hstray hclose => exact ⟨_, _, hstray, hclose⟩
    · intro h
      obtain ⟨before, rest, hstray, hclose⟩ := h
      exact .unknown hstray hclose
  · show refusal? text = some (SkeletonError.missing slot).message ↔ _
    rw [refusal?_eq_some_iff (by trivial)]
    constructor
    · intro h
      cases h with
      | missing _ hall hslot hearlier => exact ⟨_, _, hall, hslot, hearlier⟩
    · intro h
      obtain ⟨earlier, later, hall, hslot, hearlier⟩ := h
      exact .missing hno hall hslot hearlier
  · rw [refusal?_eq_none_iff]
    constructor
    · intro h
      obtain ⟨s, hs⟩ := h
      rcases refused_or_accepted text with ⟨e, he⟩ | ⟨-, hall, -⟩
      · cases hs.symm.trans (parse_of_refused he)
      · exact hall
    · intro hall
      rcases refused_or_accepted text with ⟨e, he⟩ | ⟨-, -, hs⟩
      · cases he with
        | unterminated hstray _ => exact absurd hstray (hno _ _)
        | unknown hstray _ => exact absurd hstray (hno _ _)
        | missing _ _ hslot _ => exact absurd (hall _) hslot
      · exact hs

/-- Behind a character of two bytes and a placeholder of nine, an opener that nothing closes; an
opener whose word runs on over the next one; and a text in which the unit's name is no
placeholder. -/
theorem refusal?_exact_nested :
    let cut := "é$\x7bfields\x7d$\x7blocals"
    let nested := "$\x7ba$\x7bfields\x7d"
    let nameless := "unit_name$\x7bfields\x7d$$\x7blocals\x7d"
    (refusal? cut = some ("unterminated placeholder at byte " ++ toString 11) ∧
      ∃ before after, StrayOpener cut.toList before after ∧
        11 = (String.ofList before).utf8ByteSize) ∧
    (refusal? nested = some ("unknown placeholder `" ++ Slot.mark "a$\x7bfields" ++ "`") ∧
      ∃ before rest, StrayOpener nested.toList before ("a$\x7bfields".toList ++ '\x7d' :: rest)) ∧
    ((∀ before after, ¬ StrayOpener nameless.toList before after) ∧
      refusal? nameless = some ("missing placeholder `" ++ Slot.unitName.placeholder ++ "`") ∧
      ¬ Occurs .unitName nameless) := by
  intro cut nested nameless
  have hcut : refusal? cut = some ("unterminated placeholder at byte " ++ toString 11) := by
    decide +kernel
  have hnested : refusal? nested =
      some ("unknown placeholder `" ++ Slot.mark "a$\x7bfields" ++ "`") := by
    decide +kernel
  have hnameless : refusal? nameless =
      some ("missing placeholder `" ++ Slot.unitName.placeholder ++ "`") := by
    decide +kernel
  have hno : ∀ before after, ¬ StrayOpener nameless.toList before after := by
    cases (refusal?_eq_some_iff (e := .missing .unitName) trivial).mp hnameless with
    | missing hno _ _ _ => exact hno
  obtain ⟨before, after, hstray, -, -, hoffset⟩ := ((refusal?_exact cut).1 11).mp hcut
  obtain ⟨before', rest, hstray', -⟩ := ((refusal?_exact nested).2.1 _).mp hnested
  obtain ⟨_, _, -, hslot, -⟩ := (((refusal?_exact nameless).2.2 hno).1 .unitName).mp hnameless
  exact ⟨⟨hcut, before, after, hstray, hoffset⟩, ⟨hnested, before', rest, hstray'⟩,
    hno, hnameless, hslot⟩

end Skeleton
end FormulaCompiler
