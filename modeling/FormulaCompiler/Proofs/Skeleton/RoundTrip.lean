import FormulaCompiler.Proofs.Skeleton.Reading

/-!
# Skeletons and their texts

Reading a skeleton and writing it down are inverse to each other: the texts that are accepted are
the texts of canonical skeletons, each of one. Filling a skeleton is the same as replacing, in its
text and all at once, every placeholder by its part, so that a placeholder inside a part stays as it
is. How other texts are refused is not said here.
-/

namespace FormulaCompiler

/-- The piece is fixed text. -/
def Piece.isText : Piece → Bool
  | .text _ => true
  | .slot _ => false

/-- Every slot filled with its own placeholder. -/
def Parts.placeholders : Parts where
  unitName := Slot.unitName.placeholder
  fields := Slot.fields.placeholder
  locals := Slot.locals.placeholder
  expression := Slot.expression.placeholder

theorem Parts.get_placeholders (s : Slot) : Parts.placeholders.get s = s.placeholder := by
  cases s <;> rfl

theorem Piece.fill_placeholders (p : Piece) : p.fill Parts.placeholders = p.source := by
  cases p with
  | text s => rfl
  | slot s => exact Parts.get_placeholders s

namespace Skeleton

/-- No fixed text is empty or holds an opener, and no two of them stand side by side. -/
structure Regular (pieces : List Piece) : Prop where
  nonempty : ∀ s, .text s ∈ pieces → s ≠ ""
  unmarked : ∀ s, .text s ∈ pieces → Unmarked s.toList
  apart : pieces.IsChain fun p q => p.isText = false ∨ q.isText = false

/-- Regular pieces among which every slot occurs. -/
structure Canonical (s : Skeleton) : Prop extends Regular s.pieces where
  complete : ∀ slot, .slot slot ∈ s.pieces

/-- The characters of pieces as they stand in a skeleton's text. -/
def chars (pieces : List Piece) : List Char := pieces.flatMap fun p => p.source.toList

theorem toList_source (s : Skeleton) : s.source.toList = chars s.pieces := by
  simp [source, chars, String.toList_join, List.flatMap_map]

theorem chars_nil : chars [] = [] := rfl

theorem chars_slot (slot : Slot) (pieces : List Piece) :
    chars (.slot slot :: pieces) = slot.placeholder.toList ++ chars pieces := rfl

theorem chars_textBefore (t : List Char) (pieces : List Piece) :
    chars (textBefore t.reverse pieces) = t ++ chars pieces := by
  rw [textBefore_reverse]
  split
  · rename_i ht
    rw [ht, List.nil_append]
  · simp [chars, Piece.source]

section Regular

variable {t : List Char} {pieces : List Piece}

theorem regular_nil : Regular [] := ⟨by simp, by simp, .nil⟩

theorem Regular.of_cons {p : Piece} (h : Regular (p :: pieces)) : Regular pieces where
  nonempty s hs := h.nonempty s (List.mem_cons_of_mem p hs)
  unmarked s hs := h.unmarked s (List.mem_cons_of_mem p hs)
  apart := h.apart.of_cons

theorem Regular.slot (h : Regular pieces) (slot : Slot) : Regular (.slot slot :: pieces) where
  nonempty s hs := h.nonempty s (by simpa using hs)
  unmarked s hs := h.unmarked s (by simpa using hs)
  apart := by
    cases pieces with
    | nil => exact .singleton _
    | cons q pieces => exact .cons_cons (.inl rfl) h.apart

/-- Fixed text may stand before a slot, or last. -/
theorem Regular.textBefore (h : Regular pieces) (ht : Unmarked t)
    (hnext : ∀ q ∈ pieces.head?, q.isText = false) :
    Regular (Skeleton.textBefore t.reverse pieces) := by
  rw [textBefore_reverse]
  by_cases hnil : t = []
  · rwa [if_pos hnil]
  · rw [if_neg hnil]
    refine ⟨fun s hs => ?_, fun s hs => ?_, ?_⟩
    · rcases List.mem_cons.mp hs with hs | hs
      · obtain rfl := Piece.text.inj hs
        simpa [String.ext_iff] using hnil
      · exact h.nonempty s hs
    · rcases List.mem_cons.mp hs with hs | hs
      · obtain rfl := Piece.text.inj hs
        rwa [String.toList_ofList]
      · exact h.unmarked s hs
    · cases pieces with
      | nil => exact .singleton _
      | cons q pieces => exact .cons_cons (.inr (hnext q rfl)) h.apart

/-- Regular pieces are a text before the end, or a text before a slot and regular pieces; the text
may be missing. -/
theorem Regular.induction {P : List Piece → Prop}
    (last : ∀ t, Unmarked t → P (Skeleton.textBefore t.reverse []))
    (slot : ∀ t s pieces, Unmarked t → Regular pieces → P pieces →
      P (Skeleton.textBefore t.reverse (.slot s :: pieces))) :
    ∀ pieces, Regular pieces → P pieces
  | [], _ => last [] unmarked_nil
  | .slot s :: pieces, h =>
      slot [] s pieces unmarked_nil h.of_cons (Regular.induction last slot pieces h.of_cons)
  | [.text t], h => by
      have hlast := last t.toList (h.unmarked t List.mem_cons_self)
      have hne := h.nonempty t List.mem_cons_self
      rwa [textBefore_reverse, if_neg (by simpa using hne), String.ofList_toList] at hlast
  | .text t :: .slot s :: pieces, h => by
      have hrest := h.of_cons.of_cons
      have hslot := slot t.toList s pieces (h.unmarked t List.mem_cons_self) hrest
        (Regular.induction last slot pieces hrest)
      have hne := h.nonempty t List.mem_cons_self
      rwa [textBefore_reverse, if_neg (by simpa using hne), String.ofList_toList] at hslot
  | .text t :: .text u :: pieces, h => by
      have hapart := (List.isChain_cons_cons.mp h.apart).1
      simp [Piece.isText] at hapart

end Regular

section Reading

variable {pieces : List Piece}

/-- Regular pieces are read back from their text. -/
theorem scan_chars (h : Regular pieces) (offset : Nat) :
    scan offset (.text []) (chars pieces) = .ok pieces := by
  refine Regular.induction (P := fun pieces => ∀ offset,
    scan offset (.text []) (chars pieces) = .ok pieces) ?_ ?_ pieces h offset
  · intro t ht offset
    rw [chars_textBefore, chars_nil, List.append_nil]
    exact read_unmarked offset ht
  · intro t slot below ht _ ih offset
    rw [chars_textBefore, chars_slot, read_slot offset ht, ih]
    rfl

/-- What is read from a text is regular and has that text. -/
theorem regular_of_scan {cs : List Char} {offset : Nat}
    (h : scan offset (.text []) cs = .ok pieces) : Regular pieces ∧ chars pieces = cs := by
  induction cs using reading_induction generalizing offset pieces with
  | unmarked t ht =>
      rw [read_unmarked offset ht] at h
      cases h
      refine ⟨regular_nil.textBefore ht (by simp), ?_⟩
      rw [chars_textBefore, chars_nil, List.append_nil]
  | unterminated t rest ht hclose =>
      rw [read_unterminated offset ht hclose] at h
      cases h
  | unknown t token rest ht hclose hno =>
      rw [read_unknown offset ht hclose hno] at h
      cases h
  | slot t s rest ht ih =>
      rw [read_slot offset ht] at h
      cases hrest : scan (offset + bytes (t ++ s.placeholder.toList)) (.text []) rest with
      | error e =>
          rw [hrest] at h
          cases h
      | ok below =>
          rw [hrest] at h
          cases h
          obtain ⟨hregular, hchars⟩ := ih hrest
          refine ⟨(hregular.slot s).textBefore ht (by simp [Piece.isText]), ?_⟩
          rw [chars_textBefore, chars_slot, hchars]

theorem scan_eq_ok_iff (cs : List Char) (offset : Nat) :
    scan offset (.text []) cs = .ok pieces ↔ Regular pieces ∧ chars pieces = cs := by
  constructor
  · exact regular_of_scan
  · intro h
    rw [← h.2]
    exact scan_chars h.1 offset

theorem missing?_eq_none_iff : missing? pieces = none ↔ ∀ slot, .slot slot ∈ pieces := by
  simp [missing?, Slot.mem_all]

theorem parse_of_scan {text : String} (h : scan 0 (.text []) text.toList = .ok pieces) :
    parse text = match missing? pieces with
      | some slot => .error (.missing slot)
      | none => .ok ⟨pieces⟩ := by
  unfold parse
  rw [h]
  show (match missing? pieces with
    | some slot => throw (.missing slot)
    | none => pure ⟨pieces⟩ : Except SkeletonError Skeleton) = _
  cases missing? pieces <;> rfl

theorem parse_of_scan_error {text : String} {e : SkeletonError}
    (h : scan 0 (.text []) text.toList = .error e) : parse text = .error e := by
  rw [parse, h]
  rfl

/-- Reading accepts the texts of canonical skeletons and no others. -/
theorem parse_eq_ok_iff (text : String) (s : Skeleton) :
    parse text = .ok s ↔ s.Canonical ∧ s.source = text := by
  have hsource : s.source = text ↔ chars s.pieces = text.toList := by
    rw [← String.toList_inj, toList_source]
  rw [hsource]
  constructor
  · intro h
    cases hscan : scan 0 (.text []) text.toList with
    | error e =>
        rw [parse_of_scan_error hscan] at h
        cases h
    | ok pieces =>
        rw [parse_of_scan hscan] at h
        cases hmissing : missing? pieces with
        | some slot =>
            rw [hmissing] at h
            cases h
        | none =>
            rw [hmissing] at h
            cases h
            obtain ⟨hregular, hchars⟩ := regular_of_scan hscan
            exact ⟨⟨hregular, missing?_eq_none_iff.mp hmissing⟩, hchars⟩
  · intro h
    obtain ⟨hcanonical, hchars⟩ := h
    have hscan : scan 0 (.text []) text.toList = .ok s.pieces :=
      (scan_eq_ok_iff _ 0).mpr ⟨hcanonical.toRegular, hchars⟩
    rw [parse_of_scan hscan, missing?_eq_none_iff.mpr hcanonical.complete]

end Reading

/-- The slot whose placeholder the text begins with. -/
def slotAt? (cs : List Char) : Option Slot :=
  Slot.all.find? fun s => s.placeholder.toList.isPrefixOf cs

/-- Replaces every placeholder in the text by its part. What is put in is not looked at again. -/
def substitute (parts : Parts) : List Char → List Char
  | [] => []
  | c :: cs =>
      match slotAt? (c :: cs) with
      | some s => (parts.get s).toList ++ substitute parts (cs.drop (s.placeholder.length - 1))
      | none => c :: substitute parts cs
termination_by cs => cs.length
decreasing_by
  · simp only [List.length_drop, List.length_cons]
    omega
  · simp only [List.length_cons]
    omega

/-- The text with every placeholder replaced, all at once, by its part. -/
def replaceAll (parts : Parts) (text : String) : String :=
  String.ofList (substitute parts text.toList)

section Substitution

variable {t rest : List Char}

/-- No placeholder begins with another one. -/
theorem eq_of_placeholder_begins {s s' : Slot}
    (h : s.placeholder.toList <+: s'.placeholder.toList ++ rest) : s = s' := by
  obtain ⟨tail, htail⟩ := h
  have hwords : s.token.toList ++ '\x7d' :: tail = s'.token.toList ++ '\x7d' :: rest := by
    simpa [toList_placeholder] using htail
  have htoken := (closer_inj s.closer_notMem_token s'.closer_notMem_token hwords).1
  exact Slot.token_inj (String.toList_inj.mp htoken)

theorem opener_prefix_placeholder (s : Slot) : opener <+: s.placeholder.toList := by
  rw [toList_placeholder]
  exact List.prefix_append _ _

theorem slotAt?_placeholder (s : Slot) (rest : List Char) :
    slotAt? (s.placeholder.toList ++ rest) = some s := by
  cases h : slotAt? (s.placeholder.toList ++ rest) with
  | none =>
      have hnone := List.find?_eq_none.mp h s (Slot.mem_all s)
      simp at hnone
  | some s' =>
      have hprefix := List.find?_some h
      rw [List.isPrefixOf_iff_prefix] at hprefix
      rw [eq_of_placeholder_begins hprefix]

theorem slotAt?_eq_none (h : ¬ opener <+: t) : slotAt? t = none := by
  refine List.find?_eq_none.mpr fun s _ hprefix => h ?_
  rw [List.isPrefixOf_iff_prefix] at hprefix
  exact (opener_prefix_placeholder s).trans hprefix

theorem substitute_placeholder (parts : Parts) (s : Slot) (rest : List Char) :
    substitute parts (s.placeholder.toList ++ rest) =
      (parts.get s).toList ++ substitute parts rest := by
  have hat := slotAt?_placeholder s rest
  obtain ⟨c, cs, hcs⟩ : ∃ c cs, s.placeholder.toList = c :: cs := ⟨_, _, toList_placeholder s⟩
  have hlength : s.placeholder.length - 1 = cs.length := by
    rw [← String.length_toList, hcs]
    rfl
  rw [hcs, List.cons_append] at hat ⊢
  rw [substitute, hat]
  show (parts.get s).toList ++ substitute parts ((cs ++ rest).drop (s.placeholder.length - 1)) = _
  rw [hlength, List.drop_left]

/-- Unmarked text stays as it is. -/
theorem substitute_unmarked (parts : Parts) (ht : Unmarked t)
    (hrest : rest.head? ≠ some '\x7b') :
    substitute parts (t ++ rest) = t ++ substitute parts rest := by
  induction t with
  | nil => rfl
  | cons c t ih =>
      have hnone := slotAt?_eq_none (ht.no_opener hrest)
      rw [List.cons_append, substitute, hnone, ih ht.tail]
      rfl

theorem head?_placeholder (s : Slot) (rest : List Char) :
    (s.placeholder.toList ++ rest).head? ≠ some '\x7b' := by
  simp [toList_placeholder, opener]

/-- Filling regular pieces replaces the placeholders of their text. -/
theorem substitute_chars (parts : Parts) {pieces : List Piece} (h : Regular pieces) :
    substitute parts (chars pieces) = pieces.flatMap fun p => (p.fill parts).toList := by
  have hbefore : ∀ (t : List Char) (below : List Piece),
      (textBefore t.reverse below).flatMap (fun p => (p.fill parts).toList) =
        t ++ below.flatMap fun p => (p.fill parts).toList := by
    intro t below
    rw [textBefore_reverse]
    split
    · rename_i ht
      rw [ht, List.nil_append]
    · simp [Piece.fill]
  refine Regular.induction (P := fun pieces => substitute parts (chars pieces) =
    pieces.flatMap fun p => (p.fill parts).toList) ?_ ?_ pieces h
  · intro t ht
    rw [chars_textBefore, hbefore, chars_nil, substitute_unmarked parts ht (by simp)]
    simp [substitute]
  · intro t slot below ht _ ih
    rw [chars_textBefore, hbefore, chars_slot,
      substitute_unmarked parts ht (head?_placeholder slot _), substitute_placeholder, ih]
    rfl

theorem fill_eq_replaceAll {s : Skeleton} (h : Regular s.pieces) (parts : Parts) :
    s.fill parts = replaceAll parts s.source := by
  rw [replaceAll, toList_source, substitute_chars parts h, ← String.toList_inj]
  simp [fill, String.toList_join, List.flatMap_map]

end Substitution

theorem fill_placeholders (s : Skeleton) : s.fill Parts.placeholders = s.source := by
  simp only [fill, source, Piece.fill_placeholders]

/-- Texts that are accepted and canonical skeletons correspond to each other one to one, and filling
a skeleton replaces all placeholders of its text at once; filled with its own placeholders it is the
text itself. -/
theorem parse_inverts_source (text : String) :
    (∀ s, parse text = .ok s ↔ s.Canonical ∧ s.source = text) ∧
    ∀ s, parse text = .ok s →
      (∀ parts, s.fill parts = replaceAll parts text) ∧ s.fill Parts.placeholders = text := by
  refine ⟨parse_eq_ok_iff text, fun s hs => ?_⟩
  obtain ⟨hcanonical, rfl⟩ := (parse_eq_ok_iff text s).mp hs
  exact ⟨fill_eq_replaceAll hcanonical.toRegular, fill_placeholders s⟩

/-- A dollar before a placeholder, braces around one, one that occurs twice, and parts that hold a
placeholder or make one up between them. -/
theorem parse_inverts_source_nested :
    let text := "$$\x7bunit_name\x7d\x7b$\x7bfields\x7d\x7dé" ++
      "$\x7blocals\x7d$\x7bexpression\x7d$\x7bfields\x7d"
    let s : Skeleton := ⟨[.text "$", .slot .unitName, .text "\x7b", .slot .fields, .text "\x7dé",
      .slot .locals, .slot .expression, .slot .fields]⟩
    let parts : Parts := ⟨"U", "$\x7blocals\x7d", "$", "\x7bfields\x7d"⟩
    let filled := "$U\x7b$\x7blocals\x7d\x7dé$\x7bfields\x7d$\x7blocals\x7d"
    parse text = .ok s ∧ s.Canonical ∧ s.source = text ∧ s.fill parts = filled ∧
      replaceAll parts text = filled ∧ s.fill Parts.placeholders = text := by
  intro text s parts filled
  have hparse : parse text = .ok s := by decide +kernel
  have hfilled : s.fill parts = filled := by decide +kernel
  obtain ⟨hinverse, hfill⟩ := parse_inverts_source text
  obtain ⟨hcanonical, hsource⟩ := (hinverse s).mp hparse
  obtain ⟨hreplace, hown⟩ := hfill s hparse
  exact ⟨hparse, hcanonical, hsource, hfilled, (hreplace parts).symm.trans hfilled, hown⟩

end Skeleton
end FormulaCompiler
