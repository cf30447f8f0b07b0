import FormulaCompiler.Skeleton.Basic
import Mathlib.Data.List.Infix

/-!
# Reading a skeleton, opener by opener

The reader of `Skeleton.scan` goes through a text character by character. What it does is said here
in larger steps: it comes to the first opener of a placeholder, then to the first brace that closes
it, and goes on behind that brace. There are four ways such a step can end, one equation for each,
and every text is put together from them. Which texts end which way is not said here.
-/

namespace FormulaCompiler

namespace Slot

theorem closer_notMem_token (s : Slot) : '\x7d' ∉ s.token.toList := by
  cases s <;> decide

theorem dollar_notMem_token (s : Slot) : '$' ∉ s.token.toList := by
  cases s <;> decide

theorem token_inj {s s' : Slot} (h : s.token = s'.token) : s = s' := by
  have hs := ofToken?_token s
  rw [h, ofToken?_token] at hs
  exact (Option.some.inj hs).symm

/-- A word that stands for no slot is not the word of any. -/
theorem ofToken?_eq_none_iff (token : String) :
    ofToken? token = none ↔ ∀ s : Slot, s.token ≠ token := by
  simp [ofToken?, mem_all]

end Slot

namespace Skeleton

/-- The two characters that a placeholder begins with. -/
def opener : List Char := ['$', '\x7b']

/-- No placeholder begins in the text. -/
def Unmarked (cs : List Char) : Prop := ¬ opener <:+: cs

/-- The number of bytes that encode the characters. -/
def bytes (cs : List Char) : Nat := (String.ofList cs).utf8ByteSize

theorem toList_placeholder (s : Slot) :
    s.placeholder.toList = opener ++ (s.token.toList ++ ['\x7d']) := by
  simp [Slot.placeholder, Slot.mark, opener]

@[simp] theorem bytes_nil : bytes [] = 0 := rfl

@[simp] theorem bytes_append (cs ds : List Char) : bytes (cs ++ ds) = bytes cs + bytes ds := by
  simp [bytes]

@[simp] theorem bytes_cons (c : Char) (cs : List Char) :
    bytes (c :: cs) = c.utf8Size + bytes cs := by
  simp [bytes, String.ofList_cons]

theorem textBefore_reverse (cs : List Char) (pieces : List Piece) :
    textBefore cs.reverse pieces =
      if cs = [] then pieces else .text (String.ofList cs) :: pieces := by
  simp [textBefore]

/-- Two texts that are cut at their first closing braces are cut at the same place. -/
theorem closer_inj {u v a b : List Char} (hu : '\x7d' ∉ u) (hv : '\x7d' ∉ v)
    (h : u ++ '\x7d' :: a = v ++ '\x7d' :: b) : u = v ∧ a = b := by
  induction u generalizing v with
  | nil =>
      cases v with
      | nil => exact ⟨rfl, (List.cons.inj h).2⟩
      | cons d v =>
          have hd : '\x7d' = d := (List.cons.inj h).1
          exact absurd (hd ▸ List.mem_cons_self) hv
  | cons c u ih =>
      cases v with
      | nil =>
          have hc : c = '\x7d' := (List.cons.inj h).1
          exact absurd (hc ▸ List.mem_cons_self) hu
      | cons d v =>
          obtain ⟨rfl, hrest⟩ := List.cons.inj h
          have hu' : '\x7d' ∉ u := fun hmem => hu (List.mem_cons_of_mem c hmem)
          have hv' : '\x7d' ∉ v := fun hmem => hv (List.mem_cons_of_mem c hmem)
          obtain ⟨rfl, rfl⟩ := ih hu' hv' hrest
          exact ⟨rfl, rfl⟩

section Unmarked

variable {c : Char} {t rest : List Char}

theorem unmarked_nil : Unmarked [] := by
  simp [Unmarked, opener]

theorem Unmarked.tail (h : Unmarked (c :: t)) : Unmarked t :=
  fun hin => h (List.infix_cons hin)

/-- An opener neither begins inside an unmarked text, nor with its last character when something
other than a brace follows. -/
theorem Unmarked.no_opener (h : Unmarked (c :: t)) (hrest : rest.head? ≠ some '\x7b') :
    ¬ opener <+: c :: (t ++ rest) := by
  intro hp
  obtain ⟨tail, htail⟩ := hp
  simp only [opener, List.cons_append, List.nil_append, List.cons.injEq] at htail
  obtain ⟨rfl, hbrace⟩ := htail
  cases t with
  | nil =>
      rw [List.nil_append] at hbrace
      rw [← hbrace] at hrest
      exact hrest rfl
  | cons d t =>
      simp only [List.cons_append, List.cons.injEq] at hbrace
      obtain ⟨rfl, -⟩ := hbrace
      exact h ⟨[], t, rfl⟩

/-- A text that is not unmarked splits at its first opener. -/
theorem exists_first_opener {cs : List Char} (h : ¬ Unmarked cs) :
    ∃ t rest, cs = t ++ (opener ++ rest) ∧ Unmarked t := by
  induction cs with
  | nil => exact absurd unmarked_nil h
  | cons c cs ih =>
      by_cases hp : opener <+: c :: cs
      · obtain ⟨rest, hrest⟩ := hp
        exact ⟨[], rest, hrest.symm, unmarked_nil⟩
      · have hin : opener <:+: c :: cs := not_not.mp h
        have hcs : ¬ Unmarked cs := not_not.mpr ((List.infix_cons_iff.mp hin).resolve_left hp)
        obtain ⟨t, rest, rfl, ht⟩ := ih hcs
        refine ⟨c :: t, rest, rfl, fun hmarked => ?_⟩
        rcases List.infix_cons_iff.mp hmarked with hpre | hbelow
        · exact hp (hpre.trans (List.prefix_append (c :: t) _))
        · exact ht hbelow

end Unmarked

section Scan

variable {t token rest seen : List Char}

theorem scan_text_cons (offset : Nat) {c : Char} (h : ¬ opener <+: c :: rest) :
    scan offset (.text seen) (c :: rest) =
      scan (offset + c.utf8Size) (.text (c :: seen)) rest := by
  rw [scan]
  intro tail hc hrest
  exact h ⟨tail, by rw [hc, hrest]; rfl⟩

/-- Unmarked text is taken over whole. -/
theorem scan_unmarked (offset : Nat) (h : Unmarked t) :
    scan offset (.text seen) t = .ok (textBefore (t.reverse ++ seen) []) := by
  induction t generalizing offset seen with
  | nil => rfl
  | cons c t ih =>
      have hp : ¬ opener <+: c :: t := by
        have hnot : ¬ opener <+: c :: (t ++ []) := h.no_opener (by simp)
        rwa [List.append_nil] at hnot
      rw [scan_text_cons offset hp, ih _ h.tail]
      simp

/-- The reader comes to the first opener. -/
theorem scan_opener (offset : Nat) (ht : Unmarked t) :
    scan offset (.text seen) (t ++ (opener ++ rest)) =
      (scan (offset + bytes t + 2) (.placeholder (offset + bytes t) []) rest).map
        (textBefore (t.reverse ++ seen)) := by
  induction t generalizing offset seen with
  | nil =>
      show scan offset (.text seen) ('$' :: '\x7b' :: rest) = _
      rw [scan]
      rfl
  | cons c t ih =>
      have hp : ¬ opener <+: c :: (t ++ (opener ++ rest)) := ht.no_opener (by simp [opener])
      rw [List.cons_append, scan_text_cons offset hp, ih _ ht.tail]
      simp [Nat.add_assoc]

theorem scan_unclosed (offset start : Nat) (h : '\x7d' ∉ rest) :
    scan offset (.placeholder start seen) rest = .error (.unterminated start) := by
  induction rest generalizing offset seen with
  | nil => rfl
  | cons c rest ih =>
      simp only [List.mem_cons, not_or] at h
      rw [scan, ih _ h.2]
      intro hc
      exact h.1 hc.symm

/-- The reader comes to the first closing brace and asks which slot the word before it stands
for. -/
theorem scan_closer (offset start : Nat) (h : '\x7d' ∉ token) :
    scan offset (.placeholder start seen) (token ++ '\x7d' :: rest) =
      match Slot.ofToken? (String.ofList (seen.reverse ++ token)) with
      | none => .error (.unknown (String.ofList (seen.reverse ++ token)))
      | some slot =>
          (scan (offset + bytes token + 1) (.text []) rest).map (.slot slot :: ·) := by
  induction token generalizing offset seen with
  | nil =>
      rw [List.nil_append, scan, List.append_nil]
      rfl
  | cons c token ih =>
      simp only [List.mem_cons, not_or] at h
      rw [List.cons_append, scan, ih _ h.2]
      · simp [Nat.add_assoc]
      · intro hc
        exact h.1 hc.symm

end Scan

section Step

variable {t token rest : List Char}

theorem read_unmarked (offset : Nat) (ht : Unmarked t) :
    scan offset (.text []) t = .ok (textBefore t.reverse []) := by
  rw [scan_unmarked offset ht, List.append_nil]

theorem read_unterminated (offset : Nat) (ht : Unmarked t) (h : '\x7d' ∉ rest) :
    scan offset (.text []) (t ++ (opener ++ rest)) =
      .error (.unterminated (offset + bytes t)) := by
  rw [scan_opener offset ht, scan_unclosed _ _ h]
  rfl

theorem read_unknown (offset : Nat) (ht : Unmarked t) (h : '\x7d' ∉ token)
    (hno : ∀ s : Slot, s.token.toList ≠ token) :
    scan offset (.text []) (t ++ (opener ++ (token ++ '\x7d' :: rest))) =
      .error (.unknown (String.ofList token)) := by
  have hnone : Slot.ofToken? (String.ofList token) = none := by
    rw [Slot.ofToken?_eq_none_iff]
    intro s hs
    exact hno s (by rw [hs, String.toList_ofList])
  rw [scan_opener offset ht, scan_closer _ _ h, List.reverse_nil, List.nil_append, hnone]
  rfl

/-- Behind a known placeholder the reader goes on as if it had just begun. -/
theorem read_slot (offset : Nat) (ht : Unmarked t) (slot : Slot) :
    scan offset (.text []) (t ++ (slot.placeholder.toList ++ rest)) =
      (scan (offset + bytes (t ++ slot.placeholder.toList)) (.text []) rest).map fun pieces =>
        textBefore t.reverse (.slot slot :: pieces) := by
  have hplace : slot.placeholder.toList ++ rest =
      opener ++ (slot.token.toList ++ '\x7d' :: rest) := by
    simp [toList_placeholder]
  have hsize : offset + bytes (t ++ slot.placeholder.toList) =
      offset + bytes t + 2 + bytes slot.token.toList + 1 := by
    have hopener : bytes opener = 2 := by decide
    have hcloser : bytes ['\x7d'] = 1 := by decide
    rw [toList_placeholder, bytes_append, bytes_append, bytes_append, hopener, hcloser]
    omega
  rw [hsize, hplace, scan_opener offset ht, scan_closer _ _ slot.closer_notMem_token,
    List.reverse_nil, List.nil_append, String.ofList_toList, Slot.ofToken?_token]
  cases scan (offset + bytes t + 2 + bytes slot.token.toList + 1) (.text []) rest with
  | ok pieces => simp [Except.map]
  | error e => rfl

/-- What holds of the texts on which reading ends, and of a text with a known placeholder whenever
it holds of what follows, holds of all texts. -/
theorem reading_induction {P : List Char → Prop}
    (unmarked : ∀ t, Unmarked t → P t)
    (unterminated : ∀ t rest, Unmarked t → '\x7d' ∉ rest → P (t ++ (opener ++ rest)))
    (unknown : ∀ t token rest, Unmarked t → '\x7d' ∉ token → (∀ s : Slot, s.token.toList ≠ token) →
      P (t ++ (opener ++ (token ++ '\x7d' :: rest))))
    (slot : ∀ t (s : Slot) rest, Unmarked t → P rest → P (t ++ (s.placeholder.toList ++ rest)))
    (cs : List Char) : P cs := by
  induction hn : cs.length using Nat.strong_induction_on generalizing cs with
  | h n ih =>
      by_cases hcs : Unmarked cs
      · exact unmarked cs hcs
      · obtain ⟨t, rest, rfl, ht⟩ := exists_first_opener hcs
        by_cases hclose : '\x7d' ∈ rest
        · obtain ⟨token, rest, rfl, htoken⟩ := List.eq_append_cons_of_mem hclose
          by_cases hknown : ∃ s : Slot, s.token.toList = token
          · obtain ⟨s, rfl⟩ := hknown
            have hplace : opener ++ (s.token.toList ++ '\x7d' :: rest) =
                s.placeholder.toList ++ rest := by
              simp [toList_placeholder]
            rw [hplace] at hn ⊢
            have hshort : rest.length < n := by
              rw [← hn, toList_placeholder]
              simp only [List.length_append, List.length_cons]
              omega
            exact slot t s rest ht (ih rest.length hshort rest rfl)
          · exact unknown t token rest ht htoken fun s hs => hknown ⟨s, hs⟩
        · exact unterminated t rest ht hclose

end Step

end Skeleton
end FormulaCompiler
