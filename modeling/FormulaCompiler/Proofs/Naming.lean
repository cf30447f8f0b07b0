import FormulaCompiler.Counter
import FormulaCompiler.Text.Blank

/-!
# Names that cannot meet

A generated name is a stem glued to a decimal number, without anything between the two. One stem
keeps its numbers apart. Two stems may give one name, as `x1` with 2 and `x` with 12, but only when
one of them is the other with digits behind it. Names that come from elsewhere are not looked at.
-/

namespace FormulaCompiler

/-- The number can be read off a numbered name. -/
theorem numbered_inj (stem : String) {m n : Nat} : numbered stem m = numbered stem n ↔ m = n := by
  refine ⟨fun h => ?_, fun h => by rw [h]⟩
  have ht : toString m = toString n := (String.append_right_inj stem).mp h
  rw [Nat.toString_eq_ofList_toDigits, Nat.toString_eq_ofList_toDigits, String.ofList_inj] at ht
  rw [← Nat.ofDigitChars_ten_toDigits (n := m), ht, Nat.ofDigitChars_ten_toDigits]

theorem toList_numbered (stem : String) (n : Nat) :
    (numbered stem n).toList = stem.toList ++ Nat.toDigits 10 n := by
  rw [numbered, String.toList_append, Nat.toString_eq_ofList_toDigits, String.toList_ofList]

/-- The text is the stem with decimal digits behind it, at least so many of them. -/
def Prolongs (least : Nat) (stem text : String) : Prop :=
  ∃ digits : List Char, least ≤ digits.length ∧ (∀ c ∈ digits, c.isDigit = true) ∧
    text = stem ++ String.ofList digits

/-- Neither stem is the other with that many digits behind it. -/
structure StemsApart (least : Nat) (stem other : String) : Prop where
  left : ¬ Prolongs least stem other
  right : ¬ Prolongs least other stem

theorem StemsApart.symm {least : Nat} {stem other : String} (h : StemsApart least stem other) :
    StemsApart least other stem :=
  ⟨h.right, h.left⟩

/-- Stems of which neither begins with the other are apart. -/
theorem stemsApart_of_incomparable {least : Nat} {stem other : String}
    (h : ¬ stem.toList <+: other.toList) (h' : ¬ other.toList <+: stem.toList) :
    StemsApart least stem other := by
  have begins : ∀ {a b : String}, Prolongs least a b → a.toList <+: b.toList := by
    rintro a b ⟨digits, -, -, rfl⟩
    rw [String.toList_append]
    exact List.prefix_append _ _
  exact ⟨fun hp => h (begins hp), fun hp => h' (begins hp)⟩

/-- A name that ends where another one goes on has a longer stem there: what stands between the two
stems are digits of the other number. -/
theorem prolongs_of_append {stem other : String} {m n : Nat} {between : List Char}
    (hother : other.toList = stem.toList ++ between)
    (hdigits : Nat.toDigits 10 m = between ++ Nat.toDigits 10 n) :
    Prolongs between.length stem other := by
  refine ⟨between, Nat.le_refl _, fun c hc => ?_, ?_⟩
  · have hmem : c ∈ Nat.toDigits 10 m := by
      rw [hdigits]
      exact List.mem_append_left _ hc
    exact Nat.isDigit_of_mem_toDigits (by decide) (by decide) hmem
  · apply String.toList_inj.mp
    rw [hother, String.toList_append, String.toList_ofList]

theorem Prolongs.weaken {least least' : Nat} {stem text : String} (h : Prolongs least stem text)
    (hle : least' ≤ least) : Prolongs least' stem text := by
  obtain ⟨digits, hlength, hdigits, htext⟩ := h
  exact ⟨digits, by omega, hdigits, htext⟩

/-- One name of two stems: the stems are the same, or one is the other with digits behind it. -/
theorem numbered_eq_cases {stem other : String} {m n : Nat}
    (h : numbered stem m = numbered other n) :
    (stem = other ∧ m = n) ∨ Prolongs 1 stem other ∨ Prolongs 1 other stem := by
  have hlist := congrArg String.toList h
  rw [toList_numbered, toList_numbered] at hlist
  by_cases hsame : stem = other
  · subst hsame
    exact .inl ⟨rfl, (numbered_inj stem).mp h⟩
  have nonempty : ∀ {a b : String} {between : List Char}, a ≠ b →
      b.toList = a.toList ++ between → 1 ≤ between.length := by
    intro a b between hne hb
    cases between with
    | nil => exact absurd (String.toList_inj.mp (by rw [hb, List.append_nil])) hne
    | cons c rest => simp
  -- Of two stems of one name, one begins with the other.
  rcases List.append_eq_append_iff.mp hlist with ⟨rest, hother, hdigits⟩ | ⟨rest, hstem, hdigits⟩
  · exact .inr (.inl ((prolongs_of_append hother hdigits).weaken (nonempty hsame hother)))
  · exact .inr (.inr ((prolongs_of_append hstem hdigits).weaken (nonempty (Ne.symm hsame) hstem)))

/-- Stems of which neither continues the other have no name in common. -/
theorem numbered_ne {stem other : String} (h : StemsApart 0 stem other) (m n : Nat) :
    numbered stem m ≠ numbered other n := by
  intro heq
  rcases numbered_eq_cases heq with ⟨rfl, -⟩ | hp | hp
  · exact h.left ⟨[], by simp, by simp, by simp⟩
  · exact h.left (hp.weaken (Nat.zero_le _))
  · exact h.right (hp.weaken (Nat.zero_le _))

/-- Different numbers give different names, also with different stems of which neither continues the
other. -/
theorem numbered_ne_of_ne {stem other : String} (h : StemsApart 1 stem other) {m n : Nat}
    (hmn : m ≠ n) : numbered stem m ≠ numbered other n := by
  intro heq
  rcases numbered_eq_cases heq with ⟨-, hmn'⟩ | hp | hp
  · exact hmn hmn'
  · exact h.left hp
  · exact h.right hp

/-- The names with one stem and the numbers from `first` up to `last`. -/
def namesBetween (stem : String) (first last : Nat) : List String :=
  (List.range' first (last - first)).map (numbered stem)

theorem mem_namesBetween {stem name : String} {first last : Nat} :
    name ∈ namesBetween stem first last ↔ ∃ n, first ≤ n ∧ n < last ∧ name = numbered stem n := by
  simp only [namesBetween, List.mem_map, List.mem_range'_1]
  constructor
  · intro h
    obtain ⟨n, hn, rfl⟩ := h
    exact ⟨n, by omega, by omega, rfl⟩
  · intro h
    obtain ⟨n, hfirst, hlast, rfl⟩ := h
    exact ⟨n, by omega, rfl⟩

/-- The next number comes last. -/
theorem namesBetween_succ (stem : String) {first last : Nat} (h : first ≤ last) :
    namesBetween stem first (last + 1) = namesBetween stem first last ++ [numbered stem last] := by
  have hlength : last + 1 - first = last - first + 1 := by omega
  have hlast : first + (last - first) = last := by omega
  rw [namesBetween, namesBetween, hlength, List.range'_1_concat, List.map_append, hlast]
  rfl

theorem nodup_namesBetween (stem : String) (first last : Nat) :
    (namesBetween stem first last).Nodup := by
  refine List.pairwise_map.mpr ?_
  exact List.Pairwise.imp (fun hne heq => hne ((numbered_inj stem).mp heq)) List.nodup_range'

/-- Names of two stems apart are declared beside each other without repetition. -/
theorem nodup_namesBetween_append {stem other : String} (h : StemsApart 0 stem other)
    (first last first' last' : Nat) :
    (namesBetween stem first last ++ namesBetween other first' last').Nodup := by
  refine List.nodup_append.mpr ⟨nodup_namesBetween .., nodup_namesBetween .., ?_⟩
  intro name hname name' hname' heq
  obtain ⟨m, -, -, rfl⟩ := mem_namesBetween.mp hname
  obtain ⟨n, -, -, rfl⟩ := mem_namesBetween.mp hname'
  exact numbered_ne h m n heq

/-- A stem keeps its own numbers apart, so it is apart from itself. -/
theorem stemsApart_self (stem : String) : StemsApart 1 stem stem := by
  have hnot : ¬ Prolongs 1 stem stem := by
    intro h
    obtain ⟨digits, hlength, -, htext⟩ := h
    have hlist := congrArg (fun s => s.toList.length) htext
    simp only [String.toList_append, String.toList_ofList, List.length_append] at hlist
    omega
  exact ⟨hnot, hnot⟩

/-- The name has a number that a counter at `least` may still hand out. -/
def NumberedFrom (stem : String) (least : Nat) (name : String) : Prop :=
  ∃ n, least ≤ n ∧ name = numbered stem n

/-- The name has a number that a counter at `limit` has handed out. -/
def NumberedBelow (stem : String) (limit : Nat) (name : String) : Prop :=
  ∃ n, n < limit ∧ name = numbered stem n

theorem NumberedFrom.weaken {stem name : String} {least least' : Nat}
    (h : NumberedFrom stem least name) (hle : least' ≤ least) : NumberedFrom stem least' name := by
  obtain ⟨n, hn, hname⟩ := h
  exact ⟨n, by omega, hname⟩

theorem numbered_of_mem_namesBetween {stem name : String} {first last limit : Nat}
    (h : name ∈ namesBetween stem first last) (hle : last ≤ limit) :
    NumberedFrom stem first name ∧ NumberedBelow stem limit name := by
  obtain ⟨n, hfirst, hlast, hname⟩ := mem_namesBetween.mp h
  exact ⟨⟨n, hfirst, hname⟩, ⟨n, by omega, hname⟩⟩

/-- A name that was handed out is not handed out again. -/
theorem NumberedBelow.ne_of_from {stem other name name' : String} {limit : Nat}
    (h : NumberedBelow stem limit name) (h' : NumberedFrom other limit name')
    (hstems : StemsApart 1 stem other) : name ≠ name' := by
  obtain ⟨m, hm, rfl⟩ := h
  obtain ⟨n, hn, rfl⟩ := h'
  exact numbered_ne_of_ne hstems (by omega)

namespace Text

theorem isBlank_append (a b : String) : isBlank (a ++ b) = (isBlank a && isBlank b) := by
  simp [isBlank, String.toList_append]

theorem isBlank_append_left {a : String} (h : isBlank a = false) (b : String) :
    isBlank (a ++ b) = false := by
  rw [isBlank_append, h, Bool.false_and]

theorem isBlank_append_right {b : String} (h : isBlank b = false) (a : String) :
    isBlank (a ++ b) = false := by
  rw [isBlank_append, h, Bool.and_false]

/-- No range of white space meets the digits. -/
theorem whiteSpace_of_isDigit {c : Char} (h : c.isDigit = true) :
    whiteSpace.contains c = false := by
  simp only [Char.isDigit, Bool.and_eq_true, decide_eq_true_eq] at h
  have hlow : 48 ≤ c.toNat := h.1
  have hhigh : c.toNat ≤ 57 := h.2
  have hapart : ∀ r ∈ whiteSpace.ranges, r.2 < 48 ∨ 57 < r.1 := by decide
  refine Bool.eq_false_iff.mpr fun hc => ?_
  obtain ⟨r, hr, hfirst, hlast⟩ := (whiteSpace.contains_iff c).mp hc
  have hr' := hapart r hr
  omega

/-- A numbered name is never blank, whatever its stem. -/
theorem isBlank_numbered (stem : String) (n : Nat) : isBlank (numbered stem n) = false := by
  obtain ⟨c, rest, hdigits⟩ := List.exists_cons_of_ne_nil (Nat.toDigits_ne_nil (n := n) (b := 10))
  have hmem : c ∈ Nat.toDigits 10 n := by
    rw [hdigits]
    exact List.mem_cons_self
  have hc := whiteSpace_of_isDigit (Nat.isDigit_of_mem_toDigits (by decide) (by decide) hmem)
  simp [isBlank, toList_numbered, hdigits, hc]

end Text
end FormulaCompiler
