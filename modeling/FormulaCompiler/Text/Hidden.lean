import FormulaCompiler.Text.GraphemeExtend
import FormulaCompiler.Text.Unassigned

/-!
# Characters that leave no mark of their own

Controls, format characters, separators other than the space, private and unassigned code points,
characters that are shown as nothing, and marks that join the character before them. Quoted text
writes them by their number.
-/

namespace FormulaCompiler.Text

/-- Control characters (general category Cc). -/
def controls : CodeRanges where
  ranges := [(0x0, 0x1F), (0x7F, 0x9F)]

/-- Invisible format characters (general category Cf). -/
def formatMarks : CodeRanges where
  ranges :=
    [(0xAD, 0xAD), (0x600, 0x605), (0x61C, 0x61C), (0x6DD, 0x6DD), (0x70F, 0x70F),
     (0x890, 0x891), (0x8E2, 0x8E2), (0x180E, 0x180E), (0x200B, 0x200F), (0x202A, 0x202E),
     (0x2060, 0x2064), (0x2066, 0x206F), (0xFEFF, 0xFEFF), (0xFFF9, 0xFFFB),
     (0x110BD, 0x110BD), (0x110CD, 0x110CD), (0x13430, 0x1343F), (0x1BCA0, 0x1BCA3),
     (0x1D173, 0x1D17A), (0xE0001, 0xE0001), (0xE0020, 0xE007F)]

/-- Line, paragraph and space separators (general categories Zl, Zp, Zs) other than the space. -/
def separators : CodeRanges where
  ranges :=
    [(0xA0, 0xA0), (0x1680, 0x1680), (0x2000, 0x200A), (0x2028, 0x2029), (0x202F, 0x202F),
     (0x205F, 0x205F), (0x3000, 0x3000)]

/-- Code points set aside for private use (general category Co). -/
def privateUse : CodeRanges where
  ranges := [(0xE000, 0xF8FF), (0xF0000, 0xFFFFD), (0x100000, 0x10FFFD)]

/-- Characters that are shown as nothing where they are not supported, fillers among them (property
Default_Ignorable_Code_Point). -/
def ignorable : CodeRanges where
  ranges :=
    [(0xAD, 0xAD), (0x34F, 0x34F), (0x61C, 0x61C), (0x115F, 0x1160), (0x17B4, 0x17B5),
     (0x180B, 0x180F), (0x200B, 0x200F), (0x202A, 0x202E), (0x2060, 0x206F), (0x3164, 0x3164),
     (0xFE00, 0xFE0F), (0xFEFF, 0xFEFF), (0xFFA0, 0xFFA0), (0xFFF0, 0xFFF8),
     (0x1BCA0, 0x1BCA3), (0x1D173, 0x1D17A), (0xE0000, 0xE0FFF)]

/-- Halfwidth sound marks, which extend a grapheme and yet fill a cell of their own. -/
def soundMarks : CodeRanges where
  ranges := [(0xFF9E, 0xFF9F)]

/-- Whether a character joins the one before it without a cell of its own. -/
def isJoining (c : Char) : Bool := graphemeExtend.contains c && !soundMarks.contains c

/-- Whether a character leaves no mark of its own. -/
def isHidden (c : Char) : Bool :=
  if c.toNat < 0x7F then decide (c.toNat < 0x20)
  else controls.contains c || formatMarks.contains c || separators.contains c ||
    privateUse.contains c || ignorable.contains c || isJoining c || unassigned.contains c

/-- A printable ASCII character is not hidden. -/
theorem isHidden_eq_false_of_ascii {c : Char} (h : 0x20 ≤ c.toNat) (h' : c.toNat < 0x7F) :
    isHidden c = false := by
  simp [isHidden, h', Nat.not_lt.mpr h]

end FormulaCompiler.Text
