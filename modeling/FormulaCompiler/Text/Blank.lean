import FormulaCompiler.Text.CodeRanges

/-!
# Blank text

A text is blank when every character of it has the property White_Space.
-/

namespace FormulaCompiler.Text

/-- Code points with the property White_Space. -/
def whiteSpace : CodeRanges where
  ranges :=
    [(0x9, 0xD), (0x20, 0x20), (0x85, 0x85), (0xA0, 0xA0), (0x1680, 0x1680), (0x2000, 0x200A),
     (0x2028, 0x2029), (0x202F, 0x202F), (0x205F, 0x205F), (0x3000, 0x3000)]

/-- Whether a text holds nothing but white space. -/
def isBlank (s : String) : Bool := s.toList.all whiteSpace.contains

theorem isBlank_empty : isBlank "" = true := rfl

end FormulaCompiler.Text
