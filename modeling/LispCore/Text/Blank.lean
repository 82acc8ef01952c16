import LispCore.Text.Range

/-!
# Blank characters

White space and the separators of lines, paragraphs and records. A zero-width space is not
blank. `strip` drops blanks from both ends of a text.
-/

namespace LispCore.Text

/-- The blank code points. -/
def blanks : List Range :=
 [⟨0x9, 0xD⟩, ⟨0x1C, 0x20⟩, ⟨0x85, 0x85⟩, ⟨0xA0, 0xA0⟩, ⟨0x1680, 0x1680⟩, ⟨0x2000, 0x200A⟩,
  ⟨0x2028, 0x2029⟩, ⟨0x202F, 0x202F⟩, ⟨0x205F, 0x205F⟩, ⟨0x3000, 0x3000⟩]

def isBlank (c : Char) : Bool :=
  covers blanks c.toNat

/-- The text without the blanks at its ends. -/
def strip (cs : List Char) : List Char :=
  ((cs.dropWhile isBlank).reverse.dropWhile isBlank).reverse

end LispCore.Text
