import RelationalAlgebra.Text.Range

/-!
# White space

The Unicode property `White_Space`, wider than the blanks that separate the words of a data
format: it holds the no-break space and the spaces of typography.
-/

namespace RelationalAlgebra.Text

/-- The code points with the property `White_Space`. -/
def whitespaceRanges : List (Nat × Nat) :=
  [(0x9, 0xD), (0x20, 0x20), (0x85, 0x85), (0xA0, 0xA0), (0x1680, 0x1680), (0x2000, 0x200A),
   (0x2028, 0x2029), (0x202F, 0x202F), (0x205F, 0x205F), (0x3000, 0x3000)]

/-- Whether a character has the property `White_Space`. -/
def isWhitespace (c : Char) : Bool := inRanges whitespaceRanges c

/-- A text without the white space it starts with. -/
def trimStart (text : List Char) : List Char := text.dropWhile isWhitespace

/-- A text without the white space at either end. -/
def trim (text : List Char) : List Char := (trimStart (trimStart text).reverse).reverse

end RelationalAlgebra.Text
