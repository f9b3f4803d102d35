import CellMachine.Text.CodeRange

/-!
# Blank characters

The characters with the White_Space property of Unicode 15.0, and the removal of them from both
ends of a text.
-/

namespace CellMachine.Text

/-- The code points with the White_Space property. -/
def blankRanges : CodeRanges :=
  [(9, 13), (32, 32), (133, 133), (160, 160), (5760, 5760), (8192, 8202), (8232, 8233),
   (8239, 8239), (8287, 8287), (12288, 12288)]

/-- Whether the character is blank. -/
def isBlank (c : Char) : Bool :=
  blankRanges.has c.toNat

/-- The characters of a text without the blanks at its two ends. -/
def trimBlanks (cs : List Char) : List Char :=
  ((cs.dropWhile isBlank).reverse.dropWhile isBlank).reverse

end CellMachine.Text
