import LiveMarkup.Text.Ranges

/-!
# Blank characters

White space is the Unicode property `White_Space`: twenty-five characters.
-/

namespace LiveMarkup

/-- The characters with the property `White_Space`. -/
def blankRanges : CharRanges := [
  (0x9, 0xd), (0x20, 0x20), (0x85, 0x85), (0xa0, 0xa0), (0x1680, 0x1680), (0x2000, 0x200a),
  (0x2028, 0x2029), (0x202f, 0x202f), (0x205f, 0x205f), (0x3000, 0x3000)]

/-- Whether a character is white space. -/
def isBlank (c : Char) : Bool := blankRanges.contains c

/-- Drops blank characters from both ends. -/
def trimBlank (text : List Char) : List Char :=
  ((text.dropWhile isBlank).reverse.dropWhile isBlank).reverse

/-- Drops blank characters from both ends of a string. -/
def trimBlankText (text : String) : String := String.ofList (trimBlank text.toList)

/-- Whether a text has no character but blank ones. -/
def isBlankText (text : List Char) : Bool := text.all isBlank

end LiveMarkup
