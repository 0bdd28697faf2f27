/-!
# Lengths in bytes

Messages name a place in a text by the number of bytes before it, in the encoding with one to four
bytes a character.
-/

namespace LiveMarkup

/-- The number of bytes of a text. -/
def byteSize (text : List Char) : Nat := text.foldl (fun size c => size + c.utf8Size) 0

/-- The number of bytes of what stands before the end `rest` of a text. -/
def bytesBefore (text rest : List Char) : Nat := byteSize (text.take (text.length - rest.length))

end LiveMarkup
