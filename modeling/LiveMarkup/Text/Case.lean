import LiveMarkup.Text.CaseTable

/-!
# Upper and lower case

Whole texts are mapped, since one character may become several (`ß` becomes `SS`) and since the
lower case of a capital sigma depends on the word around it.
-/

namespace LiveMarkup

/-- Maps one character by a table of expansions and a table of runs; other characters stay. -/
def mapCase (expansions : List (Nat × List Nat)) (runs : List CaseRun) (c : Char) : List Char :=
  match expansions.lookup c.toNat with
  | some codes => codes.map Char.ofNat
  | none =>
      match runs.find? fun run => run.contains c.toNat with
      | some run => [Char.ofNat (c.toNat + run.shift).toNat]
      | none => [c]

/-- The upper case of one character. -/
def upperChar : Char → List Char := mapCase upperExpansions upperRuns

/-- The lower case of one character that is no capital sigma inside a word. -/
def lowerChar : Char → List Char := mapCase lowerExpansions lowerRuns

/-- Whether the first character that is not ignorable for case is a cased one. -/
def startsCased (text : List Char) : Bool :=
  match text.dropWhile caseIgnorableRanges.contains with
  | [] => false
  | c :: _ => casedRanges.contains c

/-- The lower case of a text, where `before` holds the characters before it in reverse.  A capital
sigma that ends a word becomes the final form of the small letter. -/
def lowerFrom (before : List Char) : List Char → List Char
  | [] => []
  | c :: rest =>
      let mapped :=
        if c = 'Σ' then (if startsCased before && !startsCased rest then ['ς'] else ['σ'])
        else lowerChar c
      mapped ++ lowerFrom (c :: before) rest

/-- The upper case of a text. -/
def upperText (text : String) : String := String.ofList (text.toList.flatMap upperChar)

/-- The lower case of a text. -/
def lowerText (text : String) : String := String.ofList (lowerFrom [] text.toList)

end LiveMarkup
