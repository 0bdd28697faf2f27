import LiveMarkup.Fault
import LiveMarkup.Text.Blank
import LiveMarkup.Text.Letter

/-!
# The expression of a repeat directive

`<name> in <expr>`: a loop variable and the list that it runs over.
-/

namespace LiveMarkup

namespace Directive

/-- Whether the name of a loop variable may begin with a character. -/
def startsVariable (c : Char) : Bool := isLetter c || c == '_' || c == '$'

/-- Whether the name of a loop variable may go on with a character. -/
def continuesVariable (c : Char) : Bool := isLetterOrNumber c || c == '_' || c == '$'

/-- Whether a text is the name of a loop variable. -/
def isVariable : List Char → Bool
  | [] => false
  | c :: rest => startsVariable c && rest.all continuesVariable

/-- The text before and after the first ` in `. -/
def splitAtIn : List Char → Option (List Char × List Char)
  | [] => none
  | ' ' :: 'i' :: 'n' :: ' ' :: rest => some ([], rest)
  | c :: rest => (splitAtIn rest).map fun (before, after) => (c :: before, after)

/-- Splits the expression of a repeat directive into the variable and the source of the list. -/
def splitRepeat (expression : String) : Except DirectiveFault (String × String) :=
  match splitAtIn expression.toList with
  | none => .error (.malformedFor expression)
  | some (before, after) =>
      let name := trimBlank before
      let source := trimBlank after
      if isVariable name && !source.isEmpty then .ok (String.ofList name, String.ofList source)
      else .error (.malformedFor expression)

end Directive

end LiveMarkup
