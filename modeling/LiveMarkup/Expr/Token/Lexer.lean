import LiveMarkup.Fault
import LiveMarkup.Text.Blank
import LiveMarkup.Text.Bytes

/-!
# From text to tokens

At every place the longest token is taken: identifiers and numbers extend as far as they can, and
longer operators win over their beginnings.  Blanks separate tokens and are dropped.
-/

namespace LiveMarkup

namespace Token

/-- Whether an identifier may begin with a character. -/
def startsIdent (c : Char) : Bool := c.isAlpha || c == '_' || c == '$'

/-- Whether an identifier may go on with a character. -/
def continuesIdent (c : Char) : Bool := c.isAlphanum || c == '_' || c == '$'

/-- Operators, the longer ones before their beginnings. -/
def operators : List Punct := [
  .strictEqual, .strictNotEqual, .arrow, .equal, .notEqual, .lessEqual, .greaterEqual, .andAnd,
  .orOr, .plusPlus, .minusMinus, .plusAssign, .minusAssign, .starAssign, .slashAssign,
  .leftParen, .rightParen, .leftBracket, .rightBracket, .leftBrace, .rightBrace, .comma, .colon,
  .semicolon, .dot, .question, .plus, .minus, .star, .slash, .percent, .bang, .assign, .less,
  .greater]

/-- The operator that a text begins with. -/
def operator? (text : List Char) : Option Punct :=
  operators.find? fun p => p.spelling.isPrefixOf text

/-- Whether a character belongs to the body of a number. -/
def inNumber (c : Char) : Bool := c.isDigit || c == '.'

/-- The exponent at the beginning of a text: its mark, an optional sign and at least one digit.  The
mark alone is none. -/
def exponentPart : List Char → List Char
  | mark :: rest =>
      if mark = 'e' ∨ mark = 'E' then
        let (sign, digits) := match rest with
          | '+' :: digits => (['+'], digits)
          | '-' :: digits => (['-'], digits)
          | digits => ([], digits)
        let power := digits.takeWhile Char.isDigit
        if power.isEmpty then [] else mark :: sign ++ power
      else []
  | [] => []

/-- The number at the beginning of a text: digits and points, then an exponent. -/
def numberPart (text : List Char) : List Char :=
  text.takeWhile inNumber ++ exponentPart (text.dropWhile inNumber)

/-- The character that a letter stands for after a backslash. -/
def unescape : Char → Char
  | 'n' => '\n'
  | 't' => '\t'
  | 'r' => '\r'
  | '0' => '\x00'
  | c => c

/-- Reads a string behind its opening quote: what it says and the text after the closing quote. -/
def readString (quote : Char) : List Char → Option (List Char × List Char)
  | [] => none
  | c :: rest =>
      if c = quote then some ([], rest)
      else if c = '\\' then
        match rest with
        | [] => none
        | escaped :: rest =>
            (readString quote rest).map fun (said, after) => (unescape escaped :: said, after)
      else (readString quote rest).map fun (said, after) => (c :: said, after)

/-- The token that begins with a character which is not blank, and the text after it. -/
def scan (offset : Nat) (c : Char) (rest : List Char) : Except EvalFault (Token × List Char) :=
  let text := c :: rest
  if c.isDigit || (c == '.' && rest.head?.any Char.isDigit) then
    let part := numberPart text
    match readNumber? part with
    | some value => .ok (number value, text.drop part.length)
    | none => .error (.invalidNumber (String.ofList part))
  else if startsIdent c then
    .ok (ident (String.ofList (c :: rest.takeWhile continuesIdent)), rest.dropWhile continuesIdent)
  else if c == '"' || c == '\'' then
    match readString c rest with
    | some (said, after) => .ok (string (String.ofList said), after)
    | none => .error (.unterminatedString offset)
  else
    match operator? text with
    | some p => .ok (punct p, text.drop p.spelling.length)
    | none => .error (.unexpectedChar c offset)

end Token

namespace Lexeme

/-- The tokens of a text that begins at an offset.  Every round takes at least one character, so
with as much fuel as text the fuel runs out only at the end of the text. -/
def ofTextFrom : Nat → Nat → List Char → Except EvalFault (List Lexeme)
  | 0, _, _ => .ok []
  | _, _, [] => .ok []
  | fuel + 1, offset, c :: rest =>
      if isBlank c then ofTextFrom fuel (offset + c.utf8Size) rest
      else
        match Token.scan offset c rest with
        | .error fault => .error fault
        | .ok (token, after) =>
            match ofTextFrom fuel (offset + bytesBefore (c :: rest) after) after with
            | .error fault => .error fault
            | .ok lexemes => .ok (⟨token, offset⟩ :: lexemes)

/-- The tokens of a text. -/
def ofText (text : List Char) : Except EvalFault (List Lexeme) := ofTextFrom text.length 0 text

end Lexeme

end LiveMarkup
