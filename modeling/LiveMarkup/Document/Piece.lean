import LiveMarkup.Assoc
import LiveMarkup.Fault
import LiveMarkup.Text.Blank
import LiveMarkup.Text.Bytes

/-!
# The pieces of markup

Markup is a row of opening tags, closing tags and texts, with comments between them.  Tags are read
in lower case, attribute values are quoted, bare or missing, and five character entities are known.
Text that is blank does not count.
-/

namespace LiveMarkup

/-- A piece of markup. -/
inductive Piece where
  /-- An opening tag, and whether it closes itself. -/
  | opening (tag : String) (attributes : Assoc String String) (closed : Bool)
  /-- A closing tag. -/
  | closing (tag : String)
  /-- A text between tags. -/
  | content (text : String)
  deriving DecidableEq

namespace Piece

/-- Whether a character may stand in the name of a tag. -/
def inTagName (c : Char) : Bool := c.isAlphanum || c == '-' || c == '_' || c == ':'

/-- Whether a character may stand in the name of an attribute. -/
def inAttributeName (c : Char) : Bool :=
  !isBlank c && c != '=' && c != '>' && c != '/' && c != '"' && c != '\''

/-- Replaces the entities of a text by the characters they name. -/
def decode : List Char → List Char
  | [] => []
  | '&' :: 'l' :: 't' :: ';' :: rest => '<' :: decode rest
  | '&' :: 'g' :: 't' :: ';' :: rest => '>' :: decode rest
  | '&' :: 'q' :: 'u' :: 'o' :: 't' :: ';' :: rest => '"' :: decode rest
  | '&' :: '#' :: '3' :: '9' :: ';' :: rest => '\'' :: decode rest
  | '&' :: 'a' :: 'm' :: 'p' :: ';' :: rest => '&' :: decode rest
  | c :: rest => c :: decode rest

/-- A decoded text as a string. -/
def decodeText (text : List Char) : String := String.ofList (decode text)

/-- The name of a tag in lower case. -/
def tagName (name : List Char) : String := String.ofList (name.map Char.toLower)

/-- Why a tag cannot be read. -/
inductive TagFault where
  /-- The text ends inside it. -/
  | ended
  /-- Something else is wrong where the given rest begins. -/
  | invalid (rest : List Char)

/-- Reads the value of an attribute behind its equals sign. -/
def readValue : List Char → Except TagFault (String × List Char)
  | [] => .error .ended
  | c :: rest =>
      if c = '"' ∨ c = '\'' then
        match rest.dropWhile (· ≠ c) with
        | [] => .error .ended
        | _ :: after => .ok (decodeText (rest.takeWhile (· ≠ c)), after)
      else
        let isBare (c : Char) : Bool := !isBlank c && c != '>'
        .ok (decodeText ((c :: rest).takeWhile isBare), (c :: rest).dropWhile isBare)

/-- Reads attributes up to the end of an opening tag, and whether the tag closes itself.  Every
round takes at least one character, so the fuel lasts if there is as much as text. -/
def readAttributes (attributes : Assoc String String) :
    Nat → List Char → Except TagFault (Assoc String String × Bool × List Char)
  | 0, _ => .error .ended
  | fuel + 1, text =>
      match text.dropWhile isBlank with
      | [] => .error .ended
      | '>' :: rest => .ok (attributes, false, rest)
      | '/' :: '>' :: rest => .ok (attributes, true, rest)
      | text =>
          let name := String.ofList (text.takeWhile inAttributeName)
          if name.isEmpty then .error (.invalid text)
          else
            match (text.dropWhile inAttributeName).dropWhile isBlank with
            | '=' :: rest =>
                match readValue (rest.dropWhile isBlank) with
                | .error fault => .error fault
                | .ok (value, rest) => readAttributes (attributes.insert name value) fuel rest
            | rest => readAttributes (attributes.insert name "") fuel rest

/-- Reads an opening tag. -/
def readOpening (text : List Char) : Except TagFault (Piece × List Char) :=
  let afterMark := text.drop 1
  let name := afterMark.takeWhile inTagName
  if name.isEmpty then .error (.invalid text)
  else
    let rest := afterMark.dropWhile inTagName
    match readAttributes Assoc.empty (rest.length + 1) rest with
    | .error fault => .error fault
    | .ok (attributes, closed, rest) => .ok (opening (tagName name) attributes closed, rest)

/-- Reads a closing tag. -/
def readClosing (text : List Char) : Except TagFault (Piece × List Char) :=
  let afterMark := text.drop 2
  let name := afterMark.takeWhile inTagName
  if name.isEmpty then .error (.invalid text)
  else
    match (afterMark.dropWhile inTagName).dropWhile isBlank with
    | '>' :: rest => .ok (closing (tagName name), rest)
    | _ => .error (.invalid text)

/-- What follows the end of a comment. -/
def afterComment? : List Char → Option (List Char)
  | [] => none
  | '-' :: '-' :: '>' :: rest => some rest
  | _ :: rest => afterComment? rest

/-- Reads one piece, or nothing where a comment or a blank text stands. -/
def readOne (text : List Char) : Except TagFault (Option Piece × List Char) :=
  match text with
  | '<' :: '!' :: '-' :: '-' :: rest =>
      match afterComment? rest with
      | some rest => .ok (none, rest)
      | none => .error .ended
  | '<' :: '/' :: _ => (readClosing text).map fun (piece, rest) => (some piece, rest)
  | '<' :: _ => (readOpening text).map fun (piece, rest) => (some piece, rest)
  | _ =>
      let words := text.takeWhile (· ≠ '<')
      let piece := if isBlankText words then none else some (Piece.content (decodeText words))
      .ok (piece, text.dropWhile (· ≠ '<'))

/-- The pieces of a text that begins at an offset, up to the first one that cannot be read, and what
is wrong with that one.  Every round takes at least one character, so with as much fuel as text the
fuel runs out only at the end of the text. -/
def ofTextFrom : Nat → Nat → List Char → List Piece × Option MarkupFault
  | 0, _, _ => ([], none)
  | _, _, [] => ([], none)
  | fuel + 1, offset, c :: text =>
      match readOne (c :: text) with
      | .error .ended => ([], some .unexpectedEnd)
      | .error (.invalid rest) => ([], some (.invalidTag (offset + bytesBefore (c :: text) rest)))
      | .ok (piece, rest) =>
          let (pieces, fault) := ofTextFrom fuel (offset + bytesBefore (c :: text) rest) rest
          (piece.toList ++ pieces, fault)

/-- The pieces of a text, and what is wrong behind them, if anything is. -/
def ofText (text : List Char) : List Piece × Option MarkupFault := ofTextFrom text.length 0 text

end Piece

end LiveMarkup
