import LiveMarkup.Fault

/-!
# Directive attributes

A directive is an attribute whose name is made of a prefix, a name, an argument behind a colon and
modifiers behind dots, as in `a-on:submit.prevent`.  Its value is an expression.
-/

namespace LiveMarkup

/-- What a directive does. -/
inductive DirectiveKind where
  /-- Declares the data of a root. -/
  | data
  /-- Shows a value as text. -/
  | text
  /-- Shows or hides the element. -/
  | visible
  /-- Runs when an event arrives. -/
  | on
  /-- Repeats the element's first child for every item of a list. -/
  | repeated
  /-- Nothing that is known. -/
  | unknown
  deriving DecidableEq, Repr

/-- The kind of a directive by its name. -/
def DirectiveKind.ofName (name : String) : DirectiveKind :=
  if name = "data" then data
  else if name = "text" then text
  else if name = "show" then visible
  else if name = "on" then on
  else if name = "for" then repeated
  else unknown

/-- The name that a kind is told by. -/
def DirectiveKind.label : DirectiveKind → String
  | data => "data"
  | text => "text"
  | visible => "show"
  | on => "on"
  | repeated => "for"
  | unknown => "unknown"

/-- A directive attribute in its parts. -/
structure Directive where
  /-- The name without the prefix. -/
  name : String
  /-- What stands behind the first colon. -/
  argument : Option String
  /-- What stands behind each dot. -/
  modifiers : List String
  /-- The value of the attribute. -/
  expression : String
  deriving DecidableEq, Repr

namespace Directive

/-- What the directive does. -/
def kind (directive : Directive) : DirectiveKind := DirectiveKind.ofName directive.name

/-- Whether the directive has a modifier. -/
def hasModifier (directive : Directive) (modifier : String) : Bool :=
  directive.modifiers.contains modifier

/-- What follows a beginning of a text, if the text begins so. -/
def stripStart? : List Char → List Char → Option (List Char)
  | [], text => some text
  | _ :: _, [] => none
  | c :: start, d :: text => if c = d then stripStart? start text else none

/-- The parts of a text between the occurrences of a character. -/
def splitAt (separator : Char) : List Char → List (List Char)
  | [] => [[]]
  | c :: rest =>
      if c = separator then [] :: splitAt separator rest
      else
        match splitAt separator rest with
        | [] => [[c]]
        | first :: others => (c :: first) :: others

/-- Reads an attribute as a directive.  It is one if its name begins with the prefix and goes on. -/
def ofAttribute? (attributePrefix name value : String) : Option Directive :=
  match stripStart? attributePrefix.toList name.toList with
  | none => none
  | some [] => none
  | some rest =>
      match splitAt '.' rest with
      | [] => none
      | head :: modifiers =>
          let argument := match head.dropWhile (· ≠ ':') with
            | [] => none
            | _ :: argument => some (String.ofList argument)
          let name := String.ofList (head.takeWhile (· ≠ ':'))
          some ⟨name, argument, modifiers.map String.ofList, value⟩

end Directive

end LiveMarkup
