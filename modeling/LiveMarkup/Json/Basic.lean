import LiveMarkup.Number.Text

/-!
# JSON values

Numbers are either integers of 64 bits, with or without a sign, or doubles.  The members of an
object are listed in ascending order of their names, each name once.
-/

namespace LiveMarkup

/-- A JSON value. -/
inductive Json where
  | null
  | bool (value : Bool)
  /-- An integer between `-2 ^ 63` and `2 ^ 64 - 1`. -/
  | integer (value : Int)
  /-- Any other number, as the nearest double. -/
  | float (value : Float)
  | string (text : String)
  | array (items : List Json)
  | object (members : List (String × Json))
  deriving Inhabited

namespace Json

/-- Puts a member into an ordered list of members; a member of the same name is replaced. -/
def insertMember (name : String) (value : Json) :
    List (String × Json) → List (String × Json)
  | [] => [(name, value)]
  | (other, present) :: rest =>
      if name < other then (name, value) :: (other, present) :: rest
      else if name = other then (name, value) :: rest
      else (other, present) :: insertMember name value rest

/-- The object with the given members, of which the last of each name counts. -/
def ofMembers (members : List (String × Json)) : Json :=
  object (members.foldl (fun ordered member => insertMember member.1 member.2 ordered) [])

/-- The member of an object, or nothing for another value. -/
def member? (name : String) : Json → Option Json
  | object members => members.lookup name
  | _ => none

/-- Four hexadecimal digits. -/
def hexFour (n : Nat) : List Char :=
  let digits := Nat.toDigits 16 n
  List.replicate (4 - digits.length) '0' ++ digits

/-- One character inside a quoted text. -/
def escapeChar (c : Char) : List Char :=
  if c = '"' then ['\\', '"']
  else if c = '\\' then ['\\', '\\']
  else if c = '\n' then ['\\', 'n']
  else if c = '\r' then ['\\', 'r']
  else if c = '\t' then ['\\', 't']
  else if c = '\x08' then ['\\', 'b']
  else if c = '\x0c' then ['\\', 'f']
  else if c.toNat < 0x20 then '\\' :: 'u' :: hexFour c.toNat
  else [c]

/-- A text between quotes. -/
def quote (text : String) : List Char := '"' :: text.toList.flatMap escapeChar ++ ['"']

/-- Joins texts with commas. -/
def commaSeparated : List (List Char) → List Char
  | [] => []
  | [item] => item
  | item :: rest => item ++ ',' :: commaSeparated rest

mutual

/-- A value as text without blanks. -/
def render : Json → List Char
  | null => "null".toList
  | bool true => "true".toList
  | bool false => "false".toList
  | integer value => (toString value).toList
  | float value => (numeralText value).toList
  | string text => quote text
  | array items => '[' :: commaSeparated (renderItems items) ++ [']']
  | object members => '\x7b' :: commaSeparated (renderMembers members) ++ ['\x7d']

/-- The texts of the items of an array. -/
def renderItems : List Json → List (List Char)
  | [] => []
  | item :: rest => item.render :: renderItems rest

/-- The texts of the members of an object. -/
def renderMembers : List (String × Json) → List (List Char)
  | [] => []
  | (name, value) :: rest => (quote name ++ ':' :: value.render) :: renderMembers rest

end

/-- A value as a string. -/
def text (value : Json) : String := String.ofList value.render

end Json

end LiveMarkup
