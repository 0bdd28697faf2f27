import LiveMarkup.Assoc

/-!
# Document trees

A tree of elements and texts as plain data, and its markup.
-/

namespace LiveMarkup

/-- A text, or an element with everything below it. -/
inductive Tree where
  | text (content : String)
  /-- An element with its attributes, its inline style and its children. -/
  | element (tag : String) (attributes style : Assoc String String) (children : List Tree)
  deriving Inhabited

namespace Tree

/-- The tags of elements that have neither children nor a closing tag in markup. -/
def voidTags : List String := [
  "area", "base", "br", "col", "embed", "hr", "img", "input", "link", "meta", "source", "track",
  "wbr"]

/-- Whether elements with a tag have no closing tag. -/
def isVoid (tag : String) : Bool := voidTags.contains tag

/-- One character of a text in markup. -/
def escapeChar (inAttribute : Bool) (c : Char) : List Char :=
  if c = '&' then "&amp;".toList
  else if c = '<' then "&lt;".toList
  else if c = '>' then "&gt;".toList
  else if c = '"' ∧ inAttribute then "&quot;".toList
  else [c]

/-- A text in markup; in an attribute, quotes are escaped too. -/
def escape (inAttribute : Bool) (text : String) : List Char :=
  text.toList.flatMap (escapeChar inAttribute)

/-- An attribute behind a blank. -/
def renderAttribute (entry : String × String) : List Char :=
  ' ' :: entry.1.toList ++ ['=', '"'] ++ escape true entry.2 ++ ['"']

/-- Inline style as an attribute behind a blank; nothing for an empty one. -/
def renderStyle (style : Assoc String String) : List Char :=
  match style.entries with
  | [] => []
  | entries =>
      let declarations := entries.map fun (property, value) => property ++ ": " ++ value
      " style=\"".toList ++ ("; ".intercalate declarations).toList ++ ['"']

mutual

/-- The markup of a tree. -/
def render : Tree → List Char
  | text content => escape false content
  | element tag attributes style children =>
      let opening := '<' :: tag.toList ++ attributes.entries.flatMap renderAttribute ++
        renderStyle style ++ ['>']
      if isVoid tag then opening
      else opening ++ renderAll children ++ '<' :: '/' :: tag.toList ++ ['>']

/-- The markup of a row of trees. -/
def renderAll : List Tree → List Char
  | [] => []
  | tree :: rest => tree.render ++ renderAll rest

end

mutual

/-- The texts of a tree, joined. -/
def content : Tree → String
  | text content => content
  | element _ _ _ children => contentAll children

/-- The texts of a row of trees, joined. -/
def contentAll : List Tree → String
  | [] => ""
  | tree :: rest => tree.content ++ contentAll rest

end

end Tree

end LiveMarkup
