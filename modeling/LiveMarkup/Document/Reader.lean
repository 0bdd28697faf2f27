import LiveMarkup.Document.Piece
import LiveMarkup.Document.Tree

/-!
# Reading markup

Closing tags match the innermost open element.  The first thing that is wrong is what is reported,
be it a piece that cannot be read or one that does not fit.
-/

namespace LiveMarkup

namespace Tree

/-- An element whose closing tag has not come yet. -/
structure Unclosed where
  /-- Its tag. -/
  tag : String
  /-- Its attributes. -/
  attributes : Assoc String String
  /-- Its children so far, the last one first. -/
  children : List Tree

/-- The element once it is closed. -/
def Unclosed.close (unclosed : Unclosed) : Tree :=
  .element unclosed.tag unclosed.attributes Assoc.empty unclosed.children.reverse

/-- Trees under construction: the open elements, innermost first, and the finished trees around
them, the last one first. -/
structure Building where
  /-- The elements whose closing tags are still to come. -/
  unclosed : List Unclosed
  /-- The trees outside all of them. -/
  finished : List Tree

/-- Adds a tree at the innermost place. -/
def Building.attach (building : Building) (tree : Tree) : Building :=
  match building.unclosed with
  | [] => { building with finished := tree :: building.finished }
  | inner :: outer =>
      { building with unclosed := { inner with children := tree :: inner.children } :: outer }

/-- Takes one piece in. -/
def Building.take (building : Building) : Piece → Except MarkupFault Building
  | .content words => .ok (building.attach (.text words))
  | .opening tag attributes closed =>
      if closed || isVoid tag then
        .ok (building.attach (.element tag attributes Assoc.empty []))
      else .ok { building with unclosed := ⟨tag, attributes, []⟩ :: building.unclosed }
  | .closing tag =>
      match building.unclosed with
      | [] => .error (.mismatchedClose "" tag)
      | inner :: outer =>
          if inner.tag = tag then
            .ok (Building.attach { building with unclosed := outer } inner.close)
          else .error (.mismatchedClose inner.tag tag)

/-- The trees of a row of pieces, behind which something may be wrong. -/
def ofPieces (pieces : List Piece) (fault : Option MarkupFault) :
    Except MarkupFault (List Tree) := do
  let building ← pieces.foldlM Building.take ⟨[], []⟩
  match fault, building.unclosed with
  | some fault, _ => .error fault
  | none, inner :: _ => .error (.unclosed inner.tag)
  | none, [] => .ok building.finished.reverse

/-- Reads markup as a row of trees. -/
def parse (source : String) : Except MarkupFault (List Tree) :=
  let (pieces, fault) := Piece.ofText source.toList
  ofPieces pieces fault

end Tree

end LiveMarkup
