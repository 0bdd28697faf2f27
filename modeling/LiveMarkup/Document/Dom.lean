import LiveMarkup.Document.Tree
import LiveMarkup.Value

/-!
# Live documents

Elements that keep their identity while their attributes, texts and places change.  Every element
knows its children in order and its parent; the operations keep the two in step.  What a listener
is, is left open.
-/

namespace LiveMarkup

/-- A child of an element. -/
inductive Child where
  | text (content : String)
  | element (id : ElementId)
  deriving DecidableEq, Repr

/-- The element that a child is, if it is one. -/
def Child.element? : Child → Option ElementId
  | text _ => none
  | element id => some id

/-- An element. -/
structure Element (ℓ : Type) where
  /-- Its tag. -/
  tag : String
  /-- Its attributes. -/
  attributes : Assoc String String
  /-- Its inline style. -/
  style : Assoc String String
  /-- Its children in order. -/
  children : List Child
  /-- The element that it is a child of. -/
  parent : Option ElementId
  /-- Its listeners with the kinds of events they wait for, oldest first. -/
  listeners : List (String × ℓ)

/-- An element that stands alone and has nothing but a tag. -/
def Element.bare {ℓ : Type} (tag : String) : Element ℓ :=
  ⟨tag, Assoc.empty, Assoc.empty, [], none, []⟩

/-- Elements with their places.  None is ever removed; one without a parent is the top of a tree. -/
structure Dom (ℓ : Type) where
  /-- The elements by their numbers. -/
  elements : Array (Element ℓ)

namespace Dom

variable {ℓ : Type}

/-- No element. -/
def empty : Dom ℓ := ⟨#[]⟩

/-- The number of elements. -/
def size (dom : Dom ℓ) : Nat := dom.elements.size

/-- An element by its identifier. -/
def element (dom : Dom ℓ) (id : ElementId) : Element ℓ :=
  dom.elements[id.index]?.getD (Element.bare "")

/-- Changes an element. -/
def modify (dom : Dom ℓ) (id : ElementId) (change : Element ℓ → Element ℓ) : Dom ℓ :=
  ⟨dom.elements.modify id.index change⟩

/-- Adds an element that stands alone. -/
def add (dom : Dom ℓ) (element : Element ℓ) : ElementId × Dom ℓ :=
  (⟨dom.elements.size⟩, ⟨dom.elements.push element⟩)

/-! ## Attributes, style and listeners -/

/-- The value of an attribute. -/
def attribute? (dom : Dom ℓ) (id : ElementId) (name : String) : Option String :=
  (dom.element id).attributes.get? name

/-- Whether an element has an attribute. -/
def hasAttribute (dom : Dom ℓ) (id : ElementId) (name : String) : Bool :=
  (dom.element id).attributes.contains name

/-- Sets an attribute. -/
def setAttribute (id : ElementId) (name value : String) (dom : Dom ℓ) : Dom ℓ :=
  dom.modify id fun element => { element with attributes := element.attributes.insert name value }

/-- Removes an attribute. -/
def removeAttribute (id : ElementId) (name : String) (dom : Dom ℓ) : Dom ℓ :=
  dom.modify id fun element => { element with attributes := element.attributes.erase name }

/-- The value of a style property. -/
def style? (dom : Dom ℓ) (id : ElementId) (property : String) : Option String :=
  (dom.element id).style.get? property

/-- Sets a style property. -/
def setStyle (id : ElementId) (property value : String) (dom : Dom ℓ) : Dom ℓ :=
  dom.modify id fun element => { element with style := element.style.insert property value }

/-- Whether inline style hides an element. -/
def isHidden (dom : Dom ℓ) (id : ElementId) : Bool := dom.style? id "display" == some "none"

/-- Adds a listener behind the ones that are there. -/
def listen (id : ElementId) (kind : String) (listener : ℓ) (dom : Dom ℓ) : Dom ℓ :=
  dom.modify id fun element => { element with listeners := element.listeners ++ [(kind, listener)] }

/-- The listeners of an element that wait for a kind of event. -/
def listenersFor (dom : Dom ℓ) (id : ElementId) (kind : String) : List ℓ :=
  ((dom.element id).listeners.filter fun listener => listener.1 == kind).map Prod.snd

/-! ## Places -/

/-- The children of an element that are elements. -/
def childElements (dom : Dom ℓ) (id : ElementId) : List ElementId :=
  (dom.element id).children.filterMap Child.element?

/-- Sets the parent of a child that is an element. -/
def setParent (parent : Option ElementId) (dom : Dom ℓ) : Child → Dom ℓ
  | .text _ => dom
  | .element id => dom.modify id fun element => { element with parent := parent }

/-- Takes an element away from its parent. -/
def detach (id : ElementId) (dom : Dom ℓ) : Dom ℓ :=
  match (dom.element id).parent with
  | none => dom
  | some parent =>
      let without := dom.modify parent fun element =>
        { element with children := element.children.filter fun child => child ≠ .element id }
      without.setParent none (.element id)

/-- Takes a child away from its parent, if it is an element and has one. -/
def detachChild (child : Child) (dom : Dom ℓ) : Dom ℓ :=
  match child with
  | .text _ => dom
  | .element id => dom.detach id

/-- Appends a child; an element is taken away from its old parent first. -/
def append (id : ElementId) (child : Child) (dom : Dom ℓ) : Dom ℓ :=
  ((dom.detachChild child).setParent (some id) child).modify id fun element =>
    { element with children := element.children ++ [child] }

/-- Takes the first child away. -/
def takeFirst (dom : Dom ℓ) (id : ElementId) : Option Child × Dom ℓ :=
  match (dom.element id).children with
  | [] => (none, dom)
  | first :: rest =>
      (some first,
        (dom.modify id fun element => { element with children := rest }).setParent none first)

/-- Takes all children away. -/
def clear (id : ElementId) (dom : Dom ℓ) : Dom ℓ :=
  let children := (dom.element id).children
  children.foldl (setParent none) (dom.modify id fun element => { element with children := [] })

/-- Replaces all children by a text, or by nothing if the text is empty. -/
def setText (id : ElementId) (text : String) (dom : Dom ℓ) : Dom ℓ :=
  let cleared := dom.clear id
  if text.isEmpty then cleared
  else cleared.modify id fun element => { element with children := [.text text] }

/-! ## Whole trees

An element is never put below itself, so no tree is deeper than there are elements, and that number
bounds every walk down a tree. -/

/-- The elements of a tree in document order, as far down as the bound. -/
def descendantsWithin (dom : Dom ℓ) : Nat → ElementId → List ElementId
  | 0, _ => []
  | depth + 1, id => id :: (dom.childElements id).flatMap (dom.descendantsWithin depth)

/-- An element and everything below it in document order. -/
def descendants (dom : Dom ℓ) (id : ElementId) : List ElementId :=
  dom.descendantsWithin dom.size id

/-- The elements of a tree that have an attribute, in document order. -/
def query (dom : Dom ℓ) (id : ElementId) (name : String) : List ElementId :=
  (dom.descendants id).filter fun element => dom.hasAttribute element name

/-- The first element of a tree whose `id` attribute has a value. -/
def elementById? (dom : Dom ℓ) (root : ElementId) (value : String) : Option ElementId :=
  (dom.descendants root).find? fun element => dom.attribute? element "id" == some value

/-- The tree below an element, as far down as the bound. -/
def treeWithin (dom : Dom ℓ) : Nat → ElementId → Tree
  | 0, _ => .text ""
  | depth + 1, id =>
      let element := dom.element id
      .element element.tag element.attributes element.style
        (element.children.map fun child =>
          match child with
          | .text content => .text content
          | .element id => dom.treeWithin depth id)

/-- An element with everything below it as plain data. -/
def tree (dom : Dom ℓ) (id : ElementId) : Tree := dom.treeWithin dom.size id

/-- A child with everything below it as plain data. -/
def childTree (dom : Dom ℓ) : Child → Tree
  | .text content => .text content
  | .element id => dom.tree id

mutual

/-- Adds a tree of new elements. -/
def build (dom : Dom ℓ) : Tree → Child × Dom ℓ
  | .text content => (.text content, dom)
  | .element tag attributes style children =>
      let fresh := { Element.bare tag with attributes := attributes, style := style }
      let (id, withElement) := dom.add fresh
      (.element id, buildAll id withElement children)

/-- Adds trees of new elements as children. -/
def buildAll (parent : ElementId) (dom : Dom ℓ) : List Tree → Dom ℓ
  | [] => dom
  | tree :: rest =>
      let (child, built) := dom.build tree
      buildAll parent (built.append parent child) rest

end

/-- A copy of a child with everything below it but listeners. -/
def copy (dom : Dom ℓ) (child : Child) : Child × Dom ℓ := dom.build (dom.childTree child)

/-- A new document: an element that the trees are the children of. -/
def newDocument (dom : Dom ℓ) (trees : List Tree) : ElementId × Dom ℓ :=
  let (root, withRoot) := dom.add (Element.bare "body")
  (root, buildAll root withRoot trees)

/-- The markup of an element. -/
def outerMarkup (dom : Dom ℓ) (id : ElementId) : String := String.ofList (dom.tree id).render

/-- The markup of everything below an element. -/
def innerMarkup (dom : Dom ℓ) (id : ElementId) : String :=
  String.ofList ((dom.element id).children.flatMap fun child => (dom.childTree child).render)

/-- The texts below an element, joined. -/
def textContent (dom : Dom ℓ) (id : ElementId) : String := (dom.tree id).content

end Dom

end LiveMarkup
