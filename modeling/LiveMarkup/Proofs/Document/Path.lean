import LiveMarkup.Proofs.Document.Subtree

/-!
# Places in a tree

The way down from an element to one below it is a path: the number of the child that is taken at
every step.  A tree can be changed at the end of a path; an attribute that is taken away there leaves
its elements in their places.
-/

namespace LiveMarkup

theorem modify_length_append {α : Type} (change : α → α) (earlier later : List α) (item : α) :
    (earlier ++ item :: later).modify earlier.length change = earlier ++ change item :: later := by
  induction earlier with
  | nil => rfl
  | cons first rest ih => exact congrArg (first :: ·) ih

namespace Tree

/-- Changes a tree at the end of a path. -/
def modifyAt (change : Tree → Tree) : List Nat → Tree → Tree
  | [], tree => change tree
  | _ :: _, .text content => .text content
  | index :: path, .element tag attributes style children =>
      .element tag attributes style (children.modify index (modifyAt change path))

/-- Changes the child of a tree that stands behind some others. -/
theorem modifyAt_append (change : Tree → Tree) (tag : String) (attributes style : Assoc String String)
    (earlier later : List Tree) (child : Tree) (path : List Nat) :
    modifyAt change (earlier.length :: path)
        (.element tag attributes style (earlier ++ child :: later)) =
      .element tag attributes style (earlier ++ modifyAt change path child :: later) := by
  rw [modifyAt, modify_length_append]

/-- A tree without an attribute of its root. -/
def withoutAttribute (name : String) : Tree → Tree
  | .text content => .text content
  | .element tag attributes style children => .element tag (attributes.erase name) style children

/-- What is left of a tree if nothing is told of its root but the tag. -/
def bare : Tree → Tree
  | .text _ => .text ""
  | .element tag _ _ _ => .element tag .empty .empty []

/-- A change that changes nothing. -/
theorem modifyAt_self (path : List Nat) (tree : Tree) : tree.modifyAt (fun inside => inside) path = tree := by
  induction path generalizing tree with
  | nil => rfl
  | cons index path ih =>
      cases tree with
      | text content => rfl
      | element tag attributes style children =>
          have same : modifyAt (fun inside => inside) path = id := funext ih
          rw [modifyAt, same, List.modify_id]

end Tree

namespace Dom

variable {ℓ : Type} {dom : Dom ℓ} {top : ElementId}

theorem listed_of_children {child : ElementId} {earlier later : List Child}
    (children : (dom.face top).children = earlier ++ .element child :: later) :
    child ∈ dom.childElements top := by
  refine mem_childElements.mpr ?_
  change Child.element child ∈ (dom.face top).children
  rw [children]
  exact List.mem_append_right _ List.mem_cons_self

/-- No child stands twice among the children of an element. -/
theorem Forest.ne_of_children (forest : dom.Forest) {child : ElementId} {earlier later : List Child}
    (children : (dom.face top).children = earlier ++ .element child :: later) {other : ElementId}
    (member : .element other ∈ earlier ++ later) : other ≠ child := by
  have distinct := forest.distinct top
  rw [childElements_eq, children, List.filterMap_append, List.filterMap_cons] at distinct
  have absent := (List.nodup_cons.mp (List.nodup_middle.mp distinct)).1
  rw [← List.filterMap_append] at absent
  rintro rfl
  exact absent (List.mem_filterMap.mpr ⟨.element other, member, rfl⟩)

end Dom

end LiveMarkup
