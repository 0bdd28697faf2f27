import LiveMarkup.Proofs.Document.Subtree
import LiveMarkup.Proofs.Document.Trim

/-!
# Copies of trees

A copy of an element has the shape of the original, is made of new elements and has no listeners.
From then on the two lead lives of their own: an operation that names no element of a tree leaves
every element of that tree as it was.  What makes this true is that no element outside of the tree
has its parent inside, so that no operation reaches into the tree by way of a parent.
-/

namespace LiveMarkup

namespace Dom

variable {ℓ : Type} {dom between after : Dom ℓ} {inside : ElementId → Prop} {id : ElementId}

/-! ## Elements apart from their places -/

/-- An element but for its parent. -/
def inner (dom : Dom ℓ) (id : ElementId) : Element ℓ := { dom.element id with parent := none }

theorem inner_modify_of_ne {other : ElementId} (differs : other ≠ id)
    (change : Element ℓ → Element ℓ) : (dom.modify id change).inner other = dom.inner other := by
  rw [inner, element_modify_of_ne dom differs, inner]

theorem inner_setParent (parent : Option ElementId) (child : Child) (other : ElementId) :
    (dom.setParent parent child).inner other = dom.inner other := by
  cases child with
  | text content => rfl
  | element id =>
      simp only [inner, setParent, element_modify]
      split <;> rfl

theorem face_eq_of_inner (same : after.inner id = dom.inner id) : after.face id = dom.face id := by
  change (after.inner id).face = (dom.inner id).face
  rw [same]

theorem element_eq_of_inner (same : after.inner id = dom.inner id)
    (place : after.parent id = dom.parent id) : after.element id = dom.element id := by
  have put := congrArg (fun element : Element ℓ => { element with parent := dom.parent id }) same
  simp only [inner] at put
  rw [← place] at put
  exact put.trans (by rw [place]; rfl)

/-! ## Fences -/

/-- Whether no element outside of some known elements has its parent among them. -/
structure Fence (dom : Dom ℓ) (inside : ElementId → Prop) : Prop where
  /-- The elements are there. -/
  known : ∀ id, inside id → id.index < dom.size
  /-- The children of the elements are among them. -/
  closed : ∀ id parent, dom.parent id = some parent → inside parent → inside id

/-- Whether elements behind a fence are as they were, and the fence still stands. -/
structure SparesAll (dom after : Dom ℓ) (inside : ElementId → Prop) : Prop where
  /-- No element is lost. -/
  size : dom.size ≤ after.size
  /-- The fence stands. -/
  fence : after.Fence inside
  /-- The elements have not changed. -/
  inner : ∀ id, inside id → after.inner id = dom.inner id

namespace SparesAll

theorem refl (fence : dom.Fence inside) : dom.SparesAll dom inside :=
  ⟨Nat.le_refl _, fence, fun _ _ => rfl⟩

theorem trans (first : dom.SparesAll between inside) (later : between.SparesAll after inside) :
    dom.SparesAll after inside where
  size := Nat.le_trans first.size later.size
  fence := later.fence
  inner id here := (later.inner id here).trans (first.inner id here)

end SparesAll

namespace Fence

theorem modify (fence : dom.Fence inside) (outside : ¬inside id)
    (change : Element ℓ → Element ℓ)
    (parent : ∀ element, (change element).parent = element.parent) :
    dom.SparesAll (dom.modify id change) inside where
  size := Nat.le_of_eq (size_modify dom id change).symm
  fence := by
    refine ⟨fun other here => ?_, fun other above link here => ?_⟩
    · rw [size_modify]
      exact fence.known other here
    · refine fence.closed other above (Eq.trans ?_ link) here
      rw [Dom.parent, Dom.parent, element_modify]
      split
      · exact (parent _).symm
      · rfl
  inner other here := by
    refine inner_modify_of_ne ?_ change
    rintro rfl
    exact outside here

/-- An element may get any parent outside of the fence. -/
theorem setParent (fence : dom.Fence inside) (parent : Option ElementId)
    (outside : ∀ above, parent = some above → ¬inside above) (child : Child) :
    dom.SparesAll (dom.setParent parent child) inside where
  size := Nat.le_of_eq (size_setParent parent dom child).symm
  fence := by
    refine ⟨fun other here => ?_, fun other above link here => ?_⟩
    · rw [size_setParent]
      exact fence.known other here
    · by_cases same : child = .element other
      · subst same
        by_cases known : other.index < dom.size
        · rw [parent_setParent_self known] at link
          exact absurd here (outside above link)
        · rw [Dom.parent, element_of_size_le (by simpa using known)] at link
          cases link
      · rw [parent_setParent parent dom same] at link
        exact fence.closed other above link here
  inner other _ := inner_setParent parent child other

theorem setParent_none (fence : dom.Fence inside) (child : Child) :
    dom.SparesAll (dom.setParent none child) inside :=
  fence.setParent none (fun _ same => by cases same) child

theorem add (fence : dom.Fence inside) (element : Element ℓ) (root : element.parent = none) :
    dom.SparesAll (dom.add element).2 inside where
  size := by
    rw [size_add]
    exact Nat.le_succ _
  fence := by
    refine ⟨fun other here => ?_, fun other above link here => ?_⟩
    · rw [size_add]
      exact Nat.lt_succ_of_lt (fence.known other here)
    · rw [Dom.parent, element_add] at link
      split at link
      · rw [root] at link
        cases link
      · exact fence.closed other above link here
  inner other here := by
    rw [Dom.inner, element_add, if_neg (Nat.ne_of_lt (fence.known other here)), Dom.inner]

/-- An element outside has its parent outside, so it may be taken away from it. -/
theorem detach (fence : dom.Fence inside) (outside : ¬inside id) :
    dom.SparesAll (dom.detach id) inside := by
  rw [Dom.detach]
  split
  next => exact .refl fence
  next parent link =>
    have parentOutside : ¬inside parent := fun here => outside (fence.closed id parent link here)
    have without := fence.modify parentOutside (fun element =>
      { element with children := element.children.filter fun child => child ≠ .element id })
      fun _ => rfl
    exact without.trans (without.fence.setParent_none _)

theorem append (fence : dom.Fence inside) (outside : ¬inside id) {child : Child}
    (childOutside : ∀ other, child = .element other → ¬inside other) :
    dom.SparesAll (dom.append id child) inside := by
  have detached : dom.SparesAll (dom.detachChild child) inside := by
    cases child with
    | text content => exact .refl fence
    | element other => exact fence.detach (childOutside other rfl)
  have linked := detached.fence.setParent (some id)
    (fun above same => by cases same; exact outside) child
  exact (detached.trans linked).trans (linked.fence.modify outside _ fun _ => rfl)

theorem takeFirst (fence : dom.Fence inside) (outside : ¬inside id) :
    dom.SparesAll (dom.takeFirst id).2 inside := by
  rw [Dom.takeFirst]
  split
  next => exact .refl fence
  next first rest row =>
    have shorter := fence.modify outside
      (fun element => { element with children := rest }) fun _ => rfl
    exact shorter.trans (shorter.fence.setParent_none first)

theorem clear (fence : dom.Fence inside) (outside : ¬inside id) :
    dom.SparesAll (dom.clear id) inside := by
  have emptied := fence.modify outside
    (fun element => { element with children := [] }) fun _ => rfl
  have orphaned (children : List Child) {between : Dom ℓ} (spares : dom.SparesAll between inside) :
      dom.SparesAll (children.foldl (Dom.setParent none) between) inside := by
    induction children generalizing between with
    | nil => exact spares
    | cons child rest ih => exact ih (spares.trans (spares.fence.setParent_none child))
  exact orphaned _ emptied

theorem setText (fence : dom.Fence inside) (outside : ¬inside id) (text : String) :
    dom.SparesAll (dom.setText id text) inside := by
  have cleared := fence.clear outside
  rw [Dom.setText]
  split
  · exact cleared
  · exact cleared.trans (cleared.fence.modify outside _ fun _ => rfl)

mutual

/-- A tree that is built stands outside of every fence. -/
theorem build : (tree : Tree) → {dom : Dom ℓ} → dom.Fence inside →
    dom.SparesAll (dom.build tree).2 inside
  | .text _, _, fence => .refl fence
  | .element tag attributes style children, dom, fence => by
      have added := fence.add
        { Element.bare tag with attributes := attributes, style := style } rfl
      have new : ¬inside ⟨dom.size⟩ := fun here => Nat.lt_irrefl _ (fence.known _ here)
      exact added.trans (buildAll children new added.fence)

theorem buildAll : (trees : List Tree) → {parent : ElementId} → ¬inside parent →
    {dom : Dom ℓ} → dom.Fence inside → dom.SparesAll (Dom.buildAll parent dom trees) inside
  | [], _, _, _, fence => .refl fence
  | tree :: rest, parent, outside, dom, fence => by
      have built := build tree fence
      have new (other : ElementId) (same : (dom.build tree).1 = .element other) :
          ¬inside other := by
        rw [(build_builds tree dom).1] at same
        rw [(Tree.eq_of_childAt_eq_element same).1]
        exact fun here => Nat.lt_irrefl _ (fence.known _ here)
      have placed := built.trans (built.fence.append outside new)
      exact placed.trans (buildAll rest outside placed.fence)

end

end Fence

/-! ## Edits -/

/-- The elements that an operation names. -/
def Operation.names : Operation → List ElementId
  | .new _ | .markup _ | .document _ => []
  | .append parent id => [parent, id]
  | .appendText id _ | .takeFirst id | .clear id | .detach id | .setText id _ | .copy id => [id]

/-- A change to elements: to their places, or to an element alone. -/
inductive Edit (ℓ : Type) where
  /-- An operation on the places of elements. -/
  | place (operation : Operation)
  /-- An attribute is set. -/
  | setAttribute (id : ElementId) (name value : String)
  /-- An attribute is removed. -/
  | removeAttribute (id : ElementId) (name : String)
  /-- A style property is set. -/
  | setStyle (id : ElementId) (property value : String)
  /-- A listener is added. -/
  | listen (id : ElementId) (kind : String) (listener : ℓ)

/-- The elements that an edit names. -/
def Edit.names : Edit ℓ → List ElementId
  | .place operation => operation.names
  | .setAttribute id _ _ | .removeAttribute id _ | .setStyle id _ _ | .listen id _ _ => [id]

/-- The document after an edit. -/
def edit (dom : Dom ℓ) : Edit ℓ → Dom ℓ
  | .place operation => dom.after operation
  | .setAttribute id name value => dom.setAttribute id name value
  | .removeAttribute id name => dom.removeAttribute id name
  | .setStyle id property value => dom.setStyle id property value
  | .listen id kind listener => dom.listen id kind listener

/-- The document after one edit after another. -/
def edited (dom : Dom ℓ) (edits : List (Edit ℓ)) : Dom ℓ := edits.foldl Dom.edit dom

/-- An operation that names no element behind a fence spares what is behind it. -/
theorem Fence.operation (fence : dom.Fence inside) {operation : Operation}
    (outside : ∀ id ∈ operation.names, ¬inside id) :
    dom.SparesAll (dom.after operation) inside := by
  have builds (trees : List Tree) {between : Dom ℓ} (spares : dom.SparesAll between inside) :
      dom.SparesAll (trees.foldl (fun dom tree => (dom.build tree).2) between) inside := by
    induction trees generalizing between with
    | nil => exact spares
    | cons tree rest ih => exact ih (spares.trans (spares.fence.build tree))
  cases operation with
  | new tag => exact fence.add _ rfl
  | markup source =>
      rw [Dom.after]
      split
      · exact builds _ (.refl fence)
      · exact .refl fence
  | document source =>
      rw [Dom.after]
      split
      · have added := fence.add (Element.bare "body") rfl
        have new : ¬inside ⟨dom.size⟩ := fun here => Nat.lt_irrefl _ (fence.known _ here)
        exact added.trans (added.fence.buildAll _ new)
      · exact .refl fence
  | append parent id =>
      refine fence.append (outside parent List.mem_cons_self) fun other same => ?_
      cases same
      exact outside id (List.mem_cons_of_mem _ List.mem_cons_self)
  | appendText parent text =>
      exact fence.append (outside parent List.mem_cons_self) fun _ same => by cases same
  | takeFirst parent => exact fence.takeFirst (outside parent List.mem_cons_self)
  | clear parent => exact fence.clear (outside parent List.mem_cons_self)
  | detach id => exact fence.detach (outside id List.mem_cons_self)
  | setText parent text => exact fence.setText (outside parent List.mem_cons_self) text
  | copy id => exact fence.build _

theorem Fence.edit (fence : dom.Fence inside) {edit : Edit ℓ}
    (outside : ∀ id ∈ edit.names, ¬inside id) : dom.SparesAll (dom.edit edit) inside := by
  cases edit with
  | place operation => exact fence.operation outside
  | setAttribute id name value => exact fence.modify (outside id List.mem_cons_self) _ fun _ => rfl
  | removeAttribute id name => exact fence.modify (outside id List.mem_cons_self) _ fun _ => rfl
  | setStyle id property value => exact fence.modify (outside id List.mem_cons_self) _ fun _ => rfl
  | listen id kind listener => exact fence.modify (outside id List.mem_cons_self) _ fun _ => rfl

/-- Any number of edits that name no element behind a fence spare what is behind it. -/
theorem Fence.edited (fence : dom.Fence inside) {edits : List (Edit ℓ)}
    (outside : ∀ edit ∈ edits, ∀ id ∈ edit.names, ¬inside id) :
    dom.SparesAll (dom.edited edits) inside := by
  induction edits generalizing dom with
  | nil => exact .refl fence
  | cons edit rest ih =>
      obtain ⟨here, outside⟩ := List.forall_mem_cons.mp outside
      have spares := fence.edit here
      exact spares.trans (ih spares.fence outside)

/-- A tree is a fence around itself. -/
theorem Forest.fence (forest : dom.Forest) (known : id.index < dom.size) :
    dom.Fence (dom.Within id) where
  known _ here := forest.known_of_within known here
  closed _ _ link here := .child here ((forest.linked _ _).mp link)

/-- Whether every element of a tree is as it was, but for the place of its root. -/
structure Undisturbed (dom after : Dom ℓ) (top : ElementId) : Prop where
  /-- The elements of the tree have their attributes, style, children and listeners. -/
  inner : ∀ id, dom.Within top id → after.inner id = dom.inner id
  /-- The tree has its markup. -/
  markup : after.outerMarkup top = dom.outerMarkup top

theorem Forest.undisturbed (forest : dom.Forest) (known : id.index < dom.size)
    {edits : List (Edit ℓ)} (outside : ∀ edit ∈ edits, ∀ other ∈ edit.names, ¬dom.Within id other) :
    dom.Undisturbed (dom.edited edits) id := by
  have spares := (forest.fence known).edited outside
  refine ⟨spares.inner, ?_⟩
  have same := forest.tree_congr known spares.size fun other below =>
    face_eq_of_inner (spares.inner other below)
  rw [outerMarkup, same, outerMarkup]

/-! ## Twins -/

/-- Whether one child, found in a later document, is a copy of another one: equal texts, or an
element that is new and deaf, with the tag, the attributes and the style of the other one, and with
copies of its children in their order, each of which knows the element as its parent. -/
inductive Twins (dom after : Dom ℓ) : Child → Child → Prop
  /-- Texts are the same. -/
  | text (content : String) : Twins dom after (.text content) (.text content)
  /-- Elements correspond in everything but their identity, their parents and their listeners. -/
  | element {id copy : ElementId} (new : dom.size ≤ copy.index) (known : copy.index < after.size)
      (tag : (after.element copy).tag = (dom.element id).tag)
      (attributes : (after.element copy).attributes = (dom.element id).attributes)
      (style : (after.element copy).style = (dom.element id).style)
      (deaf : (after.element copy).listeners = [])
      (links : ∀ child, Child.element child ∈ (after.element copy).children →
        (after.element child).parent = some copy)
      (children : List.Forall₂ (Twins dom after) (dom.element id).children
        (after.element copy).children) : Twins dom after (.element id) (.element copy)

mutual

/-- Where the tree of a child stands in a later document, its twin stands. -/
theorem twins_of_stands (forest : dom.Forest) (grown : after.Forest)
    (deaf : ∀ copy : ElementId, dom.size ≤ copy.index → (after.element copy).listeners = []) :
    (tree : Tree) → (place : Nat) → (child : Child) →
    (∀ id, child = .element id → id.index < dom.size) → dom.childTree child = tree →
    dom.size ≤ place → place + tree.count ≤ after.size → after.Stands tree place →
    dom.Twins after child (tree.childAt place)
  | .text content, place, child, known, shows, _, _, _ => by
      cases child with
      | text other =>
          cases shows
          exact .text content
      | element id =>
          rw [childTree, forest.tree_eq (known id rfl)] at shows
          cases shows
  | .element tag attributes style children, place, child, known, shows, new, room, stands => by
      cases child with
      | text other => cases shows
      | element id =>
          obtain ⟨sameTag, sameAttributes, sameStyle, row⟩ :=
            forest.face_of_tree (known id rfl) shows
          have face := stands.1
          have listed (child : ElementId) (member : Child.element child ∈ (dom.face id).children) :
              child.index < dom.size :=
            (forest.known_of_parent
              ((forest.linked child id).mpr (mem_childElements.mpr member))).1
          simp only [Tree.count] at room
          have twins := twinsAll_of_stands forest grown deaf children (place + 1) _ listed row
            (by omega) (by omega) stands.2
          have room : place < after.size := by omega
          refine .element new room ?_ ?_ ?_ (deaf _ new) (fun child member => ?_) ?_
          · exact (congrArg Face.tag face).trans sameTag.symm
          · exact (congrArg Face.attributes face).trans sameAttributes.symm
          · exact (congrArg Face.style face).trans sameStyle.symm
          · exact (grown.linked child ⟨place⟩).mpr (mem_childElements.mpr member)
          · have sameRow : (after.element ⟨place⟩).children = Tree.rowAt (place + 1) children :=
              congrArg Face.children face
            rw [sameRow]
            exact twins

theorem twinsAll_of_stands (forest : dom.Forest) (grown : after.Forest)
    (deaf : ∀ copy : ElementId, dom.size ≤ copy.index → (after.element copy).listeners = []) :
    (trees : List Tree) → (place : Nat) → (row : List Child) →
    (∀ id, Child.element id ∈ row → id.index < dom.size) → row.map dom.childTree = trees →
    dom.size ≤ place → place + Tree.countAll trees ≤ after.size → after.StandsAll trees place →
    List.Forall₂ (dom.Twins after) row (Tree.rowAt place trees)
  | [], _, row, _, shows, _, _, _ => by
      rw [List.map_eq_nil_iff.mp shows]
      exact .nil
  | tree :: rest, place, row, known, shows, new, room, stands => by
      obtain ⟨child, others, rfl, first, later⟩ := List.map_eq_cons_iff.mp shows
      simp only [Tree.countAll] at room
      refine .cons ?_ ?_
      · exact twins_of_stands forest grown deaf tree place child
          (fun id same => known id (same ▸ List.mem_cons_self)) first new (by omega) stands.1
      · exact twinsAll_of_stands forest grown deaf rest (place + tree.count) others
          (fun id member => known id (List.mem_cons_of_mem _ member)) later (by omega) (by omega)
          stands.2

end

/-! ## Copies -/

/-- What is known of a copy of an element. -/
structure CopiedTo (dom after : Dom ℓ) (id copy : ElementId) : Prop where
  /-- It has the shape of the original, is made of new elements and has no listeners. -/
  twins : dom.Twins after (.element id) (.element copy)
  /-- It has the markup of the original. -/
  markup : after.outerMarkup copy = dom.outerMarkup id
  /-- It is the child of no element. -/
  root : after.parent copy = none
  /-- All that was there is as it was. -/
  old : ∀ other : ElementId, other.index < dom.size → after.element other = dom.element other
  /-- No element belongs to both trees. -/
  apart : ∀ other, after.Within id other → ¬after.Within copy other

/-- Copies are faithful and separate.  A copy has the shape of the original, and the original is as
it was; from then on edits that name no element of one tree leave that tree as it was, however many
there are and whatever they do to the other tree. -/
theorem Forest.copies_are_separate (forest : dom.Forest) (known : id.index < dom.size) :
    ∃ copy, (dom.copy (.element id)).1 = .element copy ∧
      dom.CopiedTo (dom.copy (.element id)).2 id copy ∧
      ∀ top, top = id ∨ top = copy → ∀ edits : List (Edit ℓ),
        (∀ edit ∈ edits, ∀ named ∈ edit.names, ¬(dom.copy (.element id)).2.Within top named) →
        (dom.copy (.element id)).2.Undisturbed ((dom.copy (.element id)).2.edited edits) top := by
  obtain ⟨child, builds⟩ := build_builds (dom.tree id) dom
  obtain ⟨adds, shown⟩ := forest.build_adds (dom.tree id)
  obtain ⟨tag, attributes, style, children, shape⟩ : ∃ tag attributes style children,
      dom.tree id = .element tag attributes style children := ⟨_, _, _, _, forest.tree_eq known⟩
  have grown := adds.forest
  have size := builds.size
  have room : dom.size < (dom.build (dom.tree id)).2.size := by
    rw [size, shape, Tree.count]
    omega
  have place : (dom.tree id).childAt dom.size = .element ⟨dom.size⟩ := by
    rw [shape]
    rfl
  have root := builds.root _ place
  have deaf (copy : ElementId) (new : dom.size ≤ copy.index) :
      ((dom.build (dom.tree id)).2.element copy).listeners = [] := by
    rw [sameListeners_build (dom.tree id) dom copy, element_of_size_le new]
    rfl
  have twins := twins_of_stands forest grown deaf (dom.tree id) dom.size (.element id)
    (fun other same => by cases same; exact known) rfl (Nat.le_refl _) (Nat.le_of_eq size.symm)
    builds.stands
  rw [place] at child twins
  rw [child] at shown
  have original : dom.Fence fun other => other.index < dom.size := by
    refine ⟨fun _ here => here, fun other parent link _ => (forest.known_of_parent link).1⟩
  have inner := (original.build (dom.tree id)).inner
  have differs : (⟨dom.size⟩ : ElementId) ≠ id := by
    rintro rfl
    exact Nat.lt_irrefl _ known
  have apart : (dom.build (dom.tree id)).2.Apart id ⟨dom.size⟩ :=
    ⟨grown.not_within_of_root differs root,
      fun below => differs (eq_of_within_new (Nat.le_refl _) (adds.within below known)).symm⟩
  refine ⟨⟨dom.size⟩, child, ⟨twins, ?_, root, fun other old => ?_,
    fun other below => grown.not_within_of_apart apart below⟩, ?_⟩
  · rw [outerMarkup, outerMarkup]
    exact congrArg (fun tree : Tree => String.ofList tree.render) shown
  · exact element_eq_of_inner (inner other old) (builds.parent other old)
  · intro top which edits outside
    refine grown.undisturbed ?_ outside
    rcases which with rfl | rfl
    · exact Nat.lt_trans known room
    · exact room

/-- A box with a list; the item of the list has a class, a style, a text and a listener. -/
def listBox : Dom Unit :=
  let item : Tree := .element "li" ⟨[("class", "one")]⟩ ⟨[("color", "red")]⟩ [.text "first"]
  let list : Tree := .element "ul" Assoc.empty Assoc.empty [item]
  (Dom.empty.build (.element "div" Assoc.empty Assoc.empty [list])).2.listen ⟨2⟩ "click" ()

/-- The item of the copied list is changed, emptied and taken away. -/
def copyEdits : List (Edit Unit) :=
  [.setAttribute ⟨4⟩ "class" "two", .place (.setText ⟨4⟩ ""), .place (.detach ⟨4⟩)]

theorem listBox_copy_separate :
    listBox.Forest ∧ (⟨1⟩ : ElementId).index < listBox.size ∧
      ∃ copy, (listBox.copy (.element ⟨1⟩)).1 = .element copy ∧
        listBox.CopiedTo (listBox.copy (.element ⟨1⟩)).2 ⟨1⟩ copy ∧
        ((listBox.copy (.element ⟨1⟩)).2.edited copyEdits).outerMarkup ⟨1⟩ =
          "<ul><li class=\"one\" style=\"color: red\">first</li></ul>" := by
  have forest : listBox.Forest :=
    (Forest.build _ _ empty_forest).1.forest.modify ⟨2⟩ (fun _ => rfl) fun _ => rfl
  have known : (⟨1⟩ : ElementId).index < listBox.size := by decide
  obtain ⟨copy, child, copied, separate⟩ := forest.copies_are_separate known
  obtain rfl : copy = ⟨3⟩ := Child.element.inj (child.symm.trans rfl)
  refine ⟨forest, known, ⟨3⟩, child, copied, ?_⟩
  have below : (listBox.copy (.element ⟨1⟩)).2.Within ⟨3⟩ ⟨4⟩ := .child .self (by decide)
  have outside : ∀ edit ∈ copyEdits, ∀ named ∈ edit.names,
      ¬(listBox.copy (.element ⟨1⟩)).2.Within ⟨1⟩ named := by
    intro edit member named names within
    have item : named = ⟨4⟩ := by
      simp only [copyEdits, List.mem_cons, List.not_mem_nil, or_false] at member
      rcases member with rfl | rfl | rfl <;> exact List.mem_singleton.mp names
    exact copied.apart named within (item ▸ below)
  exact (separate ⟨1⟩ (.inl rfl) copyEdits outside).markup.trans rfl

end Dom

end LiveMarkup
