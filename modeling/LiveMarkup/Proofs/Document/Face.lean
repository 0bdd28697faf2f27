import LiveMarkup.Document.Dom

/-!
# What an operation on a document changes

Of an element one sees its tag, its attributes, its style and its children; this is its face.  Every
operation on the places of elements changes the face of one element, and the parents of elements
behind it.  Parents come before their children in every document that is built from trees, and no
operation changes that.
-/

namespace LiveMarkup

/-- What can be seen of an element. -/
structure Face where
  /-- Its tag. -/
  tag : String
  /-- Its attributes. -/
  attributes : Assoc String String
  /-- Its inline style. -/
  style : Assoc String String
  /-- Its children in order. -/
  children : List Child

/-- What can be seen of an element. -/
def Element.face {ℓ : Type} (element : Element ℓ) : Face :=
  ⟨element.tag, element.attributes, element.style, element.children⟩

namespace Dom

variable {ℓ : Type}

/-- What can be seen of an element of a document. -/
def face (dom : Dom ℓ) (id : ElementId) : Face := (dom.element id).face

/-- The element that an element is a child of. -/
def parent (dom : Dom ℓ) (id : ElementId) : Option ElementId := (dom.element id).parent

@[simp] theorem size_modify (dom : Dom ℓ) (id : ElementId) (change : Element ℓ → Element ℓ) :
    (dom.modify id change).size = dom.size := by
  simp [modify, size]

theorem element_modify (dom : Dom ℓ) (id other : ElementId) (change : Element ℓ → Element ℓ) :
    (dom.modify id change).element other =
      if other = id ∧ id.index < dom.size then change (dom.element other)
      else dom.element other := by
  simp only [modify, element, size, Array.getElem?_modify]
  by_cases same : other = id
  · subst same
    by_cases known : other.index < dom.elements.size <;> simp [known]
  · have differs : ¬id.index = other.index := fun equal =>
      same (by cases id; cases other; simp_all)
    simp [same, differs]

theorem element_modify_of_ne (dom : Dom ℓ) {id other : ElementId} (differs : other ≠ id)
    (change : Element ℓ → Element ℓ) : (dom.modify id change).element other = dom.element other := by
  rw [element_modify, if_neg fun both => differs both.1]

theorem element_modify_self {dom : Dom ℓ} {id : ElementId} (known : id.index < dom.size)
    (change : Element ℓ → Element ℓ) :
    (dom.modify id change).element id = change (dom.element id) := by
  rw [element_modify, if_pos ⟨rfl, known⟩]

/-! ## Order -/

/-- Whether parents come before their children. -/
def Ordered (dom : Dom ℓ) : Prop :=
  ∀ id child, Child.element child ∈ (dom.face id).children →
    id.index < child.index ∧ child.index < dom.size

/-- What is known of the faces in a document after an operation on one element. -/
structure Recasts (dom after : Dom ℓ) (id : ElementId) (face : Face) : Prop where
  /-- No element is added. -/
  size : after.size = dom.size
  /-- The element has its new face. -/
  here : after.face id = face
  /-- The others have the faces they had. -/
  elsewhere : ∀ other, other ≠ id → after.face other = dom.face other

/-- What is known of a document after an operation on one element: the face of that element, and
that nothing else has changed but the parents of later elements. -/
structure Edits (dom after : Dom ℓ) (id : ElementId) (face : Face) : Prop
    extends Recasts dom after id face where
  /-- The element and those before it have the parents they had. -/
  parent : ∀ other, other.index ≤ id.index → after.parent other = dom.parent other

theorem Edits.ordered {dom after : Dom ℓ} {id : ElementId} {face : Face}
    (edits : dom.Edits after id face) (ordered : dom.Ordered)
    (later : ∀ child, Child.element child ∈ face.children →
      id.index < child.index ∧ child.index < dom.size) : after.Ordered := by
  intro other child member
  rw [edits.size]
  by_cases here : other = id
  · subst here
    rw [edits.here] at member
    exact later child member
  · rw [edits.elsewhere other here] at member
    exact ordered other child member

/-! ## Parents -/

@[simp] theorem size_setParent (parent : Option ElementId) (dom : Dom ℓ) (child : Child) :
    (dom.setParent parent child).size = dom.size := by
  cases child with
  | text content => rfl
  | element id => exact size_modify dom id _

theorem face_setParent (parent : Option ElementId) (dom : Dom ℓ) (child : Child) (id : ElementId) :
    (dom.setParent parent child).face id = dom.face id := by
  cases child with
  | text content => rfl
  | element other =>
      simp only [face, setParent, element_modify]
      split <;> rfl

theorem parent_setParent (parent : Option ElementId) (dom : Dom ℓ) {child : Child} {id : ElementId}
    (differs : child ≠ .element id) : (dom.setParent parent child).parent id = dom.parent id := by
  cases child with
  | text content => rfl
  | element other =>
      have elsewhere : id ≠ other := fun same => differs (congrArg Child.element same.symm)
      rw [Dom.parent, setParent, element_modify_of_ne dom elsewhere, Dom.parent]

theorem foldl_setParent (parent : Option ElementId) (children : List Child) (dom : Dom ℓ) :
    (children.foldl (setParent parent) dom).size = dom.size ∧
      (∀ id, (children.foldl (setParent parent) dom).face id = dom.face id) ∧
      ∀ id, Child.element id ∉ children →
        (children.foldl (setParent parent) dom).parent id = dom.parent id := by
  induction children generalizing dom with
  | nil => exact ⟨rfl, fun _ => rfl, fun _ _ => rfl⟩
  | cons child rest ih =>
      obtain ⟨size, faces, parents⟩ := ih (dom.setParent parent child)
      rw [List.foldl_cons]
      refine ⟨size.trans (size_setParent parent dom child), fun id => ?_, fun id absent => ?_⟩
      · exact (faces id).trans (face_setParent parent dom child id)
      · simp only [List.mem_cons, not_or] at absent
        rw [parents id absent.2, parent_setParent parent dom fun same => absent.1 same.symm]

/-! ## Operations -/

variable {dom : Dom ℓ} {id : ElementId}

/-- Changing an element in place changes its face only. -/
theorem modify_recasts (known : id.index < dom.size) (change : Element ℓ → Element ℓ) :
    dom.Recasts (dom.modify id change) id (change (dom.element id)).face where
  size := size_modify dom id change
  here := by rw [face, element_modify_self known]
  elsewhere other differs := by rw [face, element_modify_of_ne dom differs, face]

theorem modify_edits (known : id.index < dom.size) (change : Element ℓ → Element ℓ)
    (parent : ∀ element, (change element).parent = element.parent) :
    dom.Edits (dom.modify id change) id (change (dom.element id)).face :=
  { modify_recasts known change with
    parent := fun other _ => by
      rw [Dom.parent, element_modify, Dom.parent]
      split
      · exact parent _
      · rfl }

theorem setStyle_edits (known : id.index < dom.size) (property value : String) :
    dom.Edits (dom.setStyle id property value) id
      { dom.face id with style := (dom.face id).style.insert property value } :=
  modify_edits known _ fun _ => rfl

theorem Recasts.trans {between after : Dom ℓ} {first second : Face}
    (recasts : dom.Recasts between id first) (later : between.Recasts after id second) :
    dom.Recasts after id second where
  size := later.size.trans recasts.size
  here := later.here
  elsewhere other differs := (later.elsewhere other differs).trans (recasts.elsewhere other differs)

/-- Setting parents changes nothing that is seen. -/
theorem Recasts.of_faces {between after : Dom ℓ} {face : Face} (recasts : dom.Recasts between id face)
    (size : after.size = between.size) (faces : ∀ other, after.face other = between.face other) :
    dom.Recasts after id face where
  size := size.trans recasts.size
  here := (faces id).trans recasts.here
  elsewhere other differs := (faces other).trans (recasts.elsewhere other differs)

theorem clear_recasts (known : id.index < dom.size) :
    dom.Recasts (dom.clear id) id { dom.face id with children := [] } := by
  obtain ⟨size, faces, -⟩ := foldl_setParent none (dom.element id).children
    (dom.modify id fun element => { element with children := [] })
  exact (modify_recasts known _).of_faces size faces

theorem clear_edits (ordered : dom.Ordered) (known : id.index < dom.size) :
    dom.Edits (dom.clear id) id { dom.face id with children := [] } := by
  have emptied : dom.Edits (dom.modify id fun element => { element with children := [] }) id
      { dom.face id with children := [] } := modify_edits known _ fun _ => rfl
  obtain ⟨-, -, parents⟩ := foldl_setParent none (dom.element id).children
    (dom.modify id fun element => { element with children := [] })
  refine ⟨clear_recasts known, fun other before => ?_⟩
  refine (parents other fun member => ?_).trans (emptied.parent other before)
  exact Nat.lt_irrefl _ (Nat.lt_of_lt_of_le (ordered id other member).1 before)

/-- The children of an element that shows a text. -/
def textRow (text : String) : List Child := if text.isEmpty then [] else [.text text]

theorem setText_recasts (known : id.index < dom.size) (text : String) :
    dom.Recasts (dom.setText id text) id { dom.face id with children := textRow text } := by
  have cleared := clear_recasts known
  unfold setText textRow
  split
  · exact cleared
  · have known : id.index < (dom.clear id).size := by
      rw [cleared.size]
      exact known
    have written := modify_recasts known fun element => { element with children := [.text text] }
    have face : { (dom.clear id).face id with children := [.text text] } =
        { dom.face id with children := [Child.text text] } := by rw [cleared.here]
    exact face ▸ cleared.trans written

theorem setText_edits (ordered : dom.Ordered) (known : id.index < dom.size) (text : String) :
    dom.Edits (dom.setText id text) id { dom.face id with children := textRow text } := by
  refine ⟨setText_recasts known text, fun other before => ?_⟩
  have cleared := clear_edits ordered known
  have known : id.index < (dom.clear id).size := by
    rw [cleared.size]
    exact known
  have written := modify_edits known (fun element => { element with children := [.text text] })
    fun _ => rfl
  rw [setText]
  split
  · exact cleared.parent other before
  · exact (written.parent other before).trans (cleared.parent other before)

/-- Taking the first child away gives it and leaves the others. -/
theorem takeFirst_eq {first : Child} {rest : List Child}
    (children : (dom.face id).children = first :: rest) :
    dom.takeFirst id = (some first,
      (dom.modify id fun element => { element with children := rest }).setParent none first) := by
  change (dom.element id).children = _ at children
  rw [takeFirst, children]

theorem takeFirst_recasts (known : id.index < dom.size) {first : Child} {rest : List Child}
    (children : (dom.face id).children = first :: rest) :
    (dom.takeFirst id).1 = some first ∧
      dom.Recasts (dom.takeFirst id).2 id { dom.face id with children := rest } := by
  rw [takeFirst_eq children]
  exact ⟨rfl, (modify_recasts known _).of_faces (size_setParent none _ first)
    fun other => face_setParent none _ first other⟩

theorem takeFirst_edits (ordered : dom.Ordered) (known : id.index < dom.size) {first : Child}
    {rest : List Child} (children : (dom.face id).children = first :: rest) :
    (dom.takeFirst id).1 = some first ∧
      dom.Edits (dom.takeFirst id).2 id { dom.face id with children := rest } := by
  obtain ⟨taken, recasts⟩ := takeFirst_recasts known children
  refine ⟨taken, recasts, fun other before => ?_⟩
  have shortened : dom.Edits (dom.modify id fun element => { element with children := rest }) id
      { dom.face id with children := rest } := modify_edits known _ fun _ => rfl
  rw [takeFirst_eq children]
  refine (parent_setParent none _ fun same => ?_).trans (shortened.parent other before)
  have listed : Child.element other ∈ (dom.face id).children := by
    rw [children, same]
    exact List.mem_cons_self
  exact Nat.lt_irrefl _ (Nat.lt_of_lt_of_le (ordered id other listed).1 before)

theorem takeFirst_of_empty (children : (dom.face id).children = []) :
    (dom.takeFirst id).1 = none := by
  change (dom.element id).children = _ at children
  rw [takeFirst, children]

/-- A text, or a later element without a parent, is put behind the other children. -/
theorem append_edits (known : id.index < dom.size) (child : Child)
    (free : ∀ other, child = .element other → dom.parent other = none ∧ id.index < other.index) :
    dom.Edits (dom.append id child) id
      { dom.face id with children := (dom.face id).children ++ [child] } := by
  have detached : dom.detachChild child = dom := by
    cases child with
    | text content => rfl
    | element other =>
        have orphan : (dom.element other).parent = none := (free other rfl).1
        rw [detachChild, detach, orphan]
  have placed : (dom.setParent (some id) child).face id = dom.face id :=
    face_setParent (some id) dom child id
  have knownStill : id.index < (dom.setParent (some id) child).size := by
    rw [size_setParent]
    exact known
  have written := modify_edits knownStill
    (fun element => { element with children := element.children ++ [child] }) fun _ => rfl
  have face : { (dom.setParent (some id) child).face id with
        children := ((dom.setParent (some id) child).face id).children ++ [child] } =
      { dom.face id with children := (dom.face id).children ++ [child] } := by rw [placed]
  rw [append, detached]
  refine ⟨⟨?_, ?_, fun other differs => ?_⟩, fun other before => ?_⟩
  · exact written.size.trans (size_setParent (some id) dom child)
  · exact written.here.trans face
  · exact (written.elsewhere other differs).trans (face_setParent (some id) dom child other)
  · refine (written.parent other before).trans (parent_setParent (some id) dom fun same => ?_)
    exact Nat.lt_irrefl _ (Nat.lt_of_lt_of_le (free other same).2 before)

end Dom

end LiveMarkup
