import LiveMarkup.Proofs.Document.Subtree

/-!
# A row of casts

A template is taken away from an element, the host, and from then on the host shows a row of copies
of it, its casts.  Neither the row nor the template changes as long as nobody touches the children
of the host, moves a cast, or changes an element of the template.  Which elements these are is known
once they are there, so that a change which touches none of them may be recognised before it is
made.
-/

namespace LiveMarkup

/-- Which elements there are, and which of them are casts. -/
structure Inventory where
  /-- The number of elements. -/
  size : Nat
  /-- The elements that have been made for the row of the host. -/
  casts : ElementId → Prop

namespace Inventory

/-- Whether an inventory is a later one: elements are only added, and none becomes a cast or ceases
to be one. -/
structure Le (inventory more : Inventory) : Prop where
  /-- No element is lost. -/
  size : inventory.size ≤ more.size
  /-- The casts are the same among the elements that were there. -/
  casts : ∀ id : ElementId, id.index < inventory.size → (more.casts id ↔ inventory.casts id)

variable {inventory more most : Inventory}

theorem Le.refl (inventory : Inventory) : inventory.Le inventory :=
  ⟨Nat.le_refl _, fun _ _ => Iff.rfl⟩

theorem Le.trans (first : inventory.Le more) (later : more.Le most) : inventory.Le most where
  size := Nat.le_trans first.size later.size
  casts id known :=
    (later.casts id (Nat.lt_of_lt_of_le known first.size)).trans (first.casts id known)

/-- The inventory with more elements, of which some are casts. -/
def grow (inventory : Inventory) (size : Nat) (casts : ElementId → Prop) : Inventory where
  size := size
  casts id := if id.index < inventory.size then inventory.casts id else casts id

theorem le_grow {size : Nat} (enough : inventory.size ≤ size) (casts : ElementId → Prop) :
    inventory.Le (inventory.grow size casts) where
  size := enough
  casts _ known := iff_of_eq (if_pos known)

theorem casts_grow {size : Nat} {casts : ElementId → Prop} {id : ElementId}
    (new : inventory.size ≤ id.index) : (inventory.grow size casts).casts id ↔ casts id :=
  iff_of_eq (if_neg (Nat.not_lt.mpr new))

end Inventory

namespace Dom

variable {ℓ : Type}

theorem known_of_below {dom : Dom ℓ} {top id : ElementId} (inside : dom.Within top id)
    (known : id.index < dom.size) : top.index < dom.size := by
  induction inside with
  | self => exact known
  | child inside listed ih => exact ih (known_of_listed listed)

theorem count_childTree_pos {dom : Dom ℓ} (known : 0 < dom.size) (top : ElementId) :
    0 < (dom.childTree (.element top)).count := by
  obtain ⟨depth, size⟩ := Nat.exists_eq_succ_of_ne_zero (Nat.ne_of_gt known)
  rw [childTree, tree, size]
  exact Nat.succ_pos _

/-- The copy of an element is the next element, and the copy of a text is a text. -/
theorem copy_eq_element {dom : Dom ℓ} {child : Child} {id : ElementId}
    (copied : (dom.copy child).1 = .element id) :
    id.index = dom.size ∧ ∃ top, child = .element top := by
  rw [copy, (build_builds _ dom).1] at copied
  refine ⟨congrArg ElementId.index (Tree.eq_of_childAt_eq_element copied).1, ?_⟩
  cases child with
  | text content => cases copied
  | element top => exact ⟨top, rfl⟩

end Dom

/-- A template and the element that it was taken from. -/
structure Mold (ℓ : Type) where
  /-- The element that shows the casts. -/
  host : ElementId
  /-- The template. -/
  template : Child
  /-- The document in which the template was taken. -/
  origin : Dom ℓ
  /-- Whether an element is on the way to the host, now or later.  Besides the elements above the
  host there may be others below which it is to be put. -/
  Outer : ElementId → Prop
  /-- The document was a forest. -/
  forest : origin.Forest
  /-- The host is on the way to itself. -/
  outer_host : Outer host
  /-- The way to the host is there. -/
  outer_known : ∀ id, Outer id → id.index < origin.size
  /-- It goes up to the end. -/
  outer_parent : ∀ id child, child ∈ origin.childElements id → Outer child → Outer id
  /-- The template is there. -/
  known : ∀ id, template = .element id → id.index < origin.size
  /-- The template is the child of no element. -/
  root : ∀ id, template = .element id → origin.parent id = none
  /-- The host does not belong to the template. -/
  apart : ∀ id, template = .element id → ¬origin.Within id host

namespace Mold

variable {ℓ : Type} {mold : Mold ℓ} {inventory more : Inventory} {row : List Child}
  {dom after : Dom ℓ} {id : ElementId}

/-- Whether an element belongs to the template. -/
def Part (mold : Mold ℓ) (id : ElementId) : Prop :=
  ∃ top, mold.template = .element top ∧ mold.origin.Within top id

theorem part_known (part : mold.Part id) : id.index < mold.origin.size := by
  obtain ⟨top, template, below⟩ := part
  exact mold.forest.known_of_within (mold.known top template) below

theorem not_part_host (mold : Mold ℓ) : ¬mold.Part mold.host :=
  fun ⟨top, template, below⟩ => mold.apart top template below

/-- The children of a part of the template are parts of it. -/
theorem part_child (part : mold.Part id) {child : ElementId}
    (listed : Child.element child ∈ (mold.origin.face id).children) : mold.Part child := by
  obtain ⟨top, template, below⟩ := part
  exact ⟨top, template, .child below (Dom.mem_childElements.mpr listed)⟩

/-- Whether an element is neither the host nor a part of the template, so that it may be changed. -/
structure Free (mold : Mold ℓ) (inventory : Inventory) (id : ElementId) : Prop where
  /-- The element is there. -/
  known : id.index < inventory.size
  /-- It is not the host. -/
  host : id ≠ mold.host
  /-- It is not a part of the template. -/
  part : ¬mold.Part id

/-- Whether an element is off the way to the host and to the template, so that all below it may be
changed. -/
structure Aside (mold : Mold ℓ) (inventory : Inventory) (id : ElementId) : Prop where
  /-- The element is there. -/
  known : id.index < inventory.size
  /-- It is not above the host. -/
  outer : ¬mold.Outer id
  /-- It is not a part of the template. -/
  part : ¬mold.Part id

/-- Whether an element may be moved. -/
structure Loose (mold : Mold ℓ) (inventory : Inventory) (id : ElementId) : Prop
    extends mold.Aside inventory id where
  /-- It is not a cast. -/
  casts : ¬inventory.casts id

theorem Aside.free (aside : mold.Aside inventory id) : mold.Free inventory id where
  known := aside.known
  host same := aside.outer (same ▸ mold.outer_host)
  part := aside.part

theorem Aside.mono (aside : mold.Aside inventory id) (later : inventory.Le more) :
    mold.Aside more id :=
  ⟨Nat.lt_of_lt_of_le aside.known later.size, aside.outer, aside.part⟩

theorem Loose.mono (loose : mold.Loose inventory id) (later : inventory.Le more) :
    mold.Loose more id :=
  ⟨loose.toAside.mono later, fun cast => loose.casts ((later.casts id loose.known).mp cast)⟩

/-- Whether a host shows a row of casts, and the template is as it was. -/
structure Holds (mold : Mold ℓ) (inventory : Inventory) (row : List Child) (dom : Dom ℓ) :
    Prop where
  /-- The inventory lists all elements. -/
  size : dom.size = inventory.size
  /-- No element has been lost since the template was taken. -/
  old : mold.origin.size ≤ inventory.size
  /-- Children are there, and on the way to the host or to the template only if their parent is. -/
  listed : ∀ id child, Child.element child ∈ (dom.face id).children →
    child.index < inventory.size ∧
      (mold.Outer child ∨ mold.Part child → mold.Outer id ∨ mold.Part id)
  /-- The parts of the template have the faces that they had. -/
  parts : ∀ id, mold.Part id → dom.face id = mold.origin.face id
  /-- The host has the row as its children. -/
  shows : (dom.face mold.host).children = row
  /-- The elements of the row are casts. -/
  casts : ∀ id, Child.element id ∈ row → id.index < inventory.size ∧ inventory.casts id

namespace Holds

theorem host_known (holds : mold.Holds inventory row dom) : mold.host.index < dom.size := by
  rw [holds.size]
  exact Nat.lt_of_lt_of_le (mold.outer_known _ mold.outer_host) holds.old

/-- New elements are off the way. -/
theorem not_outer_of_new (holds : mold.Holds inventory row dom) (new : inventory.size ≤ id.index) :
    ¬(mold.Outer id ∨ mold.Part id) := by
  intro either
  have before : id.index < mold.origin.size := either.elim (mold.outer_known id) part_known
  have old := holds.old
  omega

theorem aside_of_new (holds : mold.Holds inventory row dom) (new : inventory.size ≤ id.index)
    (known : id.index < more.size) : mold.Aside more id :=
  ⟨known, fun outer => holds.not_outer_of_new new (.inl outer),
    fun part => holds.not_outer_of_new new (.inr part)⟩

/-- What is below an element off the way is off the way. -/
theorem aside_child (holds : mold.Holds inventory row dom) (aside : mold.Aside inventory id)
    {child : ElementId} (listed : Child.element child ∈ (dom.face id).children) :
    mold.Aside inventory child := by
  obtain ⟨known, above⟩ := holds.listed id child listed
  have apart : ¬(mold.Outer id ∨ mold.Part id) := fun either => either.elim aside.outer aside.part
  exact ⟨known, fun outer => apart (above (.inl outer)), fun part => apart (above (.inr part))⟩

/-- The template is the tree that it was. -/
theorem template_eq (holds : mold.Holds inventory row dom) :
    dom.childTree mold.template = mold.origin.childTree mold.template := by
  cases template : mold.template with
  | text content => rfl
  | element top =>
      have old : mold.origin.size ≤ dom.size := holds.size ▸ holds.old
      exact mold.forest.tree_congr (mold.known top template) old fun other below =>
        holds.parts other ⟨top, template, below⟩

/-! ## Changes in place -/

theorem of_faces (holds : mold.Holds inventory row dom) (size : after.size = dom.size)
    (faces : ∀ other, after.face other = dom.face other) : mold.Holds inventory row after where
  size := size.trans holds.size
  old := holds.old
  listed other child member := holds.listed other child (faces other ▸ member)
  parts other part := (faces other).trans (holds.parts other part)
  shows := (congrArg Face.children (faces _)).trans holds.shows
  casts := holds.casts

theorem listed_of_recasts (holds : mold.Holds inventory row dom) {face : Face}
    (recasts : dom.Recasts after id face) (fewer : ∀ child, Child.element child ∈ face.children →
      Child.element child ∈ (dom.face id).children) (other child : ElementId)
    (member : Child.element child ∈ (after.face other).children) :
    child.index < inventory.size ∧
      (mold.Outer child ∨ mold.Part child → mold.Outer other ∨ mold.Part other) := by
  by_cases here : other = id
  · subst here
    rw [recasts.here] at member
    exact holds.listed other child (fewer child member)
  · rw [recasts.elsewhere other here] at member
    exact holds.listed other child member

/-- An element that is no part of the template may be changed in place and may lose children. -/
theorem of_recasts (holds : mold.Holds inventory row dom) (part : ¬mold.Part id) {face : Face}
    (recasts : dom.Recasts after id face) (fewer : ∀ child, Child.element child ∈ face.children →
      Child.element child ∈ (dom.face id).children) {shown : List Child}
    (shows : (after.face mold.host).children = shown)
    (left : ∀ other, Child.element other ∈ shown → Child.element other ∈ row) :
    mold.Holds inventory shown after where
  size := recasts.size.trans holds.size
  old := holds.old
  listed := holds.listed_of_recasts recasts fewer
  parts other belongs := by
    refine (recasts.elsewhere other ?_).trans (holds.parts other belongs)
    rintro rfl
    exact part belongs
  shows := shows
  casts other member := holds.casts other (left other member)

/-- Any other element than the host may be changed, and the row stays. -/
theorem recasts (holds : mold.Holds inventory row dom) (free : mold.Free inventory id) {face : Face}
    (recasts : dom.Recasts after id face) (fewer : ∀ child, Child.element child ∈ face.children →
      Child.element child ∈ (dom.face id).children) : mold.Holds inventory row after :=
  holds.of_recasts free.part recasts fewer
    ((congrArg Face.children (recasts.elsewhere _ (Ne.symm free.host))).trans holds.shows)
    fun _ member => member

/-- The host may be changed too if it keeps its children. -/
theorem setStyle (holds : mold.Holds inventory row dom) (known : id.index < inventory.size)
    (part : ¬mold.Part id) (property value : String) :
    mold.Holds inventory row (dom.setStyle id property value) := by
  have recasts := (Dom.setStyle_edits (holds.size ▸ known) property value).toRecasts
  refine holds.of_recasts part recasts (fun _ member => member) ?_ fun _ member => member
  by_cases host : mold.host = id
  · rw [host, recasts.here, ← host]
    exact holds.shows
  · rw [recasts.elsewhere _ host]
    exact holds.shows

theorem setText (holds : mold.Holds inventory row dom) (free : mold.Free inventory id)
    (text : String) : mold.Holds inventory row (dom.setText id text) := by
  have known := holds.size ▸ free.known
  refine holds.recasts free (dom.setText_recasts known text) fun child member => ?_
  simp only [Dom.textRow] at member
  split at member <;> simp at member

theorem clear (holds : mold.Holds inventory row dom) (free : mold.Free inventory id) :
    mold.Holds inventory row (dom.clear id) :=
  holds.recasts free (dom.clear_recasts (holds.size ▸ free.known)) fun _ member => by cases member

theorem takeFirst (holds : mold.Holds inventory row dom) (free : mold.Free inventory id) :
    mold.Holds inventory row (dom.takeFirst id).2 := by
  cases children : (dom.face id).children with
  | nil =>
      change (dom.element id).children = _ at children
      rw [Dom.takeFirst, children]
      exact holds
  | cons first rest =>
      refine holds.recasts free (dom.takeFirst_recasts (holds.size ▸ free.known) children).2
        fun child member => ?_
      rw [children]
      exact List.mem_cons_of_mem first member

/-- Any element may get a listener. -/
theorem listen (holds : mold.Holds inventory row dom) (id : ElementId) (kind : String)
    (listener : ℓ) : mold.Holds inventory row (dom.listen id kind listener) := by
  refine holds.of_faces (Dom.size_modify dom id _) fun other => ?_
  rw [Dom.listen, Dom.face, Dom.element_modify, Dom.face]
  split <;> rfl

/-- The host may be cleared by whoever fills it. -/
theorem clear_host (holds : mold.Holds inventory row dom) :
    mold.Holds inventory [] (dom.clear mold.host) := by
  have recasts := dom.clear_recasts holds.host_known
  exact holds.of_recasts mold.not_part_host recasts (fun _ member => by cases member)
    (congrArg Face.children recasts.here) fun _ member => by cases member

/-! ## New elements -/

/-- Elements may be added, be they casts or not. -/
theorem build (holds : mold.Holds inventory row dom) (tree : Tree) (casts : ElementId → Prop) :
    mold.Holds (inventory.grow (inventory.size + tree.count) casts) row (dom.build tree).2 := by
  have builds := (Dom.build_builds tree dom).2
  have enough : inventory.size ≤ inventory.size + tree.count := Nat.le_add_right _ _
  have later := Inventory.le_grow enough casts
  have known {id : ElementId} (old : id.index < inventory.size) : id.index < dom.size :=
    holds.size ▸ old
  constructor
  · rw [builds.size, holds.size]
    rfl
  · exact Nat.le_trans holds.old later.size
  · intro id child member
    by_cases old : id.index < inventory.size
    · rw [builds.face id (known old)] at member
      obtain ⟨there, above⟩ := holds.listed id child member
      exact ⟨Nat.lt_of_lt_of_le there later.size, above⟩
    · have there := Dom.known_of_listed (Dom.mem_childElements.mpr member)
      rw [builds.size] at there
      obtain ⟨behind, before⟩ := Dom.Stands.listed tree dom.size builds.stands id
        (by rw [holds.size]; omega) there child member
      rw [holds.size] at before
      refine ⟨before, fun either => absurd either (holds.not_outer_of_new ?_)⟩
      omega
  · intro id part
    refine (builds.face id (known ?_)).trans (holds.parts id part)
    exact Nat.lt_of_lt_of_le (part_known part) holds.old
  · rw [builds.face _ holds.host_known]
    exact holds.shows
  · intro id member
    obtain ⟨old, cast⟩ := holds.casts id member
    exact ⟨Nat.lt_of_lt_of_le old later.size, (later.casts id old).mpr cast⟩

end Holds

end Mold

/-! ## Putting an element in its place -/

namespace Dom

variable {ℓ : Type} {dom : Dom ℓ} {id other : ElementId}

/-- Who does not have a child does not lose it. -/
theorem face_detachChild {child : Child}
    (absent : ∀ moved, child = .element moved → child ∉ (dom.face other).children) :
    (dom.detachChild child).face other = dom.face other := by
  cases child with
  | text content => rfl
  | element moved =>
      rw [detachChild, detach]
      split
      next => rfl
      next parent link =>
        rw [face_setParent, face, element_modify, face]
        split
        next =>
          have kept : (dom.element other).children.filter (fun child => child ≠ .element moved) =
              (dom.element other).children := by
            refine List.filter_eq_self.mpr fun child member => decide_eq_true ?_
            rintro rfl
            exact absent moved rfl member
          simp only [Element.face, kept]
        next => rfl

theorem mem_children_detachChild {child listed : Child}
    (member : listed ∈ ((dom.detachChild child).face other).children) :
    listed ∈ (dom.face other).children := by
  cases child with
  | text content => exact member
  | element moved =>
      rw [detachChild, detach] at member
      split at member
      next => exact member
      next parent link =>
        rw [face_setParent, face, element_modify] at member
        split at member
        next => exact List.mem_of_mem_filter member
        next => exact member

theorem size_detachChild (dom : Dom ℓ) (child : Child) :
    (dom.detachChild child).size = dom.size := by
  cases child with
  | text content => rfl
  | element moved => exact size_detach moved dom

theorem size_append (dom : Dom ℓ) (id : ElementId) (child : Child) :
    (dom.append id child).size = dom.size := by
  rw [append, size_modify, size_setParent, size_detachChild]

theorem face_append_of_ne {child : Child} (differs : other ≠ id)
    (absent : ∀ moved, child = .element moved → child ∉ (dom.face other).children) :
    (dom.append id child).face other = dom.face other := by
  rw [append, face, element_modify_of_ne _ differs, ← face, face_setParent,
    face_detachChild absent]

theorem children_append {child : Child} (known : id.index < dom.size)
    (absent : ∀ moved, child = .element moved → child ∉ (dom.face id).children) :
    ((dom.append id child).face id).children = (dom.face id).children ++ [child] := by
  have known : id.index < ((dom.detachChild child).setParent (some id) child).size := by
    rw [size_setParent, size_detachChild]
    exact known
  rw [append, (modify_recasts known _).here]
  change (((dom.detachChild child).setParent (some id) child).face id).children ++ [child] = _
  rw [face_setParent, face_detachChild absent]

theorem mem_children_append {child listed : Child}
    (member : listed ∈ ((dom.append id child).face other).children) :
    listed ∈ (dom.face other).children ∨ other = id ∧ listed = child := by
  have before (there : listed ∈
      (((dom.detachChild child).setParent (some id) child).face other).children) :
      listed ∈ (dom.face other).children := by
    rw [face_setParent] at there
    exact mem_children_detachChild there
  rw [append, face, element_modify] at member
  split at member
  next here =>
    rcases List.mem_append.mp member with old | new
    · exact .inl (before old)
    · exact .inr ⟨here.1, List.mem_singleton.mp new⟩
  next => exact .inl (before member)

end Dom

namespace Mold.Holds

variable {ℓ : Type} {mold : Mold ℓ} {inventory : Inventory} {row : List Child} {dom : Dom ℓ}
  {id : ElementId} {child : Child}

/-- An element that is no part of the template is not a child of one. -/
theorem not_listed_in_part (holds : mold.Holds inventory row dom)
    (free : ∀ moved, child = .element moved → ¬mold.Part moved) {part : ElementId}
    (belongs : mold.Part part) :
    ∀ moved, child = .element moved → child ∉ (dom.face part).children := by
  rintro moved rfl listed
  rw [holds.parts part belongs] at listed
  exact free moved rfl (part_child belongs listed)

theorem listed_append (holds : mold.Holds inventory row dom)
    (aside : ∀ moved, child = .element moved → mold.Aside inventory moved)
    (other listed : ElementId)
    (member : Child.element listed ∈ ((dom.append id child).face other).children) :
    listed.index < inventory.size ∧
      (mold.Outer listed ∨ mold.Part listed → mold.Outer other ∨ mold.Part other) := by
  rcases Dom.mem_children_append member with old | ⟨-, same⟩
  · exact holds.listed other listed old
  · have new := aside listed same.symm
    exact ⟨new.known, fun either => absurd either fun
      | .inl outer => new.outer outer
      | .inr part => new.part part⟩

/-- A loose element may be appended to a free one. -/
theorem append (holds : mold.Holds inventory row dom) (free : mold.Free inventory id)
    (loose : ∀ moved, child = .element moved → mold.Loose inventory moved) :
    mold.Holds inventory row (dom.append id child) where
  size := (dom.size_append id child).trans holds.size
  old := holds.old
  listed := holds.listed_append fun moved same => (loose moved same).toAside
  parts other part := by
    refine (Dom.face_append_of_ne ?_ ?_).trans (holds.parts other part)
    · rintro rfl
      exact free.part part
    · exact holds.not_listed_in_part (fun moved same => (loose moved same).part) part
  shows := by
    rw [Dom.face_append_of_ne (Ne.symm free.host), holds.shows]
    rintro moved rfl listed
    rw [holds.shows] at listed
    exact (loose moved rfl).casts (holds.casts moved listed).2
  casts := holds.casts

/-- A new cast is put behind the others by whoever fills the host. -/
theorem append_host (holds : mold.Holds inventory row dom)
    (cast : ∀ moved, child = .element moved →
      mold.Aside inventory moved ∧ inventory.casts moved ∧ child ∉ row) :
    mold.Holds inventory (row ++ [child]) (dom.append mold.host child) where
  size := (dom.size_append mold.host child).trans holds.size
  old := holds.old
  listed := holds.listed_append fun moved same => (cast moved same).1
  parts other part := by
    refine (Dom.face_append_of_ne ?_ ?_).trans (holds.parts other part)
    · rintro rfl
      exact mold.not_part_host part
    · exact holds.not_listed_in_part (fun moved same => (cast moved same).1.part) part
  shows := by
    rw [Dom.children_append holds.host_known, holds.shows]
    intro moved same
    rw [holds.shows]
    exact (cast moved same).2.2
  casts other member := by
    rcases List.mem_append.mp member with old | new
    · exact holds.casts other old
    · have same := (List.mem_singleton.mp new).symm
      exact ⟨(cast other same).1.known, (cast other same).2.1⟩

end Mold.Holds

/-! ## When the template is taken -/

namespace Mold

variable {ℓ : Type}

/-- What there is when the template is taken: all children of the host are casts. -/
def inventory (mold : Mold ℓ) : Inventory where
  size := mold.origin.size
  casts id := Child.element id ∈ (mold.origin.face mold.host).children

/-- The parts of the template are children of parts. -/
theorem part_parent {mold : Mold ℓ} {id child : ElementId} (part : mold.Part child)
    (listed : child ∈ mold.origin.childElements id) : mold.Part id := by
  obtain ⟨top, template, below⟩ := part
  have link := (mold.forest.linked child id).mpr listed
  rcases mold.forest.within_cases below with same | ⟨parent, linked, inside⟩
  · have root := mold.root top template
    rw [← same, link] at root
    cases root
  · obtain rfl := Option.some.inj (link.symm.trans linked)
    exact ⟨top, template, inside⟩

/-- The host shows what is left of its children. -/
theorem holds_origin (mold : Mold ℓ) :
    mold.Holds mold.inventory (mold.origin.face mold.host).children mold.origin where
  size := rfl
  old := Nat.le_refl _
  listed id child member := by
    have listed : child ∈ mold.origin.childElements id := Dom.mem_childElements.mpr member
    have link := (mold.forest.linked child id).mpr listed
    exact ⟨(mold.forest.known_of_parent link).1,
      Or.imp (mold.outer_parent id child listed) fun part => part_parent part listed⟩
  parts _ _ := rfl
  shows := rfl
  casts id member := by
    have listed : id ∈ mold.origin.childElements mold.host := Dom.mem_childElements.mpr member
    exact ⟨(mold.forest.known_of_parent ((mold.forest.linked _ _).mpr listed)).1, member⟩

/-- The first child of a host as the template, where nothing is put below another element later. -/
def ofFirst {dom : Dom ℓ} {host : ElementId} {template : Child} {rest : List Child}
    (forest : dom.Forest) (known : host.index < dom.size)
    (children : (dom.face host).children = template :: rest) : Mold ℓ where
  host := host
  template := template
  origin := (dom.takeFirst host).2
  Outer id := (dom.takeFirst host).2.Within id host
  forest := forest.takeFirst known
  outer_host := .self
  outer_known _ outer := by
    refine Dom.known_of_below outer ?_
    rw [(Dom.takeFirst_recasts known children).2.size]
    exact known
  outer_parent _ _ listed outer := (Dom.Within.child .self listed).trans outer
  known id same := by
    subst same
    rw [(Dom.takeFirst_recasts known children).2.size]
    exact (forest.known_of_first children).2
  root id same := by
    subst same
    exact forest.parent_of_taken children
  apart id same := by
    subst same
    exact (forest.apart_of_taken known children).right

end Mold

end LiveMarkup
