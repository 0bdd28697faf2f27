import Mathlib.Data.List.Nodup
import LiveMarkup.Document.Reader
import LiveMarkup.Proofs.Document.Layout

/-!
# Documents are forests

The place of an element is stored twice: as its parent, and in the list of children of that parent.
What an operation does to the two sides is said once for each operation.  From this it follows that
the sides always agree, that no element has two places, and that the way up from any element comes
to an end, as long as no element is put below itself.
-/

namespace LiveMarkup

namespace Dom

variable {ℓ : Type} {dom : Dom ℓ}

/-! ## The way up and the way down -/

/-- The element that lies some steps above an element. -/
def ancestor? (dom : Dom ℓ) : Nat → ElementId → Option ElementId
  | 0, id => some id
  | steps + 1, id => (dom.parent id).bind (dom.ancestor? steps)

/-- Whether the way up from an element comes to an end. -/
inductive Ends (dom : Dom ℓ) : ElementId → Prop
  /-- There is no parent. -/
  | root {id : ElementId} (root : dom.parent id = none) : Ends dom id
  /-- The way up from the parent ends. -/
  | child {id parent : ElementId} (link : dom.parent id = some parent) (ends : Ends dom parent) :
      Ends dom id

/-- Whether an element is another one or one of its descendants. -/
inductive Within (dom : Dom ℓ) (top : ElementId) : ElementId → Prop
  /-- The element itself. -/
  | self : Within dom top top
  /-- A child of the element or of a descendant. -/
  | child {parent id : ElementId} (inside : Within dom top parent)
      (listed : id ∈ dom.childElements parent) : Within dom top id

/-- Whether parents and lists of children agree, and the way up ends everywhere. -/
structure Forest (dom : Dom ℓ) : Prop where
  /-- An element is a child of its parent and of no other element. -/
  linked : ∀ id parent, dom.parent id = some parent ↔ id ∈ dom.childElements parent
  /-- No list of children names an element twice. -/
  distinct : ∀ parent, (dom.childElements parent).Nodup
  /-- The way up from every element comes to an end. -/
  ends : ∀ id, dom.Ends id

/-- A way up that ends does so after some number of steps. -/
theorem Ends.steps {id : ElementId} (ends : dom.Ends id) :
    ∃ steps, dom.ancestor? steps id = none := by
  induction ends with
  | root root => exact ⟨1, by simp [ancestor?, root]⟩
  | child link _ ih =>
      obtain ⟨steps, finished⟩ := ih
      exact ⟨steps + 1, by simp [ancestor?, link, finished]⟩

/-- Fewer links end every way up. -/
theorem Ends.of_fewer {after : Dom ℓ} {id : ElementId} (ends : dom.Ends id)
    (fewer : ∀ id, after.parent id = none ∨ after.parent id = dom.parent id) : after.Ends id := by
  induction ends with
  | @root id root =>
      rcases fewer id with gone | same
      · exact .root gone
      · exact .root (same.trans root)
  | @child id parent link _ ih =>
      rcases fewer id with gone | same
      · exact .root gone
      · exact .child (same.trans link) ih

theorem Within.mono {after : Dom ℓ} {top id : ElementId} (inside : after.Within top id)
    (fewer : ∀ parent, after.childElements parent ⊆ dom.childElements parent) :
    dom.Within top id := by
  induction inside with
  | self => exact .self
  | child _ listed ih => exact .child ih (fewer _ listed)

theorem Forest.within_cases (forest : dom.Forest) {top id : ElementId} (inside : dom.Within top id) :
    id = top ∨ ∃ parent, dom.parent id = some parent ∧ dom.Within top parent := by
  cases inside with
  | self => exact .inl rfl
  | child inside listed => exact .inr ⟨_, (forest.linked _ _).mpr listed, inside⟩

/-- A root is within no tree but its own. -/
theorem Forest.not_within_of_root (forest : dom.Forest) {top id : ElementId} (differs : id ≠ top)
    (root : dom.parent id = none) : ¬dom.Within top id := by
  intro inside
  rcases forest.within_cases inside with same | ⟨parent, link, _⟩
  · exact differs same
  · simp [root] at link

/-- Where the parent is, the child is. -/
theorem Forest.not_within_of_parent (forest : dom.Forest) {top id parent : ElementId}
    (differs : id ≠ top) (link : dom.parent id = some parent) (outside : ¬dom.Within top parent) :
    ¬dom.Within top id := by
  intro inside
  rcases forest.within_cases inside with same | ⟨above, linked, within⟩
  · exact differs same
  · exact outside (Option.some.inj (linked.symm.trans link) ▸ within)

/-! ## One link more or less -/

/-- An element without a parent is put behind the children of another one. -/
structure Links (dom after : Dom ℓ) (parent id : ElementId) : Prop where
  /-- The element has its new parent, and the others have theirs. -/
  parents : ∀ other, after.parent other = if other = id then some parent else dom.parent other
  /-- The parent has its new child, and the others have theirs. -/
  children : ∀ other, after.childElements other =
    if other = parent then dom.childElements parent ++ [id] else dom.childElements other

/-- Some children are taken away from an element. -/
structure Unlinks (dom after : Dom ℓ) (parent : ElementId) (gone : ElementId → Prop)
    [DecidablePred gone] : Prop where
  /-- They have no parent any more, and the others have theirs. -/
  parents : ∀ other, after.parent other =
    if dom.parent other = some parent ∧ gone other then none else dom.parent other
  /-- The parent has the other children, and the others have theirs. -/
  children : ∀ other, after.childElements other =
    if other = parent then (dom.childElements parent).filter fun id => ¬gone id
    else dom.childElements other

/-- Whether neither a parent nor a list of children has changed. -/
def SameLinks (dom after : Dom ℓ) : Prop :=
  (∀ id, after.parent id = dom.parent id) ∧ ∀ id, after.childElements id = dom.childElements id

theorem Forest.of_sameLinks {after : Dom ℓ} (forest : dom.Forest) (same : dom.SameLinks after) :
    after.Forest where
  linked id parent := by
    rw [same.1, same.2]
    exact forest.linked id parent
  distinct parent := by
    rw [same.2]
    exact forest.distinct parent
  ends id := (forest.ends id).of_fewer fun id => .inr (same.1 id)

/-- An element that keeps its place may be changed. -/
theorem Forest.modify (forest : dom.Forest) (id : ElementId) {change : Element ℓ → Element ℓ}
    (parent : ∀ element, (change element).parent = element.parent)
    (children : ∀ element, (change element).children = element.children) :
    (dom.modify id change).Forest := by
  refine forest.of_sameLinks ⟨fun other => ?_, fun other => ?_⟩
  · rw [Dom.parent, element_modify, Dom.parent]
    split
    · exact parent _
    · rfl
  · rw [childElements, element_modify, childElements]
    split
    · rw [children]
    · rfl

theorem Forest.unlink {after : Dom ℓ} (forest : dom.Forest) {parent : ElementId}
    {gone : ElementId → Prop} [DecidablePred gone] (unlinks : dom.Unlinks after parent gone) :
    after.Forest where
  linked id other := by
    rw [unlinks.parents, unlinks.children]
    by_cases here : other = parent
    · subst here
      simp only [if_true, List.mem_filter, ← forest.linked]
      split <;> simp_all
    · rw [if_neg here, ← forest.linked]
      split <;> simp_all [Ne.symm here]
  distinct other := by
    rw [unlinks.children]
    split
    · exact (forest.distinct parent).filter _
    · exact forest.distinct other
  ends id := by
    apply (forest.ends id).of_fewer
    intro id
    rw [unlinks.parents]
    split
    · exact .inl rfl
    · exact .inr rfl

/-- The way up from the new parent does not pass the element, so it ends where it ended, and the
element and all others find an end behind it. -/
theorem Forest.link {after : Dom ℓ} (forest : dom.Forest) {parent id : ElementId}
    (links : dom.Links after parent id) (free : dom.parent id = none)
    (outside : ¬dom.Within id parent) : after.Forest where
  linked other top := by
    rw [links.parents, links.children]
    by_cases moved : other = id
    · subst moved
      have nowhere (row : ElementId) : other ∉ dom.childElements row := by
        rw [← forest.linked, free]
        simp
      by_cases here : top = parent
      · simp [here]
      · simp [here, nowhere, Ne.symm here]
    · rw [if_neg moved, forest.linked]
      by_cases here : top = parent <;> simp [here, moved]
  distinct top := by
    rw [links.children]
    split
    · have absent : id ∉ dom.childElements parent := by
        rw [← forest.linked, free]
        simp
      rw [List.nodup_append]
      refine ⟨forest.distinct parent, by simp, ?_⟩
      rintro other listed _ new rfl
      exact absent (List.mem_singleton.mp new ▸ listed)
    · exact forest.distinct top
  ends := by
    have apart (other : ElementId) (outside : ¬dom.Within id other) : after.Ends other := by
      induction forest.ends other with
      | @root other root =>
          have differs : other ≠ id := fun same => outside (same ▸ .self)
          exact .root (by rw [links.parents, if_neg differs, root])
      | @child other top link _ ih =>
          have differs : other ≠ id := fun same => outside (same ▸ .self)
          apply Ends.child (by rw [links.parents, if_neg differs, link])
          exact ih fun inside => outside (.child inside ((forest.linked _ _).mp link))
    have moved : after.Ends id := .child (by rw [links.parents, if_pos rfl]) (apart parent outside)
    intro other
    induction forest.ends other with
    | @root other root =>
        by_cases same : other = id
        · exact same ▸ moved
        · exact .root (by rw [links.parents, if_neg same, root])
    | @child other top link _ ih =>
        by_cases same : other = id
        · exact same ▸ moved
        · exact .child (by rw [links.parents, if_neg same, link]) ih

/-! ## What the operations do to the links -/

theorem childElements_eq (dom : Dom ℓ) (id : ElementId) :
    dom.childElements id = (dom.face id).children.filterMap Child.element? := rfl

theorem element_of_size_le {id : ElementId} (missing : dom.size ≤ id.index) :
    dom.element id = Element.bare "" := by
  rw [element, Array.getElem?_eq_none missing, Option.getD_none]

theorem known_of_listed {id parent : ElementId} (listed : id ∈ dom.childElements parent) :
    parent.index < dom.size := by
  apply Nat.lt_of_not_le
  intro missing
  rw [childElements, element_of_size_le missing] at listed
  simp [Element.bare] at listed

theorem parent_modify (dom : Dom ℓ) (id : ElementId) (children : Element ℓ → List Child)
    (other : ElementId) :
    (dom.modify id fun element => { element with children := children element }).parent other =
      dom.parent other := by
  rw [Dom.parent, element_modify, Dom.parent]
  split <;> rfl

theorem childElements_modify {id : ElementId} (known : id.index < dom.size)
    (change : Element ℓ → Element ℓ) (other : ElementId) :
    (dom.modify id change).childElements other =
      if other = id then (change (dom.element id)).children.filterMap Child.element?
      else dom.childElements other := by
  rw [childElements, element_modify, childElements]
  by_cases same : other = id
  · rw [if_pos ⟨same, known⟩, if_pos same, same]
  · rw [if_neg fun both => same both.1, if_neg same]

theorem childElements_setParent (parent : Option ElementId) (dom : Dom ℓ) (child : Child)
    (id : ElementId) : (dom.setParent parent child).childElements id = dom.childElements id := by
  rw [childElements_eq, face_setParent, childElements_eq]

theorem parent_setParent_self {id : ElementId} (known : id.index < dom.size)
    (parent : Option ElementId) : (dom.setParent parent (.element id)).parent id = parent := by
  rw [Dom.parent, setParent, element_modify_self known]

/-- Taking the parent away from a child that does not exist changes nothing, as it has none. -/
theorem parent_setParent_none (dom : Dom ℓ) (child : Child) (id : ElementId) :
    (dom.setParent none child).parent id =
      if child = .element id then none else dom.parent id := by
  split
  next same =>
    subst same
    by_cases known : id.index < dom.size
    · exact parent_setParent_self known none
    · have missing : (dom.setParent none (.element id)).size ≤ id.index := by simp; omega
      rw [Dom.parent, element_of_size_le missing]
      rfl
  next differs => exact parent_setParent none dom differs

theorem parent_foldl_setParent_none (children : List Child) (dom : Dom ℓ) (id : ElementId) :
    (children.foldl (setParent none) dom).parent id =
      if Child.element id ∈ children then none else dom.parent id := by
  induction children generalizing dom with
  | nil => simp
  | cons child rest ih =>
      rw [List.foldl_cons, ih, parent_setParent_none]
      by_cases here : child = .element id
      · simp [here]
      · simp [here, Ne.symm here]

theorem mem_childElements {id parent : ElementId} :
    id ∈ dom.childElements parent ↔ Child.element id ∈ (dom.element parent).children := by
  rw [childElements, List.mem_filterMap]
  constructor
  · rintro ⟨child, listed, same⟩
    cases child with
    | text content => contradiction
    | element other =>
        obtain rfl := Option.some.inj same
        exact listed
  · intro listed
    exact ⟨_, listed, rfl⟩

theorem filterMap_element?_filter (children : List Child) (id : ElementId) :
    (children.filter fun child => child ≠ .element id).filterMap Child.element? =
      (children.filterMap Child.element?).filter fun other => ¬other = id := by
  induction children with
  | nil => rfl
  | cons child rest ih =>
      cases child with
      | text content => simpa [List.filterMap_cons, Child.element?] using ih
      | element other =>
          by_cases same : other = id <;>
            simpa [List.filterMap_cons, Child.element?, same] using ih

theorem count_childElements (dom : Dom ℓ) (id parent : ElementId) :
    (dom.element parent).children.count (.element id) = (dom.childElements parent).count id := by
  rw [childElements]
  induction (dom.element parent).children with
  | nil => rfl
  | cons child rest ih =>
      cases child with
      | text content => simpa [List.filterMap_cons, Child.element?, List.count_cons] using ih
      | element other => simp [Child.element?, List.count_cons, ih]

theorem Forest.detach_unlinks (forest : dom.Forest) {id parent : ElementId}
    (link : dom.parent id = some parent) : dom.Unlinks (dom.detach id) parent (· = id) := by
  have known := known_of_listed ((forest.linked id parent).mp link)
  have detached : dom.detach id = (dom.modify parent fun element =>
      { element with children := element.children.filter fun child => child ≠ .element id }).setParent
        none (.element id) := by
    change (dom.element id).parent = _ at link
    rw [detach, link]
  constructor
  · intro other
    rw [detached, parent_setParent_none, parent_modify]
    by_cases same : other = id
    · simp [same, link]
    · simp [same, Ne.symm same]
  · intro other
    rw [detached, childElements_setParent, childElements_modify known]
    split
    · exact filterMap_element?_filter _ id
    · rfl

theorem Forest.detach (forest : dom.Forest) (id : ElementId) : (dom.detach id).Forest := by
  cases link : dom.parent id with
  | none =>
      change (dom.element id).parent = _ at link
      rw [Dom.detach, link]
      exact forest
  | some parent => exact forest.unlink (forest.detach_unlinks link)

theorem parent_detach_self (forest : dom.Forest) (id : ElementId) :
    (dom.detach id).parent id = none := by
  cases link : dom.parent id with
  | none =>
      change (dom.element id).parent = _ at link
      rw [Dom.detach, link, Dom.parent, link]
  | some parent => rw [(forest.detach_unlinks link).parents, if_pos ⟨link, rfl⟩]

theorem size_detach (id : ElementId) (dom : Dom ℓ) : (dom.detach id).size = dom.size := by
  rw [Dom.detach]
  split
  · rfl
  · rw [size_setParent, size_modify]

/-- An element is moved out of the place that it has, and then put behind the children of another
one. -/
theorem Forest.append (forest : dom.Forest) {parent id : ElementId} (there : parent.index < dom.size)
    (known : id.index < dom.size) (outside : ¬dom.Within id parent) :
    (dom.append parent (.element id)).Forest := by
  have detached := forest.detach id
  have fewer (other : ElementId) :
      (dom.detach id).childElements other ⊆ dom.childElements other := by
    intro child listed
    rw [← detached.linked] at listed
    rw [← forest.linked]
    cases link : dom.parent id with
    | none =>
        change (dom.element id).parent = _ at link
        rwa [Dom.detach, link] at listed
    | some above =>
        rw [(forest.detach_unlinks link).parents] at listed
        split at listed
        · contradiction
        · exact listed
  have knownStill : id.index < (dom.detach id).size := by rwa [size_detach]
  have thereStill : parent.index < ((dom.detach id).setParent (some parent) (.element id)).size := by
    rwa [size_setParent, size_detach]
  have links : (dom.detach id).Links (dom.append parent (.element id)) parent id := by
    constructor
    · intro other
      rw [Dom.append, detachChild, parent_modify]
      split
      next same => rw [same, parent_setParent_self knownStill]
      next differs => rw [parent_setParent _ _ fun same => differs (Child.element.inj same).symm]
    · intro other
      rw [Dom.append, detachChild, childElements_modify thereStill, childElements_setParent]
      split
      next =>
        rw [List.filterMap_append]
        exact congrArg (· ++ [id]) (childElements_setParent (some parent) _ (.element id) parent)
      next => rfl
  exact detached.link links (parent_detach_self forest id) fun inside => outside (inside.mono fewer)

theorem Forest.appendText (forest : dom.Forest) (parent : ElementId) (text : String) :
    (dom.append parent (.text text)).Forest := by
  apply forest.of_sameLinks
  constructor
  · intro id
    exact parent_modify dom parent _ id
  · intro id
    rw [Dom.append, detachChild, setParent]
    by_cases known : parent.index < dom.size
    · rw [childElements_modify known]
      split
      next same => simp [same, childElements, List.filterMap_cons, Child.element?]
      next => rfl
    · rw [childElements, element_modify, if_neg fun both => known both.2, childElements]

theorem Forest.takeFirst (forest : dom.Forest) {parent : ElementId} (known : parent.index < dom.size) :
    (dom.takeFirst parent).2.Forest := by
  rw [Dom.takeFirst]
  split
  next => exact forest
  next first rest children =>
    have row : dom.childElements parent = (first :: rest).filterMap Child.element? := by
      rw [childElements, children]
    have distinct := forest.distinct parent
    cases first with
    | text content =>
        apply forest.of_sameLinks
        constructor
        · exact parent_modify dom parent _
        · intro id
          rw [childElements_setParent, childElements_modify known]
          split
          next same => rw [same, row]; rfl
          next => rfl
    | element id =>
        have link : dom.parent id = some parent := by
          rw [forest.linked, row]
          exact List.mem_cons_self
        suffices unlinks : dom.Unlinks ((dom.modify parent fun element =>
            { element with children := rest }).setParent none (.element id)) parent (· = id) from
          forest.unlink unlinks
        constructor
        · intro other
          rw [parent_setParent_none, parent_modify]
          by_cases same : other = id
          · simp [same, link]
          · simp [same, Ne.symm same]
        · intro other
          rw [childElements_setParent, childElements_modify known, row]
          rw [row] at distinct
          have absent : id ∉ rest.filterMap Child.element? := (List.nodup_cons.mp distinct).1
          split
          next =>
            change _ = (id :: rest.filterMap Child.element?).filter _
            rw [List.filter_cons_of_neg (by simp), List.filter_eq_self.mpr]
            intro child listed
            simp only [decide_eq_true_eq]
            exact fun same => absent (same ▸ listed)
          next => rfl

theorem size_clear (id : ElementId) (dom : Dom ℓ) : (dom.clear id).size = dom.size := by
  rw [Dom.clear, (foldl_setParent none _ _).1, size_modify]

theorem Forest.clear (forest : dom.Forest) {parent : ElementId} (known : parent.index < dom.size) :
    (dom.clear parent).Forest ∧ (dom.clear parent).childElements parent = [] := by
  have children (other : ElementId) : (dom.clear parent).childElements other =
      if other = parent then [] else dom.childElements other := by
    rw [Dom.clear, childElements_eq, (foldl_setParent none _ _).2.1, ← childElements_eq,
      childElements_modify known]
    rfl
  have unlinks : dom.Unlinks (dom.clear parent) parent fun _ => True := by
    constructor
    · intro other
      rw [Dom.clear, parent_foldl_setParent_none, parent_modify]
      simp only [and_true, forest.linked, mem_childElements]
    · intro other
      rw [children]
      split
      · simp
      · rfl
  exact ⟨forest.unlink unlinks, by rw [children, if_pos rfl]⟩

theorem Forest.setText (forest : dom.Forest) {parent : ElementId} (known : parent.index < dom.size)
    (text : String) : (dom.setText parent text).Forest := by
  obtain ⟨cleared, empty⟩ := forest.clear known
  rw [Dom.setText]
  split
  · exact cleared
  · apply cleared.of_sameLinks
    constructor
    · exact parent_modify _ parent _
    · intro id
      rw [childElements_modify (by rwa [size_clear])]
      split
      next same => rw [same, empty]; rfl
      next => rfl

/-! ## New trees -/

theorem Forest.add (forest : dom.Forest) {element : Element ℓ} (root : element.parent = none)
    (bare : element.children = []) : (dom.add element).2.Forest := by
  apply forest.of_sameLinks
  constructor
  · intro id
    rw [Dom.parent, element_add, Dom.parent]
    split
    next new => rw [root, element_of_size_le (Nat.le_of_eq new.symm)]; rfl
    next => rfl
  · intro id
    rw [childElements, element_add, childElements]
    split
    next new => rw [bare, element_of_size_le (Nat.le_of_eq new.symm)]; rfl
    next => rfl

/-- What is known of a forest to which elements were added. -/
structure Forest.Gains (dom after : Dom ℓ) : Prop where
  /-- It is still a forest. -/
  forest : after.Forest
  /-- No element is lost. -/
  size_le : dom.size ≤ after.size
  /-- The elements that were there have the parents they had. -/
  parent : ∀ id : ElementId, id.index < dom.size → after.parent id = dom.parent id

theorem Forest.Gains.refl (forest : dom.Forest) : Forest.Gains dom dom :=
  ⟨forest, Nat.le_refl _, fun _ _ => rfl⟩

theorem Forest.Gains.trans {between after : Dom ℓ} (first : Forest.Gains dom between)
    (later : Forest.Gains between after) : Forest.Gains dom after where
  forest := later.forest
  size_le := Nat.le_trans first.size_le later.size_le
  parent id known :=
    (later.parent id (Nat.lt_of_lt_of_le known first.size_le)).trans (first.parent id known)

/-- What is known of a child that was made with everything below it: it is a text, or a new element
without a parent. -/
def Fresh (dom after : Dom ℓ) (child : Child) : Prop :=
  ∀ id, child = .element id →
    dom.size ≤ id.index ∧ id.index < after.size ∧ after.parent id = none

/-- A fresh child can be put below an element that has no parent itself. -/
theorem Forest.appendFresh {before : Dom ℓ} (forest : dom.Forest) {parent : ElementId}
    (there : parent.index < before.size) (grown : before.size ≤ dom.size)
    (root : dom.parent parent = none) {child : Child} (fresh : before.Fresh dom child) :
    (dom.append parent child).Forest ∧ (dom.append parent child).size = dom.size ∧
      ∀ id : ElementId, id.index < before.size →
        (dom.append parent child).parent id = dom.parent id := by
  cases child with
  | text content =>
      refine ⟨forest.appendText parent content, ?_, fun id _ => parent_modify dom parent _ id⟩
      exact size_modify dom parent _
  | element id =>
      obtain ⟨new, known, orphan⟩ := fresh id rfl
      have differs : parent ≠ id := by
        rintro rfl
        omega
      have outside := forest.not_within_of_root differs root
      have detached : dom.detach id = dom := by
        change (dom.element id).parent = none at orphan
        rw [Dom.detach, orphan]
      refine ⟨forest.append (by omega) known outside, ?_, fun other old => ?_⟩
      · rw [Dom.append, size_modify, size_setParent, detachChild, detached]
      · have differs : Child.element id ≠ .element other := by
          intro same
          have same := Child.element.inj same
          subst same
          omega
        rw [Dom.append, parent_modify, parent_setParent _ _ differs, detachChild, detached]

mutual

/-- A tree that is built comes to the forest as a tree of its own. -/
theorem Forest.build : (tree : Tree) → (dom : Dom ℓ) → dom.Forest →
    Forest.Gains dom (dom.build tree).2 ∧ dom.Fresh (dom.build tree).2 (dom.build tree).1
  | .text _, dom, forest => ⟨.refl forest, fun _ same => nomatch same⟩
  | .element tag attributes style children, dom, forest => by
      let fresh : Element ℓ := { Element.bare tag with attributes := attributes, style := style }
      have added : Forest.Gains dom (dom.add fresh).2 := by
        refine ⟨forest.add rfl rfl, by rw [size_add]; omega, fun id known => ?_⟩
        rw [Dom.parent, element_add, if_neg (Nat.ne_of_lt known), Dom.parent]
      have known : (⟨dom.size⟩ : ElementId).index < (dom.add fresh).2.size := by
        rw [size_add]
        exact Nat.lt_succ_self _
      have root : (dom.add fresh).2.parent ⟨dom.size⟩ = none := by
        rw [Dom.parent, element_add, if_pos rfl]
        rfl
      have gains := Forest.buildAll children ⟨dom.size⟩ (dom.add fresh).2 added.forest known root
      refine ⟨added.trans gains, ?_⟩
      rintro id same
      obtain rfl := Child.element.inj same
      exact ⟨Nat.le_refl _, Nat.lt_of_lt_of_le known gains.size_le,
        (gains.parent _ known).trans root⟩

/-- Trees are built below an element without a parent. -/
theorem Forest.buildAll : (trees : List Tree) → (parent : ElementId) → (dom : Dom ℓ) →
    dom.Forest → parent.index < dom.size → dom.parent parent = none →
    Forest.Gains dom (Dom.buildAll parent dom trees)
  | [], _, _, forest, _, _ => .refl forest
  | tree :: rest, parent, dom, forest, known, root => by
      obtain ⟨built, fresh⟩ := Forest.build tree dom forest
      obtain ⟨appended, size, parents⟩ := built.forest.appendFresh known built.size_le
        ((built.parent parent known).trans root) fresh
      have placed : Forest.Gains dom ((dom.build tree).2.append parent (dom.build tree).1) := by
        refine ⟨appended, by rw [size]; exact built.size_le, fun id old => ?_⟩
        exact (parents id old).trans (built.parent id old)
      exact placed.trans (Forest.buildAll rest parent _ appended
        (Nat.lt_of_lt_of_le known placed.size_le) ((placed.parent parent known).trans root))

end

/-! ## Sequences of operations -/

/-- An operation on the elements of a document. -/
inductive Operation where
  /-- A new element. -/
  | new (tag : String)
  /-- The elements of some markup, if it can be read, each tree on its own. -/
  | markup (source : String)
  /-- A document with the elements of some markup, if it can be read. -/
  | document (source : String)
  /-- An element is put behind the children of another one. -/
  | append (parent id : ElementId)
  /-- A text is put behind the children of an element. -/
  | appendText (parent : ElementId) (text : String)
  /-- The first child is taken away. -/
  | takeFirst (parent : ElementId)
  /-- All children are taken away. -/
  | clear (parent : ElementId)
  /-- An element is taken away from its parent. -/
  | detach (id : ElementId)
  /-- All children are replaced by a text. -/
  | setText (parent : ElementId) (text : String)
  /-- A copy of an element and of everything below it. -/
  | copy (id : ElementId)

/-- Whether an operation is about elements that exist and puts none of them below itself. -/
def Allows (dom : Dom ℓ) : Operation → Prop
  | .new _ | .markup _ | .document _ => True
  | .append parent id => parent.index < dom.size ∧ id.index < dom.size ∧ ¬dom.Within id parent
  | .appendText id _ | .takeFirst id | .clear id | .detach id | .setText id _ | .copy id =>
      id.index < dom.size

/-- The document after an operation. -/
def after (dom : Dom ℓ) : Operation → Dom ℓ
  | .new tag => (dom.add (Element.bare tag)).2
  | .markup source =>
      match Tree.parse source with
      | .ok trees => trees.foldl (fun dom tree => (dom.build tree).2) dom
      | .error _ => dom
  | .document source =>
      match Tree.parse source with
      | .ok trees => (dom.newDocument trees).2
      | .error _ => dom
  | .append parent id => dom.append parent (.element id)
  | .appendText parent text => dom.append parent (.text text)
  | .takeFirst parent => (dom.takeFirst parent).2
  | .clear parent => dom.clear parent
  | .detach id => dom.detach id
  | .setText parent text => dom.setText parent text
  | .copy id => (dom.copy (.element id)).2

theorem Forest.foldl_build (trees : List Tree) (forest : dom.Forest) :
    (trees.foldl (fun dom tree => (dom.build tree).2) dom).Forest := by
  induction trees generalizing dom with
  | nil => exact forest
  | cons tree rest ih => exact ih (Forest.build tree dom forest).1.forest

theorem Forest.newDocument (forest : dom.Forest) (trees : List Tree) :
    (dom.newDocument trees).2.Forest := by
  have added : (dom.add (Element.bare "body")).2.Forest := forest.add rfl rfl
  refine (Forest.buildAll trees ⟨dom.size⟩ _ added ?_ ?_).forest
  · rw [size_add]
    exact Nat.lt_succ_self _
  · rw [Dom.parent, element_add, if_pos rfl]
    rfl

/-- Every operation that puts no element below itself makes a forest of a forest. -/
theorem Forest.after (forest : dom.Forest) {operation : Operation} (allowed : dom.Allows operation) :
    (dom.after operation).Forest := by
  cases operation with
  | new tag => exact forest.add rfl rfl
  | markup source =>
      rw [Dom.after]
      split
      · exact forest.foldl_build _
      · exact forest
  | document source =>
      rw [Dom.after]
      split
      · exact forest.newDocument _
      · exact forest
  | append parent id => exact forest.append allowed.1 allowed.2.1 allowed.2.2
  | appendText parent text => exact forest.appendText parent text
  | takeFirst parent => exact forest.takeFirst allowed
  | clear parent => exact (forest.clear allowed).1
  | detach id => exact forest.detach id
  | setText parent text => exact forest.setText allowed text
  | copy id => exact (Forest.build _ dom forest).1.forest

/-- A document that operations have made, none of which has put an element below itself. -/
inductive Reached : Dom ℓ → Prop
  /-- There is no element. -/
  | start : Reached Dom.empty
  /-- An operation is applied. -/
  | step {dom : Dom ℓ} {operation : Operation} (reached : Reached dom)
      (allowed : dom.Allows operation) : Reached (dom.after operation)

theorem empty_forest : (Dom.empty : Dom ℓ).Forest where
  linked id parent := by simp [Dom.parent, childElements, element, empty, Element.bare]
  distinct parent := by simp [childElements, element, empty, Element.bare]
  ends id := .root (by simp [Dom.parent, element, empty, Element.bare])

theorem Reached.forest (reached : dom.Reached) : dom.Forest := by
  induction reached with
  | start => exact empty_forest
  | step _ allowed ih => exact ih.after allowed

/-- In every document that is reached, an element has a parent if and only if it is among the
children of that parent, it occurs there once and among the children of no other element, and the
way up from it comes to an end. -/
theorem places_are_exact (reached : dom.Reached) :
    (∀ id parent, dom.parent id = some parent ↔
      Child.element id ∈ (dom.element parent).children) ∧
    (∀ id parent, Child.element id ∈ (dom.element parent).children →
      (dom.element parent).children.count (.element id) = 1 ∧
      ∀ other, other ≠ parent → Child.element id ∉ (dom.element other).children) ∧
    ∀ id, ∃ steps, dom.ancestor? steps id = none := by
  have forest := reached.forest
  refine ⟨fun id parent => ?_, fun id parent listed => ⟨?_, fun other differs again => ?_⟩,
    fun id => (forest.ends id).steps⟩
  · rw [forest.linked, mem_childElements]
  · rw [count_childElements]
    exact List.count_eq_one_of_mem (forest.distinct parent) (mem_childElements.mpr listed)
  · rw [← mem_childElements, ← forest.linked] at listed again
    exact differs (Option.some.inj (again.symm.trans listed))

/-! ## An element that is moved -/

/-- A box, a list and an item. -/
def itemMade : Dom Unit := ((Dom.empty.after (.new "div")).after (.new "ul")).after (.new "li")

/-- The list is put into the box, and the item into the list. -/
def itemListed : Dom Unit := (itemMade.after (.append ⟨0⟩ ⟨1⟩)).after (.append ⟨1⟩ ⟨2⟩)

/-- The item moves into the box, and the list moves behind it. -/
def itemMoved : Dom Unit := (itemListed.after (.append ⟨0⟩ ⟨2⟩)).after (.append ⟨0⟩ ⟨1⟩)

theorem itemMoved_reached : itemMoved.Reached := by
  have made : itemMade.Reached := .step (.step (.step .start trivial) trivial) trivial
  have boxed := made.step (show itemMade.Allows (.append ⟨0⟩ ⟨1⟩) from
    ⟨by decide, by decide, made.forest.not_within_of_root (by decide) rfl⟩)
  have listed : itemListed.Reached := boxed.step
    ⟨by decide, by decide, boxed.forest.not_within_of_parent (by decide) rfl
      (boxed.forest.not_within_of_root (by decide) rfl)⟩
  have moved := listed.step (show itemListed.Allows (.append ⟨0⟩ ⟨2⟩) from
    ⟨by decide, by decide, listed.forest.not_within_of_root (by decide) rfl⟩)
  exact moved.step ⟨by decide, by decide, moved.forest.not_within_of_root (by decide) rfl⟩

/-- The item that was moved has left the list: its one place is in the box, before the list. -/
theorem itemMoved_places : itemMoved.Reached ∧
    (itemMoved.element ⟨0⟩).children = [.element ⟨2⟩, .element ⟨1⟩] ∧
    itemMoved.parent ⟨2⟩ = some ⟨0⟩ ∧
    Child.element ⟨2⟩ ∉ (itemMoved.element ⟨1⟩).children ∧
    ∃ steps, itemMoved.ancestor? steps ⟨2⟩ = none := by
  obtain ⟨linked, once, ends⟩ := places_are_exact itemMoved_reached
  have row : (itemMoved.element ⟨0⟩).children = [.element ⟨2⟩, .element ⟨1⟩] := by decide
  have listed : Child.element ⟨2⟩ ∈ (itemMoved.element ⟨0⟩).children := by simp [row]
  exact ⟨itemMoved_reached, row, (linked ⟨2⟩ ⟨0⟩).mpr listed,
    (once ⟨2⟩ ⟨0⟩ listed).2 ⟨1⟩ (by decide), ends ⟨2⟩⟩

end Dom

end LiveMarkup
