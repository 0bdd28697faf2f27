import LiveMarkup.Proofs.Document.Bubbling
import LiveMarkup.Proofs.Document.Order

/-!
# Documents that lose children

Only `listen` gives an element a listener; all other operations leave the listeners of every element
as they are.  Showing a text, changing style and taking children away trim a document: no element
gets a child, and nothing but the one element shows anything new.
-/

namespace LiveMarkup

namespace Dom

variable {ℓ : Type} {dom after : Dom ℓ}

/-! ## Listeners -/

/-- Whether every element has the listeners that it had. -/
def SameListeners (dom after : Dom ℓ) : Prop :=
  ∀ id, (after.element id).listeners = (dom.element id).listeners

theorem SameListeners.refl (dom : Dom ℓ) : dom.SameListeners dom := fun _ => rfl

theorem SameListeners.trans {between : Dom ℓ} (first : dom.SameListeners between)
    (later : between.SameListeners after) : dom.SameListeners after :=
  fun id => (later id).trans (first id)

theorem sameListeners_modify (dom : Dom ℓ) (id : ElementId) {change : Element ℓ → Element ℓ}
    (keeps : ∀ element, (change element).listeners = element.listeners) :
    dom.SameListeners (dom.modify id change) := by
  intro other
  rw [element_modify]
  split
  · exact keeps _
  · rfl

theorem sameListeners_setParent (parent : Option ElementId) (dom : Dom ℓ) (child : Child) :
    dom.SameListeners (dom.setParent parent child) := by
  cases child with
  | text content => exact .refl dom
  | element id => exact sameListeners_modify dom id fun _ => rfl

theorem sameListeners_clear (dom : Dom ℓ) (id : ElementId) : dom.SameListeners (dom.clear id) := by
  have orphans (children : List Child) (dom : Dom ℓ) :
      dom.SameListeners (children.foldl (setParent none) dom) := by
    induction children generalizing dom with
    | nil => exact .refl dom
    | cons child rest ih => exact (sameListeners_setParent none dom child).trans (ih _)
  rw [clear]
  refine .trans ?_ (orphans _ _)
  exact sameListeners_modify dom id fun _ => rfl

theorem sameListeners_setText (dom : Dom ℓ) (id : ElementId) (text : String) :
    dom.SameListeners (dom.setText id text) := by
  rw [setText]
  split
  · exact sameListeners_clear dom id
  · refine (sameListeners_clear dom id).trans ?_
    exact sameListeners_modify _ id fun _ => rfl

theorem sameListeners_takeFirst (dom : Dom ℓ) (id : ElementId) :
    dom.SameListeners (dom.takeFirst id).2 := by
  rw [takeFirst]
  split
  · exact .refl dom
  · refine .trans ?_ (sameListeners_setParent none _ _)
    exact sameListeners_modify dom id fun _ => rfl

theorem sameListeners_detachChild (dom : Dom ℓ) (child : Child) :
    dom.SameListeners (dom.detachChild child) := by
  cases child with
  | text content => exact .refl dom
  | element id =>
      rw [detachChild, detach]
      split
      · exact .refl dom
      · refine .trans ?_ (sameListeners_setParent none _ _)
        exact sameListeners_modify dom _ fun _ => rfl

theorem sameListeners_append (dom : Dom ℓ) (id : ElementId) (child : Child) :
    dom.SameListeners (dom.append id child) := by
  rw [append]
  refine .trans ((sameListeners_detachChild dom child).trans
    (sameListeners_setParent (some id) _ child)) ?_
  exact sameListeners_modify _ id fun _ => rfl

theorem sameListeners_add (dom : Dom ℓ) {element : Element ℓ} (silent : element.listeners = []) :
    dom.SameListeners (dom.add element).2 := by
  intro id
  rw [element_add]
  split
  next new => rw [silent, element_of_size_le (Nat.le_of_eq new.symm)]; rfl
  next => rfl

mutual

/-- New elements have no listeners. -/
theorem sameListeners_build : (tree : Tree) → (dom : Dom ℓ) → dom.SameListeners (dom.build tree).2
  | .text _, dom => .refl dom
  | .element _ _ _ children, dom =>
      (sameListeners_add dom rfl).trans (sameListeners_buildAll children _ _)

theorem sameListeners_buildAll : (trees : List Tree) → (parent : ElementId) → (dom : Dom ℓ) →
    dom.SameListeners (dom.buildAll parent trees)
  | [], _, dom => .refl dom
  | tree :: rest, parent, dom =>
      ((sameListeners_build tree dom).trans (sameListeners_append _ parent _)).trans
        (sameListeners_buildAll rest parent _)

end

/-! ## Trimming -/

/-- What is known of a document in which an element may have lost children and may show another text
or another style. -/
structure Trims (dom after : Dom ℓ) (id : ElementId) : Prop where
  /-- It is still a forest. -/
  forest : after.Forest
  /-- Parents still come before their children. -/
  ordered : after.Ordered
  /-- No element is added. -/
  size : after.size = dom.size
  /-- Attributes stay. -/
  attributes : ∀ other, (after.face other).attributes = (dom.face other).attributes
  /-- The other elements have the faces they had. -/
  elsewhere : ∀ other, other ≠ id → after.face other = dom.face other
  /-- No element gets a child. -/
  children : ∀ parent, after.childElements parent ⊆ dom.childElements parent

/-- An edit trims a document if the new face has the old attributes and no new children. -/
theorem Edits.trims {id : ElementId} {face : Face} (edits : dom.Edits after id face)
    (ordered : dom.Ordered) (forest : after.Forest)
    (attributes : face.attributes = (dom.face id).attributes)
    (children : ∀ child, Child.element child ∈ face.children →
      Child.element child ∈ (dom.face id).children) :
    dom.Trims after id where
  forest := forest
  ordered := edits.ordered ordered fun child member => ordered id child (children child member)
  size := edits.size
  attributes other := by
    by_cases here : other = id
    · rw [here, edits.here, attributes]
    · rw [edits.elsewhere other here]
  elsewhere := edits.elsewhere
  children parent child listed := by
    rw [mem_childElements] at listed ⊢
    change Child.element child ∈ (after.face parent).children at listed
    by_cases here : parent = id
    · subst here
      rw [edits.here] at listed
      exact children child listed
    · rw [edits.elsewhere parent here] at listed
      exact listed

theorem Trims.refl (forest : dom.Forest) (ordered : dom.Ordered) (id : ElementId) :
    dom.Trims dom id :=
  ⟨forest, ordered, rfl, fun _ => rfl, fun _ _ => rfl, fun _ _ listed => listed⟩

section Operations

variable (forest : dom.Forest) (ordered : dom.Ordered) {id : ElementId} (known : id.index < dom.size)

include forest ordered known

theorem Trims.setStyle (property value : String) :
    dom.Trims (dom.setStyle id property value) id :=
  (setStyle_edits known property value).trims ordered (forest.modify id (fun _ => rfl) fun _ => rfl)
    rfl fun _ listed => listed

/-- Listening changes nothing that is seen. -/
theorem Trims.listen (kind : String) (listener : ℓ) : dom.Trims (dom.listen id kind listener) id := by
  have edits : dom.Edits (dom.listen id kind listener) id (dom.face id) :=
    modify_edits known _ fun _ => rfl
  exact edits.trims ordered (forest.listen id kind listener) rfl fun _ listed => listed

theorem Trims.clear : dom.Trims (dom.clear id) id :=
  (clear_edits ordered known).trims ordered (forest.clear known).1 rfl fun _ listed =>
    absurd listed List.not_mem_nil

theorem Trims.setText (text : String) : dom.Trims (dom.setText id text) id := by
  refine (setText_edits ordered known text).trims ordered (forest.setText known text) rfl
    fun child listed => ?_
  rw [textRow] at listed
  split at listed
  · contradiction
  · exact absurd (List.mem_singleton.mp listed) (by simp)

theorem Trims.appendText (text : String) : dom.Trims (dom.append id (.text text)) id := by
  have edits := append_edits known (.text text) fun _ same => nomatch same
  refine edits.trims ordered (forest.appendText id text) rfl fun child listed => ?_
  exact (List.mem_append.mp listed).resolve_right fun new =>
    Child.noConfusion (List.mem_singleton.mp new)

theorem Trims.takeFirst : dom.Trims (dom.takeFirst id).2 id := by
  cases children : (dom.face id).children with
  | nil =>
      have nothing : (dom.takeFirst id).2 = dom := by
        change (dom.element id).children = _ at children
        rw [Dom.takeFirst, children]
      rw [nothing]
      exact .refl forest ordered id
  | cons first rest =>
      exact (takeFirst_edits ordered known children).2.trims ordered (forest.takeFirst known) rfl
        fun child listed => children ▸ List.mem_cons_of_mem first listed

end Operations

/-! ## New trees -/

/-- What is known of a document in which a tree was built, apart from its shape. -/
structure Grows (dom after : Dom ℓ) : Prop where
  /-- It is still a forest. -/
  forest : after.Forest
  /-- Parents still come before their children. -/
  ordered : after.Ordered
  /-- There is a new element. -/
  size : dom.size < after.size
  /-- It is the child of no element. -/
  top : after.parent ⟨dom.size⟩ = none
  /-- The others have the faces they had. -/
  face : ∀ id : ElementId, id.index < dom.size → after.face id = dom.face id
  /-- No element gets a listener. -/
  listeners : dom.SameListeners after

/-- Building an element with everything below it gives a new element with the attributes of the
tree. -/
theorem build_grows (forest : dom.Forest) (ordered : dom.Ordered) (tag : String)
    (attributes style : Assoc String String) (children : List Tree) :
    let tree := Tree.element tag attributes style children
    (dom.build tree).1 = .element ⟨dom.size⟩ ∧ dom.Grows (dom.build tree).2 ∧
      ((dom.build tree).2.face ⟨dom.size⟩).attributes = attributes := by
  intro tree
  obtain ⟨child, builds⟩ := build_builds tree dom
  refine ⟨child, ⟨(Forest.build tree dom forest).1.forest, builds.ordered ordered, ?_, builds.root _ rfl,
    builds.face, sameListeners_build tree dom⟩, by rw [builds.stands.1]⟩
  rw [builds.size]
  exact Nat.lt_add_of_pos_right (Nat.succ_pos _)

/-- Of an element that was there, all children were there. -/
theorem Grows.childElements (grows : dom.Grows after) {id parent : ElementId}
    (listed : id ∈ after.childElements parent) :
    (parent.index < dom.size ∧ id ∈ dom.childElements parent) ∨
      (dom.size ≤ parent.index ∧ dom.size < id.index) := by
  rcases Nat.lt_or_ge parent.index dom.size with old | new
  · rw [childElements_eq, grows.face parent old] at listed
    exact .inl ⟨old, listed⟩
  · have bounds := grows.ordered parent id (mem_childElements.mp listed)
    exact .inr ⟨new, Nat.lt_of_le_of_lt new bounds.1⟩

/-- A copy of an element is a new element with the same attributes. -/
theorem copy_grows (forest : dom.Forest) (ordered : dom.Ordered) {id : ElementId}
    (known : id.index < dom.size) :
    (dom.copy (.element id)).1 = .element ⟨dom.size⟩ ∧ dom.Grows (dom.copy (.element id)).2 ∧
      ((dom.copy (.element id)).2.face ⟨dom.size⟩).attributes = (dom.face id).attributes := by
  obtain ⟨depth, deep⟩ : ∃ depth, dom.size = depth + 1 := ⟨dom.size - 1, by omega⟩
  have shown : dom.childTree (.element id) = _ := (congrArg (dom.treeWithin · id) deep).trans
    (treeWithin_succ dom depth id)
  rw [copy, shown]
  exact build_grows forest ordered _ _ _ _

/-! ## Putting an element in its place -/

/-- Whether an element is loose and comes after another one, so that it can be put below it. -/
structure Fitting (dom : Dom ℓ) (host id : ElementId) : Prop where
  /-- It comes later. -/
  later : host.index < id.index
  /-- It is there. -/
  known : id.index < dom.size
  /-- It is the child of no element. -/
  loose : dom.parent id = none

namespace Fitting

variable {host id : ElementId} (fitting : dom.Fitting host id)

include fitting

theorem edits : dom.Edits (dom.append host (.element id)) host
    { dom.face host with children := (dom.face host).children ++ [.element id] } :=
  append_edits (Nat.lt_trans fitting.later fitting.known) _ fun _ same =>
    Child.element.inj same ▸ ⟨fitting.loose, fitting.later⟩

theorem ordered (ordered : dom.Ordered) : (dom.append host (.element id)).Ordered := by
  refine fitting.edits.ordered ordered fun child member => ?_
  rcases List.mem_append.mp member with old | new
  · exact ordered host child old
  · rw [← Child.element.inj (List.mem_singleton.mp new).symm]
    exact ⟨fitting.later, fitting.known⟩

/-- The element is not above the other one, as parents come before their children. -/
theorem forest (forest : dom.Forest) (ordered : dom.Ordered) :
    (dom.append host (.element id)).Forest :=
  forest.append (Nat.lt_trans fitting.later fitting.known) fitting.known fun inside =>
    Nat.not_lt.mpr (ordered.ranked.le_of_within inside) fitting.later

/-- One element gets one child. -/
theorem childElements {other parent : ElementId}
    (listed : other ∈ (dom.append host (.element id)).childElements parent) :
    other ∈ dom.childElements parent ∨ (parent = host ∧ other = id) := by
  rw [childElements_eq] at listed
  by_cases here : parent = host
  · rw [here, fitting.edits.here, List.filterMap_append] at listed
    rcases List.mem_append.mp listed with old | new
    · exact .inl (here ▸ old)
    · exact .inr ⟨here, List.mem_singleton.mp new⟩
  · rw [fitting.edits.elsewhere parent here] at listed
    exact .inl listed

theorem attributes (other : ElementId) :
    ((dom.append host (.element id)).face other).attributes = (dom.face other).attributes := by
  by_cases here : other = host
  · rw [here, fitting.edits.here]
  · rw [fitting.edits.elsewhere other here]

end Fitting

end Dom

end LiveMarkup
