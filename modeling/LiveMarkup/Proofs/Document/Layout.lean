import LiveMarkup.Proofs.Document.Face

/-!
# Where a built tree stands

Building a tree puts its elements behind all others, in document order.  So where the elements of a
tree stand follows from the place of its root, and one place says all about a tree that has not been
changed since it was built.
-/

namespace LiveMarkup

namespace Tree

mutual

/-- The number of elements of a tree. -/
def count : Tree → Nat
  | .text _ => 0
  | .element _ _ _ children => countAll children + 1

/-- The number of elements of a row of trees. -/
def countAll : List Tree → Nat
  | [] => 0
  | tree :: rest => tree.count + countAll rest

end

mutual

/-- The number of elements on the longest way down a tree. -/
def height : Tree → Nat
  | .text _ => 0
  | .element _ _ _ children => heightAll children + 1

/-- The number of elements on the longest way down some tree of a row. -/
def heightAll : List Tree → Nat
  | [] => 0
  | tree :: rest => max tree.height (heightAll rest)

end

/-- The child that a tree at a place is. -/
def childAt (place : Nat) : Tree → Child
  | .text content => .text content
  | .element _ _ _ _ => .element ⟨place⟩

/-- The children that a row of trees from a place on is. -/
def rowAt (place : Nat) : List Tree → List Child
  | [] => []
  | tree :: rest => tree.childAt place :: rowAt (place + tree.count) rest

mutual

theorem height_le_count : (tree : Tree) → tree.height ≤ tree.count
  | .text _ => Nat.le_refl 0
  | .element _ _ _ children => Nat.succ_le_succ (heightAll_le_countAll children)

theorem heightAll_le_countAll : (trees : List Tree) → heightAll trees ≤ countAll trees
  | [] => Nat.le_refl 0
  | tree :: rest => by
      have first := height_le_count tree
      have later := heightAll_le_countAll rest
      simp only [heightAll, countAll]
      omega

end

theorem eq_of_childAt_eq_element {tree : Tree} {place : Nat} {id : ElementId}
    (same : tree.childAt place = .element id) : id = ⟨place⟩ ∧ 0 < tree.count := by
  cases tree with
  | text content => contradiction
  | element tag attributes style children =>
      exact ⟨(Child.element.inj same).symm, Nat.succ_pos _⟩

end Tree

namespace Dom

variable {ℓ : Type}

mutual

/-- Whether an unchanged tree stands at a place. -/
def Stands (dom : Dom ℓ) : Tree → Nat → Prop
  | .text _, _ => True
  | .element tag attributes style children, place =>
      dom.face ⟨place⟩ = ⟨tag, attributes, style, Tree.rowAt (place + 1) children⟩ ∧
        dom.StandsAll children (place + 1)

/-- Whether a row of unchanged trees stands from a place on. -/
def StandsAll (dom : Dom ℓ) : List Tree → Nat → Prop
  | [], _ => True
  | tree :: rest, place => dom.Stands tree place ∧ dom.StandsAll rest (place + tree.count)

end

mutual

/-- A tree stands where it stood as long as the faces of its elements stay. -/
theorem Stands.of_faces {dom after : Dom ℓ} : (tree : Tree) → (place : Nat) → dom.Stands tree place →
    (∀ id : ElementId, place ≤ id.index → id.index < place + tree.count →
      after.face id = dom.face id) → after.Stands tree place
  | .text _, _, _, _ => trivial
  | .element _ _ _ children, place, stands, same => by
      refine ⟨(same ⟨place⟩ (Nat.le_refl _) (Nat.lt_add_of_pos_right (Nat.succ_pos _))).trans
        stands.1, ?_⟩
      refine StandsAll.of_faces children (place + 1) stands.2 fun id behind before => ?_
      simp only [Tree.count] at same
      exact same id (by omega) (by omega)

theorem StandsAll.of_faces {dom after : Dom ℓ} : (trees : List Tree) → (place : Nat) →
    dom.StandsAll trees place →
    (∀ id : ElementId, place ≤ id.index → id.index < place + Tree.countAll trees →
      after.face id = dom.face id) → after.StandsAll trees place
  | [], _, _, _ => trivial
  | tree :: rest, place, stands, same => by
      simp only [Tree.countAll] at same
      refine ⟨Stands.of_faces tree place stands.1 fun id behind before => ?_,
        StandsAll.of_faces rest _ stands.2 fun id behind before => ?_⟩
      · exact same id behind (by omega)
      · exact same id (by omega) (by omega)

end

theorem mem_rowAt {trees : List Tree} {place : Nat} {child : ElementId}
    (member : Child.element child ∈ Tree.rowAt place trees) :
    place ≤ child.index ∧ child.index < place + Tree.countAll trees := by
  induction trees generalizing place with
  | nil => cases member
  | cons tree rest ih =>
      rw [Tree.countAll]
      rcases List.mem_cons.mp member with first | later
      · obtain ⟨rfl, positive⟩ := Tree.eq_of_childAt_eq_element first.symm
        exact ⟨Nat.le_refl place, by simp only; omega⟩
      · have bounds := ih later
        omega

mutual

/-- The elements of a tree that stands unchanged have their children in it, behind them. -/
theorem Stands.listed {dom : Dom ℓ} : (tree : Tree) → (place : Nat) → dom.Stands tree place →
    (id : ElementId) → place ≤ id.index → id.index < place + tree.count →
    (child : ElementId) → Child.element child ∈ (dom.face id).children →
    id.index < child.index ∧ child.index < place + tree.count
  | .text _, _, _, _, behind, before, _, _ => absurd before (Nat.not_lt.mpr behind)
  | .element _ _ _ children, place, stands, id, behind, before, child, member => by
      simp only [Tree.count] at before ⊢
      rcases Nat.eq_or_lt_of_le behind with here | later
      · obtain rfl : id = ⟨place⟩ := by rw [here]
        rw [stands.1] at member
        have bounds := mem_rowAt member
        simp only at bounds ⊢
        omega
      · have bounds := StandsAll.listed children (place + 1) stands.2 id later (by omega) child member
        omega

theorem StandsAll.listed {dom : Dom ℓ} : (trees : List Tree) → (place : Nat) →
    dom.StandsAll trees place → (id : ElementId) → place ≤ id.index →
    id.index < place + Tree.countAll trees → (child : ElementId) →
    Child.element child ∈ (dom.face id).children →
    id.index < child.index ∧ child.index < place + Tree.countAll trees
  | [], _, _, _, behind, before, _, _ => absurd before (Nat.not_lt.mpr behind)
  | tree :: rest, place, stands, id, behind, before, child, member => by
      simp only [Tree.countAll] at before ⊢
      rcases Nat.lt_or_ge id.index (place + tree.count) with first | later
      · have bounds := Stands.listed tree place stands.1 id behind first child member
        omega
      · have bounds := StandsAll.listed rest _ stands.2 id later (by omega) child member
        omega

end

/-! ## Trees as plain data -/

/-- A child with what is below it, as far down as the bound. -/
def childWithin (dom : Dom ℓ) (depth : Nat) : Child → Tree
  | .text content => .text content
  | .element id => dom.treeWithin depth id

theorem treeWithin_succ (dom : Dom ℓ) (depth : Nat) (id : ElementId) :
    dom.treeWithin (depth + 1) id = .element (dom.face id).tag (dom.face id).attributes
      (dom.face id).style ((dom.face id).children.map (dom.childWithin depth)) := by
  simp only [treeWithin, face, Element.face, Tree.element.injEq, true_and]
  refine List.map_congr_left fun child _ => ?_
  cases child <;> rfl

mutual

/-- A tree that stands unchanged is what the document shows there. -/
theorem childWithin_of_stands {dom : Dom ℓ} : (tree : Tree) → (place depth : Nat) →
    dom.Stands tree place → tree.height ≤ depth → dom.childWithin depth (tree.childAt place) = tree
  | .text _, _, _, _, _ => rfl
  | .element _ _ _ children, place, depth, stands, enough => by
      simp only [Tree.height] at enough
      obtain ⟨below, rfl⟩ := Nat.exists_eq_add_of_le' enough
      change dom.treeWithin (below + Tree.heightAll children + 1) ⟨place⟩ = _
      rw [treeWithin_succ, stands.1, map_childWithin_of_stands children (place + 1) _ stands.2
        (Nat.le_add_left _ _)]

theorem map_childWithin_of_stands {dom : Dom ℓ} : (trees : List Tree) → (place depth : Nat) →
    dom.StandsAll trees place → Tree.heightAll trees ≤ depth →
    (Tree.rowAt place trees).map (dom.childWithin depth) = trees
  | [], _, _, _, _ => rfl
  | tree :: rest, place, depth, stands, enough => by
      simp only [Tree.heightAll] at enough
      rw [Tree.rowAt, List.map_cons, childWithin_of_stands tree place depth stands.1 (by omega),
        map_childWithin_of_stands rest _ depth stands.2 (by omega)]

end

/-! ## Building -/

/-- What is known of a document in which a tree was built. -/
structure Builds (dom after : Dom ℓ) (tree : Tree) : Prop where
  /-- The elements of the tree are added. -/
  size : after.size = dom.size + tree.count
  /-- The others have the faces they had. -/
  face : ∀ id : ElementId, id.index < dom.size → after.face id = dom.face id
  /-- The others have the parents they had. -/
  parent : ∀ id : ElementId, id.index < dom.size → after.parent id = dom.parent id
  /-- The tree stands behind them. -/
  stands : after.Stands tree dom.size
  /-- Its root is the child of no element. -/
  root : ∀ id, tree.childAt dom.size = .element id → after.parent id = none
  /-- Parents still come before their children. -/
  ordered : dom.Ordered → after.Ordered

/-- What is known of a document in which an element was given children. -/
structure BuildsAll (dom after : Dom ℓ) (parent : ElementId) (trees : List Tree) : Prop where
  /-- The elements of the trees are added. -/
  size : after.size = dom.size + Tree.countAll trees
  /-- The element has its new children. -/
  here : after.face parent =
    { dom.face parent with children := (dom.face parent).children ++ Tree.rowAt dom.size trees }
  /-- The others have the faces they had. -/
  face : ∀ id : ElementId, id.index < dom.size → id ≠ parent → after.face id = dom.face id
  /-- The element and those before it have the parents they had. -/
  parent : ∀ id : ElementId, id.index ≤ parent.index → after.parent id = dom.parent id
  /-- The trees stand behind all other elements. -/
  stands : after.StandsAll trees dom.size
  /-- Parents still come before their children. -/
  ordered : dom.Ordered → after.Ordered

theorem element_add (dom : Dom ℓ) (element : Element ℓ) (id : ElementId) :
    (dom.add element).2.element id = if id.index = dom.size then element else dom.element id := by
  change (dom.elements.push element)[id.index]?.getD (Element.bare "") = _
  rw [Array.getElem?_push, apply_ite (fun found => Option.getD found (Element.bare ""))]
  rfl

theorem size_add (dom : Dom ℓ) (element : Element ℓ) : (dom.add element).2.size = dom.size + 1 := by
  simp [add, size]

mutual

theorem build_builds : (tree : Tree) → (dom : Dom ℓ) →
    (dom.build tree).1 = tree.childAt dom.size ∧ dom.Builds (dom.build tree).2 tree
  | .text _, dom =>
      ⟨rfl, rfl, fun _ _ => rfl, fun _ _ => rfl, trivial, fun _ same => (nomatch same), id⟩
  | .element tag attributes style children, dom => by
      let fresh : Element ℓ := { Element.bare tag with attributes := attributes, style := style }
      let id : ElementId := ⟨dom.size⟩
      have size := size_add dom fresh
      have face (other : ElementId) (known : other.index < dom.size) :
          (dom.add fresh).2.face other = dom.face other := by
        rw [Dom.face, element_add, if_neg (Nat.ne_of_lt known), Dom.face]
      have here : (dom.add fresh).2.element id = fresh := by
        rw [element_add, if_pos rfl]
      have orderedAdd (ordered : dom.Ordered) : (dom.add fresh).2.Ordered := by
        intro other child member
        rw [size]
        rw [Dom.face, element_add] at member
        split at member
        · contradiction
        · have bounds := ordered other child member
          omega
      have known : id.index < (dom.add fresh).2.size := by
        rw [size]
        exact Nat.lt_succ_self _
      have builds := buildAll_builds children id (dom.add fresh).2 known
      refine ⟨rfl, ?_, fun other known => ?_, fun other known => ?_, ⟨?_, ?_⟩, fun other same => ?_,
        fun ordered => builds.ordered (orderedAdd ordered)⟩
      · refine builds.size.trans ?_
        rw [size, Tree.count]
        omega
      · refine (builds.face other (by omega) fun same => ?_).trans (face other known)
        exact Nat.lt_irrefl _ (same ▸ known : id.index < dom.size)
      · refine (builds.parent other (Nat.le_of_lt known)).trans ?_
        rw [Dom.parent, element_add, if_neg (Nat.ne_of_lt known), Dom.parent]
      · refine builds.here.trans ?_
        rw [Dom.face, here, size]
        rfl
      · have stands := builds.stands
        rw [size] at stands
        exact stands
      · rw [← Child.element.inj same]
        refine (builds.parent id (Nat.le_refl _)).trans ?_
        rw [Dom.parent, here]
        rfl

theorem buildAll_builds : (trees : List Tree) → (parent : ElementId) → (dom : Dom ℓ) →
    parent.index < dom.size → dom.BuildsAll (buildAll parent dom trees) parent trees
  | [], parent, dom, _ => by
      refine ⟨rfl, ?_, fun _ _ _ => rfl, fun _ _ => rfl, trivial, id⟩
      rw [Tree.rowAt, List.append_nil]
      rfl
  | tree :: rest, parent, dom, known => by
      obtain ⟨child, builds⟩ := build_builds tree dom
      have knownBuilt : parent.index < (dom.build tree).2.size := by
        rw [builds.size]
        omega
      have appends := append_edits knownBuilt (dom.build tree).1 fun other same => by
        rw [child] at same
        refine ⟨builds.root other same, ?_⟩
        rw [(Tree.eq_of_childAt_eq_element same).1]
        exact known
      rw [child, builds.face parent known] at appends
      have orderedAppend (ordered : dom.Ordered) :=
        appends.ordered (builds.ordered ordered) fun other member => by
          rw [builds.size]
          rcases List.mem_append.mp member with old | new
          · have bounds := ordered parent other old
            omega
          · have same := (List.mem_singleton.mp new).symm
            obtain ⟨rfl, positive⟩ := Tree.eq_of_childAt_eq_element same
            dsimp only
            omega
      have later := buildAll_builds rest parent _ (appends.size ▸ knownBuilt)
      have built : buildAll parent dom (tree :: rest) =
          buildAll parent ((dom.build tree).2.append parent (tree.childAt dom.size)) rest := by
        rw [← child]
        rfl
      have size := appends.size.trans builds.size
      rw [built]
      refine ⟨?_, ?_, fun id before differs => ?_, fun id before => ?_, ⟨?_, ?_⟩,
        fun ordered => later.ordered (orderedAppend ordered)⟩
      · refine later.size.trans ?_
        rw [size, Tree.countAll]
        omega
      · refine later.here.trans ?_
        rw [appends.here, size, Tree.rowAt, List.append_assoc]
        rfl
      · refine (later.face id (by omega) differs).trans ?_
        exact (appends.elsewhere id differs).trans (builds.face id before)
      · refine (later.parent id before).trans ((appends.parent id before).trans ?_)
        exact builds.parent id (Nat.lt_of_le_of_lt before known)
      · refine builds.stands.of_faces tree dom.size fun id behind before => ?_
        have differs : id ≠ parent := by
          rintro rfl
          omega
        exact (later.face id (by omega) differs).trans (appends.elsewhere id differs)
      · have stands := later.stands
        rw [size] at stands
        exact stands

end

/-- The document shows the tree that was built in it. -/
theorem childTree_build (tree : Tree) (dom : Dom ℓ) :
    (dom.build tree).2.childTree (dom.build tree).1 = tree := by
  obtain ⟨child, builds⟩ := build_builds tree dom
  have enough : tree.height ≤ (dom.build tree).2.size := by
    have height := Tree.height_le_count tree
    rw [builds.size]
    omega
  rw [child]
  refine Eq.trans ?_ (childWithin_of_stands tree dom.size _ builds.stands enough)
  cases tree <;> rfl

/-- A copy of a tree that stands unchanged is built like the tree. -/
theorem copy_builds {dom : Dom ℓ} {tree : Tree} {place : Nat}
    (stands : dom.Stands tree place) (inside : place + tree.count ≤ dom.size) :
    (dom.copy (tree.childAt place)).1 = tree.childAt dom.size ∧
      dom.Builds (dom.copy (tree.childAt place)).2 tree := by
  have enough : tree.height ≤ dom.size :=
    Nat.le_trans (Tree.height_le_count tree) (by omega)
  have shown : dom.childTree (tree.childAt place) = tree := by
    refine Eq.trans ?_ (childWithin_of_stands tree place dom.size stands enough)
    cases tree <;> rfl
  rw [copy, shown]
  exact build_builds tree dom

end Dom

end LiveMarkup
