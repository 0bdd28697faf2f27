import LiveMarkup.Proofs.Document.Order

/-!
# Changes below an element

Code that is given an element changes nothing but what is below it, and adds elements of its own.
Changes of this kind can be made one after another, and they leave the trees of other elements as
they are.  Of every operation it is said what becomes of the tree of its element.
-/

namespace LiveMarkup

namespace Dom

variable {ℓ : Type} {dom between after : Dom ℓ} {top id : ElementId}

/-! ## Trees -/

/-- The tree of an element is made of its face and of the trees of its children. -/
theorem Forest.tree_eq (forest : dom.Forest) (known : id.index < dom.size) :
    dom.tree id = .element (dom.face id).tag (dom.face id).attributes (dom.face id).style
      ((dom.face id).children.map dom.childTree) := by
  obtain ⟨rank, ranked⟩ := forest.exists_rank
  have deeper : dom.tree id = dom.treeWithin (dom.size + 1) id :=
    ranked.treeWithin_eq known (by omega) (by omega)
  rw [deeper, treeWithin_succ, Tree.element.injEq]
  refine ⟨rfl, rfl, rfl, List.map_congr_left fun child _ => ?_⟩
  cases child <;> rfl

theorem treeWithin_congr (depth : Nat)
    (same : ∀ other, dom.Within id other → after.face other = dom.face other) :
    after.treeWithin depth id = dom.treeWithin depth id := by
  induction depth generalizing id with
  | zero => rfl
  | succ depth ih =>
      rw [treeWithin_succ, treeWithin_succ, same id .self, Tree.element.injEq]
      refine ⟨rfl, rfl, rfl, List.map_congr_left fun child member => ?_⟩
      cases child with
      | text content => rfl
      | element child =>
          have listed := mem_childElements.mpr member
          exact ih fun other below => same other ((Within.child .self listed).trans below)

theorem Forest.known_of_within (forest : dom.Forest) (known : top.index < dom.size)
    (inside : dom.Within top id) : id.index < dom.size := by
  cases inside with
  | self => exact known
  | child _ listed => exact (forest.known_of_parent ((forest.linked _ _).mpr listed)).1

/-- A tree stays if no element of it changes its face. -/
theorem Forest.tree_congr (forest : dom.Forest) (known : id.index < dom.size)
    (size : dom.size ≤ after.size)
    (same : ∀ other, dom.Within id other → after.face other = dom.face other) :
    after.tree id = dom.tree id := by
  obtain ⟨rank, ranked⟩ := forest.exists_rank
  refine (treeWithin_congr after.size same).trans ?_
  exact ranked.treeWithin_eq known (by omega) (by omega)

/-! ## Elements apart -/

/-- Whether neither of two elements is below the other. -/
structure Apart (dom : Dom ℓ) (first second : ElementId) : Prop where
  /-- The second one is not below the first one. -/
  left : ¬dom.Within first second
  /-- The first one is not below the second one. -/
  right : ¬dom.Within second first

theorem Apart.symm {first second : ElementId} (apart : dom.Apart first second) :
    dom.Apart second first :=
  ⟨apart.right, apart.left⟩

theorem Forest.not_within_of_apart (forest : dom.Forest) {first second : ElementId}
    (apart : dom.Apart first second) (below : dom.Within first id) : ¬dom.Within second id :=
  fun also => (forest.within_or_within below also).elim apart.left apart.right

theorem Forest.apart_of_siblings (forest : dom.Forest) {first second : ElementId}
    (one : first ∈ dom.childElements top) (other : second ∈ dom.childElements top)
    (differs : first ≠ second) : dom.Apart first second :=
  ⟨forest.not_within_sibling one other differs,
    forest.not_within_sibling other one (Ne.symm differs)⟩

/-- What is not there has nothing below it but itself. -/
theorem eq_of_within_new (new : dom.size ≤ top.index) (inside : dom.Within top id) : id = top := by
  induction inside with
  | self => rfl
  | child _ listed ih =>
      subst ih
      exact absurd (known_of_listed listed) (Nat.not_lt.mpr new)

/-- What is not there is apart from what is there. -/
theorem Forest.apart_of_new (forest : dom.Forest) (new : dom.size ≤ top.index)
    (old : id.index < dom.size) : dom.Apart top id := by
  refine ⟨fun inside => ?_, fun inside => ?_⟩
  · rw [eq_of_within_new new inside] at old
    exact Nat.not_lt.mpr new old
  · exact Nat.not_lt.mpr new (forest.known_of_within old inside)

/-! ## Changes -/

/-- Whether nothing was changed but what is below an element; new elements may have been added. -/
structure Alters (dom after : Dom ℓ) (top : ElementId) : Prop where
  /-- It is still a forest. -/
  forest : after.Forest
  /-- No element is lost. -/
  size : dom.size ≤ after.size
  /-- Children were there or are new. -/
  children : ∀ id, ∀ child ∈ after.childElements id,
    child ∈ dom.childElements id ∨ dom.size ≤ child.index
  /-- What is not below the element has the face it had. -/
  face : ∀ id : ElementId, id.index < dom.size → ¬dom.Within top id → after.face id = dom.face id

namespace Alters

theorem refl (forest : dom.Forest) (top : ElementId) : dom.Alters dom top :=
  ⟨forest, Nat.le_refl _, fun _ _ listed => .inl listed, fun _ _ _ => rfl⟩

/-- What was there is below what it was below before. -/
theorem within {other : ElementId} (alters : dom.Alters after other) (inside : after.Within top id)
    (old : id.index < dom.size) : dom.Within top id := by
  induction inside with
  | self => exact .self
  | child _ listed ih =>
      rcases alters.children _ _ listed with before | new
      · exact .child (ih (known_of_listed before)) before
      · exact absurd old (Nat.not_lt.mpr new)

theorem trans {other : ElementId} (first : dom.Alters between top)
    (later : between.Alters after other)
    (inside : ∀ id : ElementId, id.index < dom.size → between.Within other id → dom.Within top id) :
    dom.Alters after top where
  forest := later.forest
  size := Nat.le_trans first.size later.size
  children id child listed := by
    rcases later.children id child listed with before | new
    · exact first.children id child before
    · exact .inr (Nat.le_trans first.size new)
  face id old outside := by
    have known := Nat.lt_of_lt_of_le old first.size
    exact (later.face id known fun below => outside (inside id old below)).trans
      (first.face id old outside)

/-- What is below the element is changed again. -/
theorem again (first : dom.Alters between top) (later : between.Alters after top) :
    dom.Alters after top :=
  first.trans later fun _ old inside => first.within inside old

/-- What is below a child is changed next. -/
theorem child {other : ElementId} (first : dom.Alters between top)
    (later : between.Alters after other) (below : between.Within top other) :
    dom.Alters after top :=
  first.trans later fun _ old inside => first.within (below.trans inside) old

/-- An element without a parent gets none. -/
theorem loose (alters : dom.Alters after top) (forest : dom.Forest) (old : id.index < dom.size)
    (loose : dom.parent id = none) : after.parent id = none := by
  refine Option.eq_none_iff_forall_ne_some.mpr fun parent link => ?_
  rcases alters.children parent id ((alters.forest.linked id parent).mp link) with before | new
  · rw [(forest.linked id parent).mpr before] at loose
    contradiction
  · exact Nat.not_lt.mpr new old

theorem apart {first second other : ElementId} (alters : dom.Alters after other)
    (known : first.index < dom.size) (alsoKnown : second.index < dom.size)
    (apart : dom.Apart first second) : after.Apart first second :=
  ⟨fun inside => apart.left (alters.within inside alsoKnown),
    fun inside => apart.right (alters.within inside known)⟩

/-- The tree of an element apart stays. -/
theorem tree_eq (alters : dom.Alters after top) (forest : dom.Forest) (known : id.index < dom.size)
    (apart : dom.Apart top id) : after.tree id = dom.tree id :=
  forest.tree_congr known alters.size fun other below =>
    alters.face other (forest.known_of_within known below)
      (forest.not_within_of_apart apart.symm below)

end Alters

/-- Whether nothing was changed, but new elements may have been added. -/
abbrev Adds (dom after : Dom ℓ) : Prop := dom.Alters after ⟨dom.size⟩

theorem Adds.tree_eq (adds : dom.Adds after) (forest : dom.Forest) (known : id.index < dom.size) :
    after.tree id = dom.tree id :=
  Alters.tree_eq adds forest known (forest.apart_of_new (Nat.le_refl _) known)

/-! ## Operations on one element -/

/-- Whether an element has got another face, with no children but those it had. -/
structure Turns (dom after : Dom ℓ) (id : ElementId) (face : Face) : Prop
    extends Recasts dom after id face where
  /-- It is still a forest. -/
  forest : after.Forest
  /-- The element has got no children. -/
  children : ∀ child, Child.element child ∈ face.children →
    Child.element child ∈ (dom.face id).children

namespace Turns

variable {face : Face}

theorem alters (turns : dom.Turns after id face) : dom.Alters after id where
  forest := turns.forest
  size := Nat.le_of_eq turns.size.symm
  children parent child listed := by
    rw [mem_childElements] at listed ⊢
    change Child.element child ∈ (after.face parent).children at listed
    by_cases here : parent = id
    · subst here
      rw [turns.here] at listed
      exact .inl (turns.children child listed)
    · rw [turns.elsewhere parent here] at listed
      exact .inl listed
  face other _ outside := turns.elsewhere other fun same => outside (same ▸ .self)

/-- The trees of its children stay. -/
theorem childTree_eq (turns : dom.Turns after id face) (forest : dom.Forest) {child : Child}
    (member : child ∈ (dom.face id).children) : after.childTree child = dom.childTree child := by
  cases child with
  | text content => rfl
  | element child =>
      have listed := mem_childElements.mpr member
      refine forest.tree_congr (forest.known_of_parent ((forest.linked _ _).mpr listed)).1
        (Nat.le_of_eq turns.size.symm) fun other below => turns.elsewhere other ?_
      rintro rfl
      exact forest.not_within_child listed below

theorem tree_eq (turns : dom.Turns after id face) (forest : dom.Forest)
    (known : id.index < dom.size) :
    after.tree id = .element face.tag face.attributes face.style
      (face.children.map dom.childTree) := by
  rw [turns.forest.tree_eq (turns.size ▸ known), turns.here, Tree.element.injEq]
  refine ⟨rfl, rfl, rfl, List.map_congr_left fun child member => ?_⟩
  cases child with
  | text content => rfl
  | element child => exact turns.childTree_eq forest (turns.children child member)

end Turns

/-- What a tree says of the face of its element. -/
theorem Forest.face_of_tree (forest : dom.Forest) (known : id.index < dom.size) {tag : String}
    {attributes style : Assoc String String} {children : List Tree}
    (shows : dom.tree id = .element tag attributes style children) :
    (dom.face id).tag = tag ∧ (dom.face id).attributes = attributes ∧
      (dom.face id).style = style ∧ (dom.face id).children.map dom.childTree = children := by
  rw [forest.tree_eq known] at shows
  exact Tree.element.inj shows

section Operations

variable (forest : dom.Forest) (known : id.index < dom.size)

include forest known

theorem Turns.setStyle (property value : String) :
    dom.Turns (dom.setStyle id property value) id
      { dom.face id with style := (dom.face id).style.insert property value } where
  toRecasts := (setStyle_edits known property value).toRecasts
  forest := forest.modify id (fun _ => rfl) fun _ => rfl
  children _ listed := listed

theorem Turns.listen (kind : String) (listener : ℓ) :
    dom.Turns (dom.listen id kind listener) id (dom.face id) where
  toRecasts := modify_recasts known _
  forest := forest.modify id (fun _ => rfl) fun _ => rfl
  children _ listed := listed

theorem Turns.clear : dom.Turns (dom.clear id) id { dom.face id with children := [] } where
  toRecasts := clear_recasts known
  forest := (forest.clear known).1
  children _ listed := absurd listed List.not_mem_nil

theorem Turns.setText (text : String) :
    dom.Turns (dom.setText id text) id { dom.face id with children := textRow text } where
  toRecasts := setText_recasts known text
  forest := forest.setText known text
  children _ listed := by
    simp only [textRow] at listed
    split at listed
    · contradiction
    · exact absurd (List.mem_singleton.mp listed) Child.noConfusion

theorem Turns.takeFirst {first : Child} {rest : List Child}
    (children : (dom.face id).children = first :: rest) :
    dom.Turns (dom.takeFirst id).2 id { dom.face id with children := rest } where
  toRecasts := (takeFirst_recasts known children).2
  forest := forest.takeFirst known
  children _ listed := children ▸ List.mem_cons_of_mem first listed

end Operations

theorem Forest.known_of_first (forest : dom.Forest) {other : ElementId} {rest : List Child}
    (children : (dom.face id).children = .element other :: rest) :
    other ∈ dom.childElements id ∧ other.index < dom.size := by
  have listed : other ∈ dom.childElements id := by
    refine mem_childElements.mpr ?_
    change Child.element other ∈ (dom.face id).children
    rw [children]
    exact List.mem_cons_self
  exact ⟨listed, (forest.known_of_parent ((forest.linked _ _).mpr listed)).1⟩

/-- A child that was taken away has no parent. -/
theorem Forest.parent_of_taken (forest : dom.Forest) {other : ElementId} {rest : List Child}
    (children : (dom.face id).children = .element other :: rest) :
    (dom.takeFirst id).2.parent other = none := by
  rw [takeFirst_eq children, Dom.parent, setParent, element_modify_self]
  rw [size_modify]
  exact (forest.known_of_first children).2

/-- A child that was taken away is apart from its parent. -/
theorem Forest.apart_of_taken (forest : dom.Forest) (known : id.index < dom.size) {other : ElementId}
    {rest : List Child} (children : (dom.face id).children = .element other :: rest) :
    (dom.takeFirst id).2.Apart id other := by
  have turns := Turns.takeFirst forest known children
  have listed := (forest.known_of_first children).1
  have differs : other ≠ id := by
    rintro rfl
    exact forest.not_within_child listed .self
  refine ⟨turns.forest.not_within_of_root differs (forest.parent_of_taken children),
    fun inside => ?_⟩
  exact forest.not_within_child listed (turns.alters.within inside known)

/-! ## New trees -/

/-- A tree that is built is added and is the tree of what was built. -/
theorem Forest.build_adds (forest : dom.Forest) (tree : Tree) :
    dom.Adds (dom.build tree).2 ∧ (dom.build tree).2.childTree (dom.build tree).1 = tree := by
  obtain ⟨child, builds⟩ := build_builds tree dom
  have built := (Forest.build tree dom forest).1.forest
  have size : dom.size ≤ (dom.build tree).2.size := by
    rw [builds.size]
    exact Nat.le_add_right _ _
  refine ⟨⟨built, size, fun id child listed => ?_, fun id old _ => builds.face id old⟩,
    childTree_build tree dom⟩
  rcases Nat.lt_or_ge child.index dom.size with old | new
  · have link := (built.linked child id).mpr listed
    rw [builds.parent child old] at link
    exact .inl ((forest.linked child id).mp link)
  · exact .inr new

theorem Fresh.alters (alters : between.Alters after top) (forest : between.Forest) {child : Child}
    (fresh : dom.Fresh between child) : dom.Fresh after child := by
  intro id same
  obtain ⟨new, known, loose⟩ := fresh id same
  exact ⟨new, Nat.lt_of_lt_of_le known alters.size, alters.loose forest known loose⟩

/-! ## A new last child -/

namespace Adds

variable (adds : dom.Adds between) (forest : dom.Forest) (known : id.index < dom.size) {child : Child}
  (fresh : dom.Fresh between child)

include adds forest known fresh

/-- What was there is not below what was made. -/
theorem outside {other : ElementId} (same : child = .element other) : ¬between.Within other id :=
  fun inside => (forest.apart_of_new (fresh other same).1 known).left (adds.within inside known)

theorem append_forest : (between.append id child).Forest := by
  have there := Nat.lt_of_lt_of_le known adds.size
  cases child with
  | text content => exact adds.forest.appendText id content
  | element other =>
      exact adds.forest.append there (fresh other rfl).2.1 (adds.outside forest known fresh rfl)

theorem append_edits : between.Edits (between.append id child) id
    { dom.face id with children := (dom.face id).children ++ [child] } := by
  have face : between.face id = dom.face id :=
    adds.face id known (forest.apart_of_new (Nat.le_refl _) known).left
  rw [← face]
  refine Dom.append_edits (Nat.lt_of_lt_of_le known adds.size) child fun other same => ?_
  obtain ⟨new, _, loose⟩ := fresh other same
  exact ⟨loose, Nat.lt_of_lt_of_le known new⟩

/-- What was made with everything below it is put behind the other children of an element. -/
theorem append_alters : dom.Alters (between.append id child) id := by
  have edits := adds.append_edits forest known fresh
  refine ⟨adds.append_forest forest known fresh, edits.size ▸ adds.size, fun parent other listed => ?_,
    fun other old elsewhere => ?_⟩
  · by_cases here : parent = id
    · subst here
      rw [mem_childElements] at listed ⊢
      change Child.element other ∈ ((between.append parent child).face parent).children at listed
      rw [edits.here] at listed
      rcases List.mem_append.mp listed with old | new
      · exact .inl old
      · exact .inr (fresh other (List.mem_singleton.mp new).symm).1
    · rw [childElements_eq, edits.elsewhere parent here, ← childElements_eq] at listed
      exact adds.children parent other listed
  · have differs : other ≠ id := fun same => elsewhere (same ▸ .self)
    rw [edits.elsewhere other differs]
    exact adds.face other old (forest.apart_of_new (Nat.le_refl _) old).left

theorem append_tree : (between.append id child).tree id = .element (dom.face id).tag
    (dom.face id).attributes (dom.face id).style
      ((dom.face id).children.map dom.childTree ++ [between.childTree child]) := by
  have edits := adds.append_edits forest known fresh
  have there := Nat.lt_of_lt_of_le known adds.size
  have stays {other : ElementId} (knownChild : other.index < between.size)
      (apart : ¬between.Within other id) :
      (between.append id child).tree other = between.tree other :=
    adds.forest.tree_congr knownChild (Nat.le_of_eq edits.size.symm) fun another inside =>
      edits.elsewhere another fun same => apart (same ▸ inside)
  have old {other : Child} (member : other ∈ (dom.face id).children) :
      (between.append id child).childTree other = dom.childTree other := by
    cases other with
    | text content => rfl
    | element other =>
        have listed := mem_childElements.mpr member
        have knownChild := (forest.known_of_parent ((forest.linked _ _).mpr listed)).1
        refine (stays (Nat.lt_of_lt_of_le knownChild adds.size) fun inside => ?_).trans
          (adds.tree_eq forest knownChild)
        exact forest.not_within_child listed (adds.within inside known)
  have new : (between.append id child).childTree child = between.childTree child := by
    cases child with
    | text content => rfl
    | element other => exact stays (fresh other rfl).2.1 (adds.outside forest known fresh rfl)
  rw [(adds.append_forest forest known fresh).tree_eq (edits.size ▸ there), edits.here,
    Tree.element.injEq]
  refine ⟨rfl, rfl, rfl, ?_⟩
  rw [List.map_append, List.map_singleton, new, List.map_congr_left fun other => old]

end Adds

end Dom

end LiveMarkup
