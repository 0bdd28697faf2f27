import LiveMarkup.Proofs.Document.Forest

/-!
# Elements below one another

The way up from an element passes no element twice, so it is no longer than there are elements, and
its length ranks the element: children come after their parents.  What is below one child of an
element is not below another one, the elements of a tree are listed once each, and no tree is deeper
than there are elements.
-/

namespace LiveMarkup

namespace Dom

variable {ℓ : Type} {dom : Dom ℓ}

/-! ## The way up -/

/-- The elements on the way up from an element, itself first. -/
inductive Lineage (dom : Dom ℓ) : ElementId → List ElementId → Prop
  /-- There is no parent. -/
  | root {id : ElementId} (root : dom.parent id = none) : Lineage dom id [id]
  /-- The way goes on from the parent. -/
  | child {id parent : ElementId} {path : List ElementId} (link : dom.parent id = some parent)
      (above : Lineage dom parent path) : Lineage dom id (id :: path)

theorem Ends.lineage {id : ElementId} (ends : dom.Ends id) : ∃ path, dom.Lineage id path := by
  induction ends with
  | root root => exact ⟨_, .root root⟩
  | child link _ ih =>
      obtain ⟨path, above⟩ := ih
      exact ⟨_, .child link above⟩

theorem Lineage.head?_eq {id : ElementId} {path : List ElementId} (lineage : dom.Lineage id path) :
    path.head? = some id := by
  cases lineage <;> rfl

/-- There is one way up. -/
theorem Lineage.unique {id : ElementId} {path other : List ElementId}
    (lineage : dom.Lineage id path) (again : dom.Lineage id other) : other = path := by
  induction lineage generalizing other with
  | root root =>
      cases again with
      | root => rfl
      | child link => rw [root] at link; contradiction
  | child link _ ih =>
      cases again with
      | root root => rw [root] at link; contradiction
      | child again above =>
          rw [again] at link
          obtain rfl := Option.some.inj link
          rw [ih above]

/-- The way up from an element on the way is its last part. -/
theorem Lineage.suffix {id other : ElementId} {path : List ElementId}
    (lineage : dom.Lineage id path) (member : other ∈ path) :
    ∃ later, dom.Lineage other later ∧ later.length ≤ path.length := by
  induction lineage with
  | root root =>
      obtain rfl := List.mem_singleton.mp member
      exact ⟨_, .root root, Nat.le_refl _⟩
  | child link above ih =>
      rcases List.mem_cons.mp member with rfl | higher
      · exact ⟨_, .child link above, Nat.le_refl _⟩
      · obtain ⟨later, lineage, short⟩ := ih higher
        exact ⟨later, lineage, Nat.le_succ_of_le short⟩

/-- The way up passes no element twice. -/
theorem Lineage.nodup {id : ElementId} {path : List ElementId} (lineage : dom.Lineage id path) :
    path.Nodup := by
  induction lineage with
  | root root => exact List.nodup_singleton _
  | child link above ih =>
      refine List.nodup_cons.mpr ⟨fun again => ?_, ih⟩
      obtain ⟨later, lineage, short⟩ := above.suffix again
      rw [Lineage.unique (.child link above) lineage, List.length_cons] at short
      exact Nat.not_succ_le_self _ short

theorem Lineage.known (forest : dom.Forest) {id : ElementId} {path : List ElementId}
    (lineage : dom.Lineage id path) (known : id.index < dom.size) :
    ∀ other ∈ path, other.index < dom.size := by
  induction lineage with
  | root root => exact fun other member => List.mem_singleton.mp member ▸ known
  | child link _ ih =>
      exact List.forall_mem_cons.mpr ⟨known, ih (known_of_listed ((forest.linked _ _).mp link))⟩

/-- The way up is no longer than there are elements. -/
theorem Lineage.length_le (forest : dom.Forest) {id : ElementId} {path : List ElementId}
    (lineage : dom.Lineage id path) (known : id.index < dom.size) : path.length ≤ dom.size := by
  have distinct : (path.map ElementId.index).Nodup := by
    refine List.Pairwise.map ElementId.index ?_ lineage.nodup
    exact fun first second differs same => differs (congrArg ElementId.mk same)
  have below : path.map ElementId.index ⊆ List.range dom.size := by
    intro index member
    obtain ⟨other, listed, rfl⟩ := List.mem_map.mp member
    exact List.mem_range.mpr (lineage.known forest known other listed)
  have short := distinct.length_le_of_subset below
  simpa using short

/-! ## Ranks -/

/-- Whether children exist and come after their parents in a ranking of the elements. -/
structure Ranked (dom : Dom ℓ) (rank : ElementId → Nat) : Prop where
  /-- Children come after their parents. -/
  later : ∀ id, ∀ child ∈ dom.childElements id, rank id < rank child
  /-- Children exist. -/
  known : ∀ id, ∀ child ∈ dom.childElements id, child.index < dom.size
  /-- There are no more ranks than elements. -/
  below : ∀ id : ElementId, id.index < dom.size → rank id < dom.size

/-- Where parents come before their children, elements are ranked by their numbers. -/
theorem Ordered.ranked (ordered : dom.Ordered) : dom.Ranked ElementId.index where
  later id child listed := (ordered id child (mem_childElements.mp listed)).1
  known id child listed := (ordered id child (mem_childElements.mp listed)).2
  below _ known := known

theorem Forest.known_of_parent (forest : dom.Forest) {id parent : ElementId}
    (link : dom.parent id = some parent) : id.index < dom.size ∧ parent.index < dom.size := by
  refine ⟨Nat.lt_of_not_le fun missing => ?_, known_of_listed ((forest.linked id parent).mp link)⟩
  rw [Dom.parent, element_of_size_le missing] at link
  contradiction

/-- The elements of a forest are ranked by how far they are from their roots. -/
theorem Forest.exists_rank (forest : dom.Forest) : ∃ rank, dom.Ranked rank := by
  classical
  choose path lineage using fun id => (forest.ends id).lineage
  refine ⟨fun id => (path id).length - 1, fun id child listed => ?_, fun id child listed => ?_,
    fun id known => ?_⟩
  · have link := (forest.linked child id).mpr listed
    have longer := (Lineage.child link (lineage id)).unique (lineage child)
    have nonempty : path id ≠ [] := fun none => by
      have head := (lineage id).head?_eq
      rw [none] at head
      contradiction
    have positive := List.length_pos_iff.mpr nonempty
    rw [longer, List.length_cons]
    omega
  · exact (forest.known_of_parent ((forest.linked child id).mpr listed)).1
  · have short := (lineage id).length_le forest known
    omega

theorem Ranked.le_of_within {rank : ElementId → Nat} (ranked : dom.Ranked rank) {top id : ElementId}
    (inside : dom.Within top id) : rank top ≤ rank id := by
  induction inside with
  | self => exact Nat.le_refl _
  | child _ listed ih => exact Nat.le_trans ih (Nat.le_of_lt (ranked.later _ _ listed))

/-- As no tree is deeper than there are elements, bounds beyond that number give the same tree. -/
theorem Ranked.treeWithin_eq {rank : ElementId → Nat} (ranked : dom.Ranked rank) {first second : Nat}
    {id : ElementId} (known : id.index < dom.size) (enough : dom.size ≤ rank id + first)
    (alsoEnough : dom.size ≤ rank id + second) :
    dom.treeWithin first id = dom.treeWithin second id := by
  have below := ranked.below id known
  induction first generalizing second id with
  | zero => omega
  | succ first ih =>
      obtain ⟨second, rfl⟩ : ∃ less, second = less + 1 := ⟨second - 1, by omega⟩
      rw [treeWithin_succ, treeWithin_succ, Tree.element.injEq]
      refine ⟨rfl, rfl, rfl, List.map_congr_left fun child member => ?_⟩
      cases child with
      | text content => rfl
      | element child =>
          have listed := mem_childElements.mpr member
          have later := ranked.later id child listed
          have knownChild := ranked.known id child listed
          exact ih knownChild (by omega) (by omega) (ranked.below child knownChild)

/-! ## Trees apart -/

/-- No element is below one of its children. -/
theorem Forest.not_within_child (forest : dom.Forest) {parent child : ElementId}
    (listed : child ∈ dom.childElements parent) : ¬dom.Within child parent := by
  obtain ⟨rank, ranked⟩ := forest.exists_rank
  exact fun inside => Nat.not_lt.mpr (ranked.le_of_within inside) (ranked.later parent child listed)

/-- Of two elements that are both above a third one, one is above the other. -/
theorem Forest.within_or_within (forest : dom.Forest) {first second id : ElementId}
    (below : dom.Within first id) (also : dom.Within second id) :
    dom.Within first second ∨ dom.Within second first := by
  induction below with
  | self => exact .inr also
  | @child parent id inside listed ih =>
      rcases forest.within_cases also with rfl | ⟨above, link, within⟩
      · exact .inl (.child inside listed)
      · obtain rfl := Option.some.inj (((forest.linked id parent).mpr listed).symm.trans link)
        exact ih within

theorem Within.trans {top middle id : ElementId} (above : dom.Within top middle)
    (below : dom.Within middle id) : dom.Within top id := by
  induction below with
  | self => exact above
  | child _ listed ih => exact .child ih listed

theorem within_of_mem_descendantsWithin {depth : Nat} {top id : ElementId}
    (member : id ∈ dom.descendantsWithin depth top) : dom.Within top id := by
  induction depth generalizing top with
  | zero => exact absurd member List.not_mem_nil
  | succ depth ih =>
      rcases List.mem_cons.mp member with rfl | below
      · exact .self
      · obtain ⟨child, listed, inside⟩ := List.mem_flatMap.mp below
        exact (Within.child .self listed).trans (ih inside)

/-- No child of an element is below another one. -/
theorem Forest.not_within_sibling (forest : dom.Forest) {top first second : ElementId}
    (one : first ∈ dom.childElements top) (other : second ∈ dom.childElements top)
    (differs : first ≠ second) : ¬dom.Within first second :=
  forest.not_within_of_parent (Ne.symm differs) ((forest.linked _ _).mpr other)
    (forest.not_within_child one)

/-- What is below an element is not below another one next to it. -/
theorem Forest.apart (forest : dom.Forest) {top first second id : ElementId}
    (one : first ∈ dom.childElements top) (other : second ∈ dom.childElements top)
    (differs : first ≠ second) (below : dom.Within first id) : ¬dom.Within second id := by
  intro also
  rcases forest.within_or_within below also with inside | inside
  · exact forest.not_within_sibling one other differs inside
  · exact forest.not_within_sibling other one (Ne.symm differs) inside

/-- No element is listed twice among those of a tree. -/
theorem Forest.nodup_descendantsWithin (forest : dom.Forest) (depth : Nat) (top : ElementId) :
    (dom.descendantsWithin depth top).Nodup := by
  induction depth generalizing top with
  | zero => exact List.nodup_nil
  | succ depth ih =>
      refine List.nodup_cons.mpr ⟨fun again => ?_, List.nodup_flatMap.mpr ⟨fun child _ => ih child, ?_⟩⟩
      · obtain ⟨child, listed, member⟩ := List.mem_flatMap.mp again
        exact forest.not_within_child listed (within_of_mem_descendantsWithin member)
      · refine (forest.distinct top).imp_of_mem fun {first second} one other differs => ?_
        intro id below also
        exact forest.apart one other differs (within_of_mem_descendantsWithin below)
          (within_of_mem_descendantsWithin also)

theorem Forest.nodup_query (forest : dom.Forest) (top : ElementId) (name : String) :
    (dom.query top name).Nodup :=
  (forest.nodup_descendantsWithin dom.size top).filter _

end Dom

end LiveMarkup
