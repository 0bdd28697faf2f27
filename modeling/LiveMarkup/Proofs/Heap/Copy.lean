import LiveMarkup.Proofs.Heap.Display
import LiveMarkup.Proofs.Heap.Ownership
import LiveMarkup.Proofs.Heap.Reach

/-!
# Copies of foreign values

A value that belongs to another tracker is copied with everything that it holds.  In a closed heap
all of that is foreign too, so nothing is shared between the value and its copy.  A value without
cycles nests no deeper than there are containers, so the bound on the nesting cuts nothing off.
-/

namespace LiveMarkup

namespace Heap

variable {tracker : TrackerId}

theorem adoptWithin_of_plain {value : Value} (plain : ∀ id, value ≠ .container id) (depth : Nat) :
    adoptWithin tracker depth value = pure value := by
  cases depth <;> cases value <;> first | rfl | exact absurd rfl (plain _)

/-- A value of the tracker itself is taken as it is. -/
theorem adopt_of_belongs {heap : Heap} {value : Value}
    (own : ∀ id, value = .container id → heap.owner id = tracker) :
    adopt tracker value heap = (value, heap) := by
  change adoptWithin tracker heap.containers.size value heap = _
  cases value with
  | container id => exact adoptWithin_of_owner (own id rfl) _
  | _ => exact congrFun (adoptWithin_of_plain (by simp) _) heap

/-! ## Nothing is shared -/

/-- What holds of the heap along a row of computations holds at its end, and each result is good. -/
theorem mapM_yields {α β : Type} {make : α → StateM Heap β} {keeps : Heap → Prop} {good : β → Prop}
    {list : List α}
    (each : ∀ a ∈ list, ∀ heap, keeps heap → keeps (make a heap).2 ∧ good (make a heap).1)
    {heap : Heap} (start : keeps heap) :
    keeps (list.mapM make heap).2 ∧ ∀ b ∈ (list.mapM make heap).1, good b := by
  induction list generalizing heap with
  | nil => exact ⟨start, fun b member => nomatch member⟩
  | cons head rest ih =>
      rw [List.forall_mem_cons] at each
      obtain ⟨kept, first⟩ := each.1 heap start
      obtain ⟨keptRest, later⟩ := ih each.2 kept
      rw [List.mapM_cons]
      exact ⟨keptRest, List.forall_mem_cons.mpr ⟨first, later⟩⟩

/-- Whether a container was made since there were so many. -/
abbrev Since (base : Nat) (id : ContainerId) : Prop := base ≤ id.index

/-- Whether a heap has grown from another one by containers that hold nothing of it. -/
structure Adds (before after : Heap) : Prop where
  /-- What was there is unchanged. -/
  grows : before.Grows after
  /-- What is new holds nothing but what is new. -/
  encloses : after.Encloses (Since before.containers.size)

theorem Adds.refl (heap : Heap) : heap.Adds heap := by
  refine ⟨.refl heap, fun id new value member => ?_⟩
  rw [contents, container_of_size_le new] at member
  exact absurd member List.not_mem_nil

theorem Adds.newContainer {before after : Heap} (adds : before.Adds after) (owner : TrackerId)
    {contents : Contents}
    (apart : ∀ value ∈ contents.values, value.In (Since before.containers.size)) :
    before.Adds (after.newContainer owner contents).2 ∧
      before.containers.size ≤ (after.newContainer owner contents).1.index := by
  refine ⟨⟨adds.grows.trans (newContainer_grows after owner contents), ?_⟩, adds.grows.size_le⟩
  intro id new value member
  rw [Heap.contents, container_newContainer] at member
  split at member
  · exact apart value member
  · exact adds.encloses id new value member

theorem Adds.rebuild {before after : Heap} (adds : before.Adds after)
    {take : Value → StateM Heap Value} {contents : Contents}
    (each : ∀ value ∈ contents.values, ∀ heap, before.Adds heap →
      before.Adds (take value heap).2 ∧ (take value heap).1.In (Since before.containers.size)) :
    before.Adds (rebuild tracker take contents after).2 ∧
      before.containers.size ≤ (rebuild tracker take contents after).1.index := by
  cases contents with
  | array items named =>
      obtain ⟨taken, apart⟩ := mapM_yields
        (fun value member => each value (List.mem_append_left _ member)) adds
      refine taken.newContainer tracker fun value member => ?_
      rcases List.mem_append.mp member with item | property
      · exact apart value item
      · exact nomatch property
  | object properties =>
      let takeEntry (entry : Key × Value) : StateM Heap (Key × Value) := do
        return (entry.1, ← take entry.2)
      have eachEntry : ∀ entry ∈ properties.entries, ∀ heap, before.Adds heap →
          before.Adds (takeEntry entry heap).2 ∧
            (takeEntry entry heap).1.2.In (Since before.containers.size) :=
        fun entry member => each entry.2 (List.mem_map_of_mem member)
      have made : before.Adds (properties.entries.mapM takeEntry after).2 ∧
          ∀ entry ∈ (properties.entries.mapM takeEntry after).1,
            entry.2.In (Since before.containers.size) := mapM_yields eachEntry adds
      obtain ⟨taken, apart⟩ := made
      refine taken.newContainer tracker fun value member => ?_
      obtain ⟨entry, listed, rfl⟩ := List.mem_map.mp member
      exact apart entry (Assoc.mem_ofList listed)

theorem Adds.of_plain {before after : Heap} {value : Value} (plain : ∀ id, value ≠ .container id)
    (depth : Nat) (adds : before.Adds after) :
    before.Adds (Heap.adoptWithin tracker depth value after).2 ∧
      (Heap.adoptWithin tracker depth value after).1.In (Since before.containers.size) := by
  rw [adoptWithin_of_plain plain]
  exact ⟨adds, Value.in_of_plain plain⟩

/-- The copy of a value of another tracker shares nothing with what was there. -/
theorem Adds.adoptWithin {before : Heap} (closed : before.Closed) {other : TrackerId}
    (foreign : other ≠ tracker) (depth : Nat) {value : Value} (belongs : before.Belongs other value)
    {after : Heap} (adds : before.Adds after) :
    before.Adds (adoptWithin tracker depth value after).2 ∧
      (adoptWithin tracker depth value after).1.In (Since before.containers.size) := by
  have contents_eq {id : ContainerId} {after : Heap} (known : id.index < before.containers.size)
      (adds : before.Adds after) : after.contents id = before.contents id := by
    rw [Heap.contents, adds.grows.container id known, Heap.contents]
  have foreign_after {id : ContainerId} {after : Heap} (known : id.index < before.containers.size)
      (owned : before.owner id = other) (adds : before.Adds after) : after.owner id ≠ tracker := by
    have same : (before.container id).owner = other := owned
    rw [owner, adds.grows.container id known, same]
    exact foreign
  induction depth generalizing value after with
  | zero =>
      cases value with
      | container id =>
          obtain ⟨known, owned⟩ := belongs id rfl
          rw [adoptWithin_zero (foreign_after known owned adds)]
          exact ⟨adds, Value.in_of_plain (by simp)⟩
      | _ => exact Adds.of_plain (by simp) _ adds
  | succ depth ih =>
      cases value with
      | container id =>
          obtain ⟨known, owned⟩ := belongs id rfl
          rw [adoptWithin_succ (foreign_after known owned adds), contents_eq known adds]
          have inside : ∀ value ∈ (before.contents id).values, before.Belongs other value :=
            fun value member => owned ▸ closed id known value member
          have rebuilt : before.Adds
              (Heap.rebuild tracker (Heap.adoptWithin tracker depth) (before.contents id) after).2 ∧
              before.containers.size ≤ (Heap.rebuild tracker (Heap.adoptWithin tracker depth)
                (before.contents id) after).1.index :=
            adds.rebuild fun value member heap adds => ih (inside value member) adds
          exact ⟨rebuilt.1, Value.in_container.mpr rebuilt.2⟩
      | _ => exact Adds.of_plain (by simp) _ adds

/-! ## Nothing is cut off -/

/-- Whether containers nest in a value at most so deep. -/
def NestsWithin (heap : Heap) : Nat → Value → Prop
  | 0, value => ∀ id, value ≠ .container id
  | depth + 1, value => ∀ id, value = .container id →
      ∀ inner ∈ (heap.contents id).values, heap.NestsWithin depth inner

theorem nestsWithin_of_plain {heap : Heap} {value : Value} (plain : ∀ id, value ≠ .container id)
    (depth : Nat) : heap.NestsWithin depth value := by
  cases depth with
  | zero => exact plain
  | succ depth => exact fun id same => absurd same (plain id)

/-- Whether no container that one leads to holds itself, at once or further down. -/
def Acyclic (heap : Heap) (root : ContainerId) : Prop :=
  ∀ id other, heap.Reaches root id → .container other ∈ (heap.contents id).values →
    ¬heap.Reaches other id

/-- There are no cycles where containers hold only what was made before them. -/
theorem acyclic_of_descends {heap : Heap}
    (descends : ∀ id other, .container other ∈ (heap.contents id).values → other.index < id.index)
    (root : ContainerId) : heap.Acyclic root := by
  intro id other _ held back
  have below : id.index ≤ other.index := by
    have encloses : heap.Encloses fun id => id.index ≤ other.index := by
      intro id below value member inner same
      subst same
      exact Nat.le_trans (Nat.le_of_lt (descends id inner member)) below
    exact back.inside encloses (Nat.le_refl _)
  exact absurd (descends id other held) (by omega)

/-- Without cycles the containers on a way down are distinct, so there are no more of them than in
the heap. -/
theorem Acyclic.nestsWithin {heap : Heap} (closed : heap.Closed) {root : ContainerId}
    (acyclic : heap.Acyclic root) {depth : Nat} {path : List ContainerId} {id : ContainerId}
    (reached : heap.Reaches root id) (inside : id.index < heap.containers.size)
    (nodup : path.Nodup) (known : ∀ above ∈ path, above.index < heap.containers.size)
    (down : ∀ above ∈ path, ∃ other, .container other ∈ (heap.contents above).values ∧
      heap.Reaches root above ∧ heap.Reaches other id)
    (enough : heap.containers.size ≤ depth + path.length) :
    heap.NestsWithin depth (.container id) := by
  have missing : id ∉ path := by
    intro member
    obtain ⟨other, held, above, back⟩ := down id member
    exact acyclic id other above held back
  induction depth generalizing path id with
  | zero => exact absurd (mem_of_size_le_length nodup known (by omega) inside) missing
  | succ depth ih =>
      intro same equal inner member
      obtain rfl := Value.container.inj equal
      cases inner with
      | container child =>
          have below : ∀ above ∈ id :: path, ∃ other,
              .container other ∈ (heap.contents above).values ∧ heap.Reaches root above ∧
                heap.Reaches other child := by
            rw [List.forall_mem_cons]
            refine ⟨⟨child, member, reached, .root⟩, fun above listed => ?_⟩
            obtain ⟨other, held, reaches, leads⟩ := down above listed
            exact ⟨other, held, reaches, leads.step member⟩
          have distinct : (id :: path).Nodup := List.nodup_cons.mpr ⟨missing, nodup⟩
          have knownBelow : ∀ above ∈ id :: path, above.index < heap.containers.size :=
            List.forall_mem_cons.mpr ⟨inside, known⟩
          refine ih (reached.step member) (known_of_closed closed member child rfl) distinct
            knownBelow below ?_ fun listed => ?_
          · rw [List.length_cons]
            omega
          · obtain ⟨other, held, reaches, leads⟩ := below child listed
            exact acyclic child other reaches held leads
      | _ => exact nestsWithin_of_plain (by simp) depth

/-- A value without cycles nests no deeper than there are containers. -/
theorem Acyclic.nests {heap : Heap} (closed : heap.Closed) {root : ContainerId}
    (known : root.index < heap.containers.size) (acyclic : heap.Acyclic root) :
    heap.NestsWithin heap.containers.size (.container root) :=
  acyclic.nestsWithin closed .root known List.nodup_nil (fun _ member => nomatch member)
    (fun _ member => nomatch member) (Nat.le_refl _)

theorem bind_eq {α β : Type} {first second : StateM Heap α} {next later : α → StateM Heap β}
    {heap : Heap} (same : first heap = second heap)
    (sameNext : ∀ a, next a (second heap).2 = later a (second heap).2) :
    (first >>= next) heap = (second >>= later) heap := by
  change next (first heap).1 (first heap).2 = later (second heap).1 (second heap).2
  rw [same]
  exact sameNext _

theorem mapM_eq {α β : Type} {first second : α → StateM Heap β} {keeps : Heap → Prop}
    {list : List α} (same : ∀ a ∈ list, ∀ heap, keeps heap → first a heap = second a heap)
    (kept : ∀ a, Preserves keeps (second a)) {heap : Heap} (start : keeps heap) :
    list.mapM first heap = list.mapM second heap := by
  induction list generalizing heap with
  | nil => rfl
  | cons head rest ih =>
      rw [List.forall_mem_cons] at same
      rw [List.mapM_cons, List.mapM_cons]
      refine bind_eq (same.1 heap start) fun _ => ?_
      exact bind_eq (ih same.2 (kept head heap start)) fun _ => rfl

/-- Ways to take values that agree on what a container holds rebuild it alike. -/
theorem rebuild_eq {first second : Value → StateM Heap Value} {keeps : Heap → Prop}
    {contents : Contents}
    (same : ∀ value ∈ contents.values, ∀ heap, keeps heap → first value heap = second value heap)
    (kept : ∀ value, Preserves keeps (second value)) {heap : Heap} (start : keeps heap) :
    rebuild tracker first contents heap = rebuild tracker second contents heap := by
  cases contents with
  | array items named =>
      have items := fun value member => same value (List.mem_append_left _ member)
      exact bind_eq (mapM_eq items kept start) fun _ => rfl
  | object properties =>
      have entries : ∀ entry ∈ properties.entries, ∀ heap, keeps heap →
          (do return (entry.1, ← first entry.2) : StateM Heap (Key × Value)) heap =
            (do return (entry.1, ← second entry.2) : StateM Heap (Key × Value)) heap :=
        fun entry member heap keeps =>
          bind_eq (same entry.2 (List.mem_map_of_mem member) heap keeps) fun _ => rfl
      refine bind_eq (mapM_eq entries (fun entry => ?_) start) fun _ => rfl
      exact (kept entry.2).bind fun _ => .pure _

/-- A bound that is greater than the nesting of a value makes no difference. -/
theorem adoptWithin_of_nestsWithin {before : Heap} (closed : before.Closed) {depth more : Nat}
    (le : depth ≤ more) {value : Value} (known : before.Known value)
    (nests : before.NestsWithin depth value) {after : Heap} (grows : before.Grows after) :
    adoptWithin tracker more value after = adoptWithin tracker depth value after := by
  induction depth generalizing value more after with
  | zero => rw [adoptWithin_of_plain nests, adoptWithin_of_plain nests]
  | succ depth ih =>
      obtain ⟨more, rfl⟩ := Nat.exists_eq_add_of_le' (Nat.le_trans (Nat.le_add_left 1 depth) le)
      cases value with
      | container id =>
          by_cases own : after.owner id = tracker
          · rw [adoptWithin_of_owner own, adoptWithin_of_owner own]
          · have contents : after.contents id = before.contents id := by
              rw [Heap.contents, grows.container id (known id rfl), Heap.contents]
            rw [adoptWithin_succ own, adoptWithin_succ own, contents]
            have inside : ∀ inner ∈ (before.contents id).values, ∀ after, before.Grows after →
                adoptWithin tracker more inner after = adoptWithin tracker depth inner after :=
              fun inner member _ grows => ih (Nat.le_of_succ_le_succ le)
                (known_of_closed closed member) (nests id rfl inner member) grows
            have kept (inner : Value) := (adoptWithin_allocates tracker depth inner).preserves before
            have same : rebuild tracker (adoptWithin tracker more) (before.contents id) after =
                rebuild tracker (adoptWithin tracker depth) (before.contents id) after :=
              rebuild_eq inside kept grows
            exact congrArg (fun made => (Value.container made.1, made.2)) same
      | _ => rfl

/-! ## The copy -/

/-- What a foreign container without cycles is adopted as.  It is a copy that leads to new
containers only, and what was there stays as it was.  The bound on the nesting cuts nothing off. -/
structure CopiedBy (tracker : TrackerId) (heap : Heap) (root copy : ContainerId) (after : Heap) :
    Prop where
  /-- The copy is what adopting yields, with every bound that is great enough. -/
  adopted : ∀ depth, heap.containers.size ≤ depth →
    adoptWithin tracker depth (.container root) heap = (.container copy, after)
  /-- Everything that the copy leads to is new and belongs to the tracker. -/
  apart : ∀ id, after.Reaches copy id →
    heap.containers.size ≤ id.index ∧ id.index < after.containers.size ∧ after.owner id = tracker
  /-- What was there stays as it was. -/
  grows : heap.Grows after

theorem copiedBy_of_acyclic {heap : Heap} (closed : heap.Closed) {root : ContainerId}
    (known : root.index < heap.containers.size) (foreign : heap.owner root ≠ tracker)
    (acyclic : heap.Acyclic root) :
    ∃ copy after, heap.CopiedBy tracker root copy after := by
  have there : heap.Known (.container root) := fun id same => Value.container.inj same ▸ known
  have nests := acyclic.nests closed known
  have copied : ∃ copy after,
      adoptWithin tracker heap.containers.size (.container root) heap =
        (.container copy, after) := by
    obtain ⟨size, same⟩ := Nat.exists_eq_add_of_lt known
    rw [same, adoptWithin_succ foreign]
    exact ⟨_, _, rfl⟩
  obtain ⟨copy, after, copied⟩ := copied
  have belongs : heap.Belongs (heap.owner root) (.container root) :=
    fun id same => Value.container.inj same ▸ ⟨known, rfl⟩
  obtain ⟨adds, new⟩ := (Adds.refl heap).adoptWithin closed foreign heap.containers.size belongs
  obtain ⟨closedAfter, owned⟩ :=
    takes_adoptWithin tracker heap.containers.size heap (.container root) closed there
  rw [copied] at adds new closedAfter owned
  refine ⟨copy, after, fun depth le => ?_, fun id reaches => ?_, adds.grows⟩
  · rw [adoptWithin_of_nestsWithin closed le there nests (.refl heap), copied]
  · have inside : after.Encloses fun id => id.index < after.containers.size ∧
        after.owner id = tracker := by
      intro id member value held other same
      have belongs := closedAfter id member.1 value held other same
      exact ⟨belongs.1, belongs.2.trans member.2⟩
    exact ⟨reaches.inside adds.encloses (new copy rfl), reaches.inside inside (owned copy rfl)⟩

end Heap

end LiveMarkup
