import LiveMarkup.Proofs.Reactive.Storing

/-!
# What a history stores in a list

A history tells which values are stored in a list, each with the place it is stored at and with the
length that the list has then.  If no value is stored behind the end of the list, the list grows by
one item at most for each of them, and nothing is overwritten exactly if it grows by one for each of
them.
-/

namespace LiveMarkup

/-! ## Rows that are merged -/

/-- Whether a row is made of two others, each of them in its order. -/
inductive Interleaves {α : Type} : List α → List α → List α → Prop
  /-- Nothing is left. -/
  | nil : Interleaves [] [] []
  /-- The next one is from the first row. -/
  | left {a : α} {first second both : List α} (rest : Interleaves first second both) :
      Interleaves (a :: first) second (a :: both)
  /-- The next one is from the second row. -/
  | right {a : α} {first second both : List α} (rest : Interleaves first second both) :
      Interleaves first (a :: second) (a :: both)

namespace Interleaves

variable {α β : Type}

theorem length_eq {first second both : List α} (merged : Interleaves first second both) :
    both.length = first.length + second.length := by
  induction merged with
  | nil => rfl
  | left _ ih =>
      simp only [List.length_cons, ih]
      omega
  | right _ ih =>
      simp only [List.length_cons, ih]
      omega

/-- A row is made of those that pass a test and those that do not. -/
theorem of_filter (test : α → Bool) (f : α → β) (list : List α) :
    Interleaves ((list.filter test).map f) ((list.filter fun a => !test a).map f) (list.map f) := by
  induction list with
  | nil => exact .nil
  | cons head rest ih =>
      cases passes : test head with
      | true =>
          simp only [List.filter_cons, passes]
          exact .left ih
      | false =>
          simp only [List.filter_cons, passes]
          exact .right ih

end Interleaves

/-! ## Values that are stored -/

/-- A value that has been stored in a list. -/
structure Addition where
  /-- What had been entered, innermost first. -/
  frames : List Frame
  /-- The place. -/
  position : Nat
  /-- What has been stored. -/
  value : Value
  /-- The length of the list before. -/
  length : Nat

namespace Addition

/-- Whether storing values one after another leads from some items to others, with each place
fitting the length that the list has then. -/
inductive Fills (fits : Nat → Nat → Prop) : Array Value → List Addition → Array Value → Prop
  /-- Nothing is stored. -/
  | nil {items : Array Value} : Fills fits items [] items
  /-- A value is stored first. -/
  | cons {items final : Array Value} {addition : Addition} {rest : List Addition}
      (length : addition.length = items.size) (place : fits addition.position items.size)
      (later : Fills fits (Contents.storeItem items addition.position addition.value) rest final) :
      Fills fits items (addition :: rest) final

namespace Fills

variable {fits : Nat → Nat → Prop} {items between final : Array Value}
  {additions more : List Addition}

theorem append (first : Fills fits items additions between) (second : Fills fits between more final) :
    Fills fits items (additions ++ more) final := by
  induction first with
  | nil => exact second
  | cons length place _ ih => exact .cons length place (ih second)

theorem mono {weaker : Nat → Nat → Prop} (fills : Fills fits items additions final)
    (weaken : ∀ position length, fits position length → weaker position length) :
    Fills weaker items additions final := by
  induction fills with
  | nil => exact .nil
  | cons length place _ ih => exact .cons length (weaken _ _ place) ih

/-- What fits does so for every value that is stored. -/
theorem place (fills : Fills fits items additions final) :
    ∀ addition ∈ additions, fits addition.position addition.length := by
  induction fills with
  | nil => exact fun _ listed => absurd listed List.not_mem_nil
  | cons length place _ ih => exact List.forall_mem_cons.mpr ⟨length ▸ place, ih⟩

/-- The list never shrinks. -/
theorem size_le (fills : Fills fits items additions final) : items.size ≤ final.size := by
  induction fills with
  | nil => exact Nat.le_refl _
  | cons _ _ _ ih =>
      rw [Contents.size_storeItem] at ih
      exact Nat.le_trans (Nat.le_max_left _ _) ih

/-- Every place that has been stored at lies in the list then. -/
theorem position_lt (fills : Fills fits items additions final) :
    ∀ addition ∈ additions, addition.position < final.size := by
  induction fills with
  | nil => exact fun _ listed => absurd listed List.not_mem_nil
  | cons _ _ later ih =>
      have long := later.size_le
      rw [Contents.size_storeItem] at long
      exact List.forall_mem_cons.mpr ⟨by omega, ih⟩

section Within

variable (within : ∀ position length, fits position length → position ≤ length)

include within

/-- Nothing is stored behind the end, so a value makes the list longer by one at most. -/
theorem size_le_add (fills : Fills fits items additions final) :
    final.size ≤ items.size + additions.length := by
  induction fills with
  | nil => exact Nat.le_refl _
  | cons _ place _ ih =>
      have inside := within _ _ place
      rw [Contents.size_storeItem] at ih
      rw [List.length_cons]
      omega

/-- If the list is longer by one for every value, all of them have been stored at its end. -/
theorem at_end_of_size (fills : Fills fits items additions final)
    (size : final.size = items.size + additions.length) :
    ∀ addition ∈ additions, addition.position = addition.length := by
  induction fills with
  | nil => exact fun _ listed => absurd listed List.not_mem_nil
  | cons length place later ih =>
      have inside := within _ _ place
      have bounded := later.size_le_add within
      rw [List.length_cons] at size
      rw [Contents.size_storeItem] at ih bounded
      refine List.forall_mem_cons.mpr ⟨?_, ih ?_⟩
      · omega
      · omega

/-- Items in front of all places stay as they are. -/
theorem keeps_front {old : List Value} (behind : ∀ position length, fits position length →
    old.length ≤ position) (fills : Fills fits items additions final) (front : old <+: items.toList) :
    old <+: final.toList := by
  induction fills with
  | nil => exact front
  | @cons items _ addition _ length place later ih =>
      apply ih
      have inside := within _ _ place
      have beyond := behind _ _ place
      rcases Nat.lt_or_eq_of_le inside with overwrites | appends
      · obtain ⟨rest, split⟩ := front
        rw [Contents.storeItem, dif_pos overwrites, Array.toList_set, ← split, List.set_append,
          if_neg (Nat.not_lt_of_le beyond)]
        exact List.prefix_append _ _
      · rw [appends, Contents.storeItem_end, Array.toList_push]
        exact front.trans (List.prefix_append _ _)

end Within

/-- Values that are stored at the end are appended. -/
theorem of_at_end (fills : Fills fits items additions final)
    (atEnd : ∀ addition ∈ additions, addition.position = addition.length) :
    final = items ++ (additions.map Addition.value).toArray := by
  induction fills with
  | nil => simp
  | @cons items _ addition rest length _ _ ih =>
      rw [List.forall_mem_cons] at atEnd
      rw [ih atEnd.2, atEnd.1, length, Contents.storeItem_end]
      simp

end Fills

end Addition

/-! ## Histories -/

namespace Point

variable {σ : Type} {list : ContainerId}

/-- What a point is about to store in a list, unless the list refuses it. -/
def adds? (list : ContainerId) (point : Point σ) : Option Addition :=
  match point.work with
  | .task (.write target (.index position) value _) =>
      if target = list ∧ (point.world.store.put target (.index position) value).1.isOk then
        some ⟨point.frames, position,
          (point.world.store.perform (.adopt (point.world.store.heap.owner list) value)).1,
          (point.world.store.heap.contents list).count⟩
      else none
  | _ => none

theorem Ends.adds? {point : Point σ} {result : Except Fault Value} {after : World σ}
    (ends : point.Ends result after) (list : ContainerId) : point.adds? list = none := by
  cases ends <;> rfl

theorem Goes.adds? {point next : Point σ} (goes : point.Goes next) (list : ContainerId) :
    point.adds? list = none := by
  cases goes with
  | @refuse _ target key value next world fault store refused =>
      cases key with
      | name text => rfl
      | index position =>
          simp only [Point.adds?, refused]
          exact if_neg fun both => Bool.false_ne_true both.2
  | _ => rfl

theorem adds?_write (frames : List Frame) {position : Nat} {value : Value}
    (next : Except ReactiveFault Unit → Task σ) {world : World σ} {changed : List Access}
    {store : Store} (accepted : world.store.put list (.index position) value = (.ok changed, store)) :
    adds? list ⟨frames, .task (.write list (.index position) value next), world⟩ =
      some ⟨frames, position, (world.store.perform (.adopt (world.store.heap.owner list) value)).1,
        (world.store.heap.contents list).count⟩ := by
  simp only [adds?, accepted]
  exact if_pos ⟨trivial, rfl⟩

theorem frames_of_adds? {point : Point σ} {addition : Addition}
    (adds : point.adds? list = some addition) :
    addition.frames = point.frames ∧
      ∃ task, point.work = .task task ∧ ∀ result, task ≠ .done result := by
  unfold Point.adds? at adds
  split at adds
  next target position value next work =>
    split at adds
    · obtain rfl := Option.some.inj adds
      exact ⟨rfl, _, work, fun result same => by cases same⟩
    · cases adds
  next => cases adds

/-- Whether some frames have been entered, and more of them wherever a task has something to do. -/
def Behind (frames : List Frame) (point : Point σ) : Prop :=
  frames.length ≤ point.frames.length ∧
    ∀ task, point.work = .task task → (∀ result, task ≠ .done result) →
      frames.length < point.frames.length

/-- What is run for a write has been entered behind it. -/
theorem Runs.behind {frames : List Frame} {point : Point σ} {passed : List (Point σ)}
    {result : Except Fault Value} {after : World σ} (runs : point.Runs passed result after)
    (start : point.Behind frames) : ∀ inner ∈ passed, inner.Behind frames := by
  refine (runs.keeps (Behind frames) (fun _ => True) (fun _ _ => trivial) ?_ ?_ ?_ start).1
  · intro point next goes behind
    have longer : frames.length < point.frames.length := by
      cases goes <;> exact behind.2 _ rfl (by simp)
    rw [← goes.frames_eq] at longer
    exact ⟨Nat.le_of_lt longer, fun _ _ _ => longer⟩
  · intro point callee resume calls behind
    cases calls with
    | begin free => exact ⟨Nat.le_succ_of_le behind.1, fun _ _ _ => Nat.lt_succ_of_le behind.1⟩
    | untracked => exact ⟨Nat.le_succ_of_le behind.1, fun _ _ _ => Nat.lt_succ_of_le behind.1⟩
    | write | pop | run | attempts | tell => exact ⟨behind.1, fun task same => by cases same⟩
  · intro point callee resume outcome between calls behind _ _
    have le := behind.1
    rw [← calls.frames_eq outcome between] at le
    refine ⟨le, fun task same busy => ?_⟩
    cases calls with
    | begin free =>
        cases same
        exact absurd rfl (busy outcome)
    | attempts | tell => cases same
    | write | pop | run | untracked => exact behind.2 _ rfl (by simp)

/-- The values that are stored while readers run for a write are not those of its caller. -/
theorem Runs.frames_ne_of_tell {frames : List Frame} {changed : List Access} {world after : World σ}
    {passed : List (Point σ)} {result : Except Fault Value}
    (runs : Runs ⟨frames, .tell changed, world⟩ passed result after) :
    ∀ addition ∈ passed.filterMap (adds? list), addition.frames ≠ frames := by
  intro addition listed same
  obtain ⟨point, member, adds⟩ := List.mem_filterMap.mp listed
  obtain ⟨frames_eq, task, work, busy⟩ := frames_of_adds? adds
  have begins : Behind frames ⟨frames, .tell changed, world⟩ :=
    ⟨Nat.le_refl _, fun task same => by cases same⟩
  have longer := (runs.behind begins point member).2 task work busy
  rw [← frames_eq, same] at longer
  exact Nat.lt_irrefl _ longer

/-- What a point stores comes before what the run that it calls stores, and this before the rest. -/
theorem filterMap_adds?_cons (list : ContainerId) (point : Point σ) (inside passed : List (Point σ)) :
    (point :: (inside ++ passed)).filterMap (adds? list) =
      (point.adds? list).toList ++
        (inside.filterMap (adds? list) ++ passed.filterMap (adds? list)) := by
  rw [List.filterMap_cons, List.filterMap_append]
  cases point.adds? list <;> rfl

/-- Whether a run from a point stores some values in a list, and ends. -/
def Stores (list : ContainerId) (point : Point σ) (additions : List Addition)
    (result : Except Fault Value) (after : World σ) : Prop :=
  ∃ passed, point.Runs passed result after ∧ passed.filterMap (adds? list) = additions

section Stores

variable {point next callee : Point σ} {resume : Except Fault Value → World σ → Point σ}
  {additions more : List Addition} {outcome result : Except Fault Value} {between after : World σ}

theorem Stores.ends (ends : point.Ends result after) : point.Stores list [] result after :=
  ⟨_, .ends ends, List.filterMap_cons_none (ends.adds? list)⟩

theorem Stores.goes (goes : point.Goes next) (later : next.Stores list additions result after) :
    point.Stores list additions result after := by
  obtain ⟨passed, runs, adds⟩ := later
  exact ⟨_, .goes goes runs, (List.filterMap_cons_none (goes.adds? list)).trans adds⟩

theorem Stores.calls (calls : point.Calls callee resume)
    (called : callee.Stores list additions outcome between)
    (later : (resume outcome between).Stores list more result after) :
    point.Stores list ((point.adds? list).toList ++ (additions ++ more)) result after := by
  obtain ⟨inside, callee, adds⟩ := called
  obtain ⟨passed, runs, addsLater⟩ := later
  refine ⟨_, .calls calls callee runs, ?_⟩
  rw [filterMap_adds?_cons, adds, addsLater]

/-- A write that is taken stores its value first. -/
theorem Stores.write {frames : List Frame} {position : Nat} {value : Value} {world : World σ}
    {changed : List Access} {store : Store} (next : Except ReactiveFault Unit → Task σ)
    (accepted : world.store.put list (.index position) value = (.ok changed, store))
    (told : Stores list ⟨frames, .tell changed, { world with store := store }⟩ additions outcome between)
    (later : Stores list ⟨frames, .task (next (.ok ())), between⟩ more result after) :
    Stores list ⟨frames, .task (.write list (.index position) value next), world⟩
      (⟨frames, position, (world.store.perform (.adopt (world.store.heap.owner list) value)).1,
        (world.store.heap.contents list).count⟩ :: (additions ++ more)) result after := by
  have stores := Stores.calls (.write accepted) told later
  rw [adds?_write frames next accepted] at stores
  exact stores

/-- Telling of changes that nobody has read stores nothing. -/
theorem tell_stores_of_unread (frames : List Frame) {changed : List Access} {world : World σ}
    (unread : ∀ access ∈ changed, world.store.dependents access = []) :
    Stores list ⟨frames, .tell changed, world⟩ [] (.ok .undefined) world := by
  induction changed with
  | nil => exact .ends .told
  | cons access rest ih =>
      rw [List.forall_mem_cons] at unread
      have calls : Calls ⟨frames, .tell (access :: rest), world⟩ _ _ := .tell
      rw [unread.1] at calls
      exact .calls calls (.ends .attempted) (ih unread.2)

end Stores

end Point

end LiveMarkup
