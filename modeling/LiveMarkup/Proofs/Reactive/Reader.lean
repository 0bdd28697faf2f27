import LiveMarkup.Proofs.Reactive.Notification

/-!
# Effects that only read

A reader decides after each value that it has read what to read next, and in the end it yields a
result or fails.  As the body of an effect it writes down what it reads: the journal holds, for every
effect, the reads of its latest run.  The statements here say what one run of such an effect writes
down, and that this depends on nothing but the properties that it read.
-/

namespace LiveMarkup

/-- One read of a property with the value that it found. -/
structure Reading where
  /-- What was read. -/
  access : Access
  /-- What was found. -/
  value : Value
  deriving DecidableEq

/-- What each effect has read in its latest run, in order. -/
abbrev Journal := EffectId → List Reading

namespace Journal

/-- The journal in which nothing was read. -/
def blank : Journal := fun _ => []

/-- Forgets what an effect has read. -/
def clear (effect : EffectId) (journal : Journal) : Journal := fun other =>
  if other = effect then [] else journal other

/-- Adds to what an effect has read. -/
def note (effect : EffectId) (readings : List Reading) (journal : Journal) : Journal := fun other =>
  if other = effect then journal other ++ readings else journal other

theorem note_note (effect : EffectId) (first second : List Reading) (journal : Journal) :
    note effect second (note effect first journal) = note effect (first ++ second) journal := by
  funext other
  by_cases same : other = effect
  · simp [note, same]
  · simp [note, same]

theorem note_clear (effect other : EffectId) (readings : List Reading) (journal : Journal) :
    note effect readings (clear effect journal) other =
      if other = effect then readings else journal other := by
  by_cases same : other = effect
  · simp [note, clear, same]
  · simp [note, clear, same]

end Journal

/-- The reads that reading all items of an array is: its length and then every item. -/
def itemReadings (target : ContainerId) (items : List Value) : List Reading :=
  ⟨⟨target, .length⟩, .ofNat items.length⟩ ::
    items.mapIdx fun position item => ⟨⟨target, .index position⟩, item⟩

theorem map_access_itemReadings (target : ContainerId) (items : List Value) :
    (itemReadings target items).map Reading.access =
      ⟨target, .length⟩ :: (List.range items.length).map fun position => ⟨target, .index position⟩ := by
  rw [itemReadings, List.map_cons]
  refine congrArg _ (List.ext_getElem ?_ fun position _ _ => ?_)
  · simp
  · simp

theorem exists_itemReading {contents : Contents} {target : ContainerId} {key : Key}
    (isArray : contents.isArray = true) (counted : key ∈ Read.items.keys contents) :
    ∃ reading ∈ itemReadings target contents.listed, reading.access = ⟨target, key⟩ := by
  have listed : (⟨target, key⟩ : Access) ∈
      (itemReadings target contents.listed).map Reading.access := by
    rw [map_access_itemReadings]
    cases contents with
    | object properties => contradiction
    | array items named =>
        rcases List.mem_cons.mp counted with rfl | later
        · exact List.mem_cons_self
        · obtain ⟨position, below, rfl⟩ := List.mem_map.mp later
          refine List.mem_cons_of_mem _ (List.mem_map.mpr ⟨position, ?_, rfl⟩)
          rw [Contents.listed, List.length_map, Contents.length_listedKeys]
          exact below
  obtain ⟨reading, member, here⟩ := List.mem_map.mp listed
  exact ⟨reading, member, here⟩

/-- A body that only reads.  Lengths and items are read of arrays; what is no array is passed over. -/
inductive Reader where
  /-- Ends with a result or a fault. -/
  | done (result : Except Fault Value)
  /-- Reads a property. -/
  | get (target : ContainerId) (key : Key) (next : Value → Reader)
  /-- Reads the length of an array. -/
  | length (target : ContainerId) (next : Option Nat → Reader)
  /-- Reads all items of an array. -/
  | items (target : ContainerId) (next : Option (List Value) → Reader)

namespace Reader

/-- The reads of a reader as a computation that writes them down. -/
def body (effect : EffectId) : Reader → TaskM Journal Value
  | done result => TaskM.ofExcept result
  | get target key next => do
      let value ← TaskM.watch fun heap => heap.get target key
      TaskM.alter (Journal.note effect [⟨⟨target, key⟩, value⟩])
      (next value).body effect
  | length target next => do
      if ← TaskM.look fun heap => heap.isArray target then
        let length ← TaskM.watch fun heap => heap.length target
        TaskM.alter (Journal.note effect [⟨⟨target, .length⟩, .ofNat length⟩])
        (next (some length)).body effect
      else (next none).body effect
  | items target next => do
      if ← TaskM.look fun heap => heap.isArray target then
        let items ← TaskM.watch fun heap => heap.items target
        TaskM.alter (Journal.note effect (itemReadings target items))
        (next (some items)).body effect
      else (next none).body effect

/-- The body of an effect that reads: it starts a new page of the journal. -/
def program (effect : EffectId) (reader : Reader) : TaskM Journal Value := do
  TaskM.alter (Journal.clear effect)
  reader.body effect

/-- What a reader reads in a heap. -/
def readings (heap : Heap) : Reader → List Reading
  | done _ => []
  | get target key next =>
      ⟨⟨target, key⟩, heap.peek target key⟩ :: (next (heap.peek target key)).readings heap
  | length target next =>
      if heap.isArray target then
        ⟨⟨target, .length⟩, .ofNat (heap.contents target).count⟩ ::
          (next (some (heap.contents target).count)).readings heap
      else (next none).readings heap
  | items target next =>
      if heap.isArray target then
        itemReadings target (heap.contents target).listed ++
          (next (some (heap.contents target).listed)).readings heap
      else (next none).readings heap

/-- How a reader ends in a heap. -/
def result (heap : Heap) : Reader → Except Fault Value
  | done result => result
  | get target key next => (next (heap.peek target key)).result heap
  | length target next =>
      if heap.isArray target then (next (some (heap.contents target).count)).result heap
      else (next none).result heap
  | items target next =>
      if heap.isArray target then (next (some (heap.contents target).listed)).result heap
      else (next none).result heap

/-- Whether a reader reads only containers that it holds or has found in what it read before. -/
inductive Uses : (ContainerId → Prop) → Reader → Prop
  /-- Nothing is read. -/
  | done {held : ContainerId → Prop} (result : Except Fault Value) : Uses held (.done result)
  /-- A property of a container at hand is read. -/
  | get {held : ContainerId → Prop} {target : ContainerId} (key : Key) {next : Value → Reader}
      (known : held target)
      (later : ∀ value, Uses (fun id => held id ∨ value = .container id) (next value)) :
      Uses held (.get target key next)
  /-- The length of a container at hand is read. -/
  | length {held : ContainerId → Prop} {target : ContainerId} {next : Option Nat → Reader}
      (known : held target) (later : ∀ length, Uses held (next length)) :
      Uses held (.length target next)
  /-- The items of a container at hand are read. -/
  | items {held : ContainerId → Prop} {target : ContainerId} {next : Option (List Value) → Reader}
      (known : held target)
      (later : ∀ items, Uses (fun id => held id ∨ ∃ list, items = some list ∧ .container id ∈ list)
        (next items)) :
      Uses held (.items target next)

theorem Uses.mono {held more : ContainerId → Prop} {reader : Reader} (uses : reader.Uses held)
    (all : ∀ id, held id → more id) : reader.Uses more := by
  induction uses generalizing more with
  | done result => exact .done result
  | get key known later ih =>
      exact .get key (all _ known) fun value => ih value fun id => Or.imp_left (all id)
  | length known later ih => exact .length (all _ known) fun length => ih length all
  | items known later ih =>
      exact .items (all _ known) fun items => ih items fun id => Or.imp_left (all id)

/-- What a reader reads is the same in two heaps if all that it reads in the first is alike in the
second. -/
theorem readings_eq_of_alike {before after : Heap} {held : ContainerId → Prop} {reader : Reader}
    (keeps : before.Keeps after)
    (closed : ∀ id, ∀ value ∈ (before.contents id).values, before.Known value)
    (uses : reader.Uses held) (known : ∀ id, held id → id.index < before.containers.size)
    (alike : ∀ reading ∈ reader.readings before,
      reading.access.container.index < before.containers.size →
        (before.contents reading.access.container).Alike
          (after.contents reading.access.container) reading.access.key) :
    reader.readings after = reader.readings before := by
  induction uses with
  | done result => rfl
  | @get held target key next holds later ih =>
      have same : after.peek target key = before.peek target key :=
        (alike _ List.mem_cons_self (known target holds)).value
      have knownNext : ∀ id, held id ∨ before.peek target key = .container id →
          id.index < before.containers.size := by
        rintro id (old | found)
        · exact known id old
        · have inside : .container id ∈ (before.contents target).values :=
            Contents.mem_values_of_lookup found
          exact closed target _ inside id rfl
      rw [readings, readings, same, ih (before.peek target key) knownNext]
      exact fun reading member => alike reading (List.mem_cons_of_mem _ member)
  | @length held target next holds later ih =>
      rw [readings, readings, keeps.isArray target (known target holds)]
      rw [readings] at alike
      split
      next isArray =>
        rw [if_pos isArray] at alike
        have same : (after.contents target).count = (before.contents target).count :=
          (alike _ List.mem_cons_self (known target holds)).count isArray rfl
        rw [same, ih _ known]
        exact fun reading member => alike reading (List.mem_cons_of_mem _ member)
      next isObject =>
        rw [if_neg isObject] at alike
        exact ih none known alike
  | @items held target next holds later ih =>
      have kind := keeps.isArray target (known target holds)
      rw [readings, readings, kind]
      rw [readings] at alike
      split
      next isArray =>
        rw [if_pos isArray] at alike
        have same : (after.contents target).listed = (before.contents target).listed := by
          have answers := Read.answerOf_eq_of_alike .items isArray kind ?_
          · exact Answer.values.inj answers
          · intro key counted
            obtain ⟨reading, listed, here⟩ := exists_itemReading isArray counted
            have found := alike reading (List.mem_append_left _ listed)
            rw [here] at found
            exact found (known target holds)
        have knownNext : ∀ id, (held id ∨ ∃ list,
            some (before.contents target).listed = some list ∧ .container id ∈ list) →
              id.index < before.containers.size := by
          rintro id (old | ⟨list, found, member⟩)
          · exact known id old
          · obtain rfl := Option.some.inj found
            exact closed target _ (Contents.mem_values_of_mem_listed member) id rfl
        rw [same, ih _ knownNext]
        exact fun reading member => alike reading (List.mem_append_right _ member)
      next isObject =>
        rw [if_neg isObject] at alike
        refine ih none (fun id holding => ?_) alike
        rcases holding with old | ⟨_, none, _⟩
        · exact known id old
        · contradiction

end Reader

namespace World

/-- A world in which an effect has made some reads and written them down. -/
def recorded (effect : EffectId) (readings : List Reading) (world : World Journal) :
    World Journal where
  store := world.store.track (readings.map Reading.access).toArray
  surroundings := Journal.note effect readings world.surroundings
  bodies := world.bodies

theorem recorded_nil (effect : EffectId) (world : World Journal) :
    world.recorded effect [] = world := by
  have same : Journal.note effect [] world.surroundings = world.surroundings := by
    funext other
    simp [Journal.note]
  rw [recorded, same]
  rfl

theorem recorded_recorded (effect : EffectId) (first second : List Reading)
    (world : World Journal) :
    (world.recorded effect first).recorded effect second =
      world.recorded effect (first ++ second) := by
  simp only [recorded, Journal.note_note, ← Store.track_append]
  rw [List.map_append, List.append_toArray]

theorem heap_recorded (effect : EffectId) (readings : List Reading) (world : World Journal) :
    (world.recorded effect readings).store.heap = world.store.heap :=
  Store.heap_track _ _

theorem run_items_of_isArray {heap : Heap} {target : ContainerId}
    (isArray : heap.isArray target = true) :
    (heap.items target).run #[] =
      ((heap.contents target).listed,
        ((itemReadings target (heap.contents target).listed).map Reading.access).toArray) := by
  have counted : (heap.contents target).itemKeys.map (fun key => (⟨target, key⟩ : Access)) =
      (itemReadings target (heap.contents target).listed).map Reading.access := by
    rw [Contents.itemKeys_of_isArray isArray, map_access_itemReadings, Contents.listed,
      List.length_map, Contents.length_listedKeys, List.map_cons]
    cases holds : heap.contents target with
    | object properties =>
        rw [Heap.isArray, holds] at isArray
        contradiction
    | array items named => simp [Contents.listedKeys, Contents.count]
  rw [Heap.run_items, counted, Array.empty_append]

theorem interpret_watch {α : Type} {runner : Runner Journal} {world : World Journal}
    {computation : Heap → Watch α} {value : α} {effect : EffectId}
    (note : α → List Reading) (rest : α → TaskM Journal Value)
    (read : (computation world.store.heap).run #[] =
      (value, ((note value).map Reading.access).toArray)) :
    interpret runner (do
      let value ← TaskM.watch computation
      TaskM.alter (Journal.note effect (note value))
      rest value).toTask world =
      interpret runner (rest value).toTask (world.recorded effect (note value)) := by
  have step : interpret runner (do
      let value ← TaskM.watch computation
      TaskM.alter (Journal.note effect (note value))
      rest value).toTask world =
      interpret runner (rest ((computation world.store.heap).run #[]).1).toTask
        { world with
          store := world.store.track ((computation world.store.heap).run #[]).2
          surroundings := Journal.note effect
            (note ((computation world.store.heap).run #[]).1) world.surroundings } := rfl
  rw [step, read]
  rfl

theorem interpret_look_ite {runner : Runner Journal} {world : World Journal} (observe : Heap → Bool)
    (whenTrue whenFalse : TaskM Journal Value) :
    interpret runner (do if ← TaskM.look observe then whenTrue else whenFalse).toTask world =
      if observe world.store.heap then interpret runner whenTrue.toTask world
      else interpret runner whenFalse.toTask world := by
  have step : interpret runner (do if ← TaskM.look observe then whenTrue else whenFalse).toTask
      world = interpret runner (if observe world.store.heap then whenTrue else whenFalse).toTask
        world := rfl
  rw [step]
  split
  · rfl
  · rfl

/-- The run of a reader writes down its reads and counts them. -/
theorem interpret_body (runner : Runner Journal) (effect : EffectId) (reader : Reader)
    (world : World Journal) :
    interpret runner (reader.body effect).toTask world =
      (reader.result world.store.heap,
        world.recorded effect (reader.readings world.store.heap)) := by
  induction reader generalizing world with
  | done result =>
      rw [Reader.readings, recorded_nil]
      rfl
  | get target key next ih =>
      have read : ((world.store.heap.get target key).run #[]) =
          (world.store.heap.peek target key, #[⟨target, key⟩]) := rfl
      have step : interpret runner ((Reader.get target key next).body effect).toTask world =
          interpret runner ((next (world.store.heap.peek target key)).body effect).toTask
            (world.recorded effect [⟨⟨target, key⟩, world.store.heap.peek target key⟩]) := rfl
      rw [step, ih, heap_recorded, recorded_recorded]
      rfl
  | length target next ih =>
      cases kind : world.store.heap.isArray target with
      | false =>
          simp only [Reader.readings, Reader.result, kind, Bool.false_eq_true, if_false, ← ih]
          rw [Reader.body, interpret_look_ite, kind]
          rfl
      | true =>
          let count := (world.store.heap.contents target).count
          have step : interpret runner ((Reader.length target next).body effect).toTask world =
              interpret runner ((next (some count)).body effect).toTask
                (world.recorded effect [⟨⟨target, .length⟩, .ofNat count⟩]) := by
            rw [Reader.body, interpret_look_ite, kind]
            rfl
          rw [step, ih, heap_recorded, recorded_recorded]
          simp only [Reader.readings, Reader.result, kind, if_true]
          rfl
  | items target next ih =>
      cases kind : world.store.heap.isArray target with
      | false =>
          simp only [Reader.readings, Reader.result, kind, Bool.false_eq_true, if_false, ← ih]
          rw [Reader.body, interpret_look_ite, kind]
          rfl
      | true =>
          let listed := (world.store.heap.contents target).listed
          have step : interpret runner ((Reader.items target next).body effect).toTask world =
              interpret runner ((next (some listed)).body effect).toTask
                (world.recorded effect (itemReadings target listed)) := by
            rw [Reader.body, interpret_look_ite, kind, if_pos rfl]
            exact interpret_watch _ _ (run_items_of_isArray kind)
          rw [step, ih, heap_recorded, recorded_recorded]
          simp only [Reader.readings, Reader.result, kind, if_true]
          rfl

end World

end LiveMarkup
