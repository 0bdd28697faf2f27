import LiveMarkup.Proofs.Heap.Reads
import LiveMarkup.Proofs.Reactive.Run

/-!
# Which readers a write runs

A write that is made outside every effect runs the effects that have read what the write tells about.
The central result compares, for each way to read a container and each way to write to it, what the
write changes with what it tells about.  An answer that changes is told about, with three exceptions:
an item that is cut off when an array is given a shorter length, the number of properties of an
object that gets a new one, and the list of its properties.
-/

namespace LiveMarkup

namespace Read

/-- Whether a write under a key does not tell a reader about the change from one contents to
another: the reader has read an item that was cut off, or has counted or listed the properties of an
object that has a new one. -/
def Missed (key : Key) (before after : Contents) : Read → Prop
  | get (.index position) => before.isArray = true ∧ key = .length ∧ after.count ≤ position
  | get (.name _) => False
  | length => before.isArray = false ∧ key ≠ .length ∧ before.contains key = false
  | items => before.isArray = false ∧ before.contains key = false

theorem answerOf_eq_of_store {key : Key} {value : Value} {before after : Contents} {read : Read}
    (stored : before.store key value = .ok after) (missed : ¬read.Missed key before after)
    (unread : key ∉ read.keys before)
    (counted : before.isArray = true → .length ∈ read.keys before → after.count = before.count) :
    read.answerOf after = read.answerOf before := by
  have kind := Contents.isArray_store stored
  have unlike {other : Key} (member : other ∈ read.keys before) : other ≠ key :=
    fun same => unread (same ▸ member)
  cases holds : before.isArray with
  | true =>
      refine answerOf_eq_of_alike read holds kind fun other member => ?_
      refine Contents.alike_of_store stored (unlike member) fun _ isLength => ?_
      exact counted holds (isLength ▸ member)
  | false =>
      cases read with
      | get other =>
          have alike := Contents.lookup_store stored (unlike List.mem_cons_self) (.inr holds)
          rw [answerOf, alike, answerOf]
      | length =>
          have present : before.contains key = true := by
            cases there : before.contains key with
            | true => rfl
            | false =>
                refine absurd ⟨holds, fun isLength => ?_, there⟩ missed
                exact unlike List.mem_cons_self isLength.symm
          cases before with
          | array items named => contradiction
          | object properties =>
              obtain rfl := Except.ok.inj stored
              have size := Assoc.size_insert properties key value
              change properties.contains key = true at present
              rw [if_pos present] at size
              exact congrArg Answer.count size
      | items =>
          cases before with
          | array items named => contradiction
          | object properties =>
              refine absurd ⟨holds, ?_⟩ missed
              refine Bool.eq_false_iff.mpr fun present => unread ?_
              exact (Assoc.contains_iff properties key).mp present

theorem answerOf_eq_of_resize {length : Nat} {before : Contents} {read : Read}
    (isArray : before.isArray = true)
    (missed : ¬read.Missed .length before (before.setLength length))
    (unread : .length ∉ read.keys before) :
    read.answerOf (before.setLength length) = read.answerOf before := by
  cases before with
  | object properties => contradiction
  | array items named =>
      cases read with
      | length => exact absurd List.mem_cons_self unread
      | items => exact absurd List.mem_cons_self unread
      | get other =>
          cases other with
          | name text =>
              have ordinary : (Key.name text).isLength = false := by
                refine Bool.eq_false_iff.mpr fun isLength => unread ?_
                rw [Contents.eq_length_of_isLength isLength]
                exact List.mem_cons_self
              simp [answerOf, Contents.setLength, Contents.lookup, ordinary]
          | index position =>
              have below : position < length := by
                refine Nat.lt_of_not_le fun cut => missed ⟨isArray, rfl, ?_⟩
                rw [Contents.setLength, Contents.count, Contents.size_resize]
                exact cut
              simp only [answerOf, Contents.setLength, Contents.lookup, Contents.getElem?_resize,
                if_pos below]

end Read

namespace Store

theorem mem_told {id : ContainerId} {key : Key} {before after : Contents} {access : Access} :
    access ∈ told id key before after ↔
      access = ⟨id, key⟩ ∨ access = ⟨id, .length⟩ ∧ before.isArray = true ∧
        before.count ≠ after.count ∧ key.isLength = false := by
  rw [told, List.mem_cons]
  split
  next changes => simp_all
  next same => simp_all

/-- A change of an answer that is not missed is told about. -/
theorem told_of_answerOf_ne (id : ContainerId) {key : Key} {value : Value}
    {before after : Contents} {read : Read} (written : Contents.Written key value before after)
    (differs : read.answerOf after ≠ read.answerOf before)
    (missed : ¬read.Missed key before after) :
    ∃ access ∈ told id key before after, access.container = id ∧
      access.key ∈ read.keys before := by
  by_cases direct : key ∈ read.keys before
  · exact ⟨⟨id, key⟩, mem_told.mpr (.inl rfl), rfl, direct⟩
  · cases written with
    | resize length isLength isArray =>
        subst isLength
        exact absurd (Read.answerOf_eq_of_resize isArray missed direct) differs
    | store ordinary stored =>
        by_cases counted : before.isArray = true ∧ .length ∈ read.keys before ∧
            before.count ≠ after.count
        · obtain ⟨isArray, reads, changes⟩ := counted
          have notLength : key.isLength = false := ordinary.resolve_right (by simp [isArray])
          exact ⟨⟨id, .length⟩, mem_told.mpr (.inr ⟨rfl, isArray, changes, notLength⟩), rfl, reads⟩
        · refine absurd (Read.answerOf_eq_of_store stored missed direct ?_) differs
          intro isArray reads
          exact Decidable.byContradiction fun changes =>
            counted ⟨isArray, reads, fun same => changes same.symm⟩

/-- A change that is missed is not told about. -/
theorem not_told_of_missed {id : ContainerId} {key : Key} {before after : Contents} {read : Read}
    (missed : read.Missed key before after) :
    ∀ access ∈ told id key before after, access.key ∉ read.keys before := by
  intro access member reads
  cases read with
  | get other =>
      cases other with
      | name text => exact missed
      | index position =>
          obtain ⟨_, isLength, _⟩ := missed
          obtain rfl | ⟨rfl, _⟩ := mem_told.mp member
          · rw [isLength] at reads
            simp [Read.keys, Key.length] at reads
          · simp [Read.keys, Key.length] at reads
  | length =>
      obtain ⟨isObject, notLength, _⟩ := missed
      obtain rfl | ⟨_, isArray, _⟩ := mem_told.mp member
      · exact notLength (List.mem_singleton.mp reads)
      · rw [isObject] at isArray
        contradiction
  | items =>
      obtain ⟨isObject, absent⟩ := missed
      obtain rfl | ⟨_, isArray, _⟩ := mem_told.mp member
      · cases before with
        | array items named => contradiction
        | object properties =>
            have present := (Assoc.contains_iff properties key).mpr reads
            exact Bool.false_ne_true (absent.symm.trans present)
      · rw [isObject] at isArray
        contradiction

/-- What taking the last item away changes is told about. -/
theorem told_of_pop {id : ContainerId} {position : Nat} {last : Value} {before after : Contents}
    {read : Read} (popped : before.pop? = some (position, last, after))
    (differs : read.answerOf after ≠ read.answerOf before) :
    ∃ access ∈ [(⟨id, .index position⟩ : Access), ⟨id, .length⟩], access.container = id ∧
      access.key ∈ read.keys before := by
  by_cases item : .index position ∈ read.keys before
  · exact ⟨⟨id, .index position⟩, List.mem_cons_self, rfl, item⟩
  · by_cases length : .length ∈ read.keys before
    · exact ⟨⟨id, .length⟩, List.mem_cons_of_mem _ List.mem_cons_self, rfl, length⟩
    · have isArray : before.isArray = true := by
        cases before with
        | array items named => rfl
        | object properties => contradiction
      refine absurd (Read.answerOf_eq_of_alike read isArray (isArray_pop popped) ?_) differs
      exact fun key member => Contents.alike_of_pop popped
        (fun same => item (same ▸ member)) fun same => length (same ▸ member)

end Store

/-! ## Writes from the outside -/

/-- The ways to write to a container. -/
inductive Write where
  /-- Writes a property; a refusal is reported. -/
  | set (key : Key) (value : Value)
  /-- Writes a property; a refusal is passed on. -/
  | trySet (key : Key) (value : Value)
  /-- Appends to an array. -/
  | push (value : Value)
  /-- Removes the last item of an array. -/
  | pop
  deriving DecidableEq

namespace Write

/-- The computation that a write is. -/
def perform {σ : Type} (id : ContainerId) : Write → TaskM σ Value
  | set key value => do
      TaskM.set id key value
      return .undefined
  | trySet key value => do
      match ← TaskM.tryWrite id key value with
      | .ok () => return .undefined
      | .error fault => TaskM.fail (.reactive fault)
  | push value => do return Value.ofNat (← TaskM.push id value)
  | pop => TaskM.pop id

/-- What is told about by a write that is not refused, and the state in which it has stored but no
effect has run. -/
def stored? (store : Store) (id : ContainerId) : Write → Option (List Access × Store)
  | set key value | trySet key value => accepted? (store.put id key value)
  | push value =>
      match store.heap.contents id with
      | .array items _ => accepted? (store.put id (.index items.size) value)
      | .object _ => some ([], store)
  | pop => some (store.takeLast id).2
where
  /-- What a write has stored if it was not refused. -/
  accepted? : Except ReactiveFault (List Access) × Store → Option (List Access × Store)
    | (.ok changed, after) => some (changed, after)
    | (.error _, _) => none

/-- The key that a write names. -/
def key? : Write → Option Key
  | set key _ | trySet key _ => some key
  | push _ | pop => none

/-- The value that a write hands over. -/
def value? : Write → Option Value
  | set _ value | trySet _ value | push value => some value
  | pop => none

/-- Whether a write misses a reader of what it changes. -/
def Misses (write : Write) (read : Read) (before after : Contents) : Prop :=
  ∃ key, write.key? = some key ∧ read.Missed key before after

theorem put_of_accepted {result : Except ReactiveFault (List Access) × Store}
    {changed : List Access} {after : Store} (accepted : stored?.accepted? result = some (changed, after)) :
    result = (.ok changed, after) := by
  cases result with
  | mk outcome store =>
      cases outcome with
      | error fault => contradiction
      | ok told =>
          simp only [stored?.accepted?, Option.some.injEq, Prod.mk.injEq] at accepted
          rw [accepted.1, accepted.2]

/-- What a write that is not refused does to the store: it puts a value under a key, which is the
next index when it appends to an array; it takes the last item away; or it does nothing. -/
theorem stored?_cases {store after : Store} {id : ContainerId} {write : Write}
    {changed : List Access} (accepted : write.stored? store id = some (changed, after)) :
    (∃ key value, store.put id key value = (.ok changed, after) ∧ write.value? = some value ∧
      (write.key? = some key ∨ write.key? = none ∧ store.heap.isArray id = true ∧
        ∃ position, key = .index position)) ∨
    (write.key? = none ∧ (changed, after) = (store.takeLast id).2) ∨
    (write.key? = none ∧ changed = [] ∧ after = store) := by
  cases write with
  | set key value => exact .inl ⟨key, value, put_of_accepted accepted, rfl, .inl rfl⟩
  | trySet key value => exact .inl ⟨key, value, put_of_accepted accepted, rfl, .inl rfl⟩
  | push value =>
      simp only [stored?] at accepted
      split at accepted
      next items named holds =>
        have isArray : store.heap.isArray id = true := by
          rw [Heap.isArray, holds]
          rfl
        exact .inl ⟨.index items.size, value, put_of_accepted accepted, rfl,
          .inr ⟨rfl, isArray, items.size, rfl⟩⟩
      next properties holds =>
        obtain ⟨rfl, rfl⟩ := Prod.mk.inj (Option.some.inj accepted)
        exact .inr (.inr ⟨rfl, rfl, rfl⟩)
  | pop => exact .inr (.inl ⟨rfl, (Option.some.inj accepted).symm⟩)

/-- An answer that a write changes is told about unless the write misses its reader. -/
theorem told_of_answer_ne {store after : Store} {id : ContainerId} {write : Write} {read : Read}
    {changed : List Access} (known : id.index < store.heap.containers.size)
    (accepted : write.stored? store id = some (changed, after))
    (differs : read.answer after.heap id ≠ read.answer store.heap id)
    (found : ¬write.Misses read (store.heap.contents id) (after.heap.contents id)) :
    ∃ access ∈ changed, access ∈ read.accesses store.heap id := by
  simp only [Read.answer_eq] at differs
  suffices told : ∃ access ∈ changed, access.container = id ∧
      access.key ∈ read.keys (store.heap.contents id) by
    obtain ⟨access, listed, here, counted⟩ := told
    exact ⟨access, listed, Read.mem_accesses.mpr ⟨here, counted⟩⟩
  rcases stored?_cases accepted with ⟨key, value, stored, _, named⟩ | ⟨_, taken⟩ | ⟨_, _, rfl⟩
  · obtain ⟨put⟩ := Store.put_ok stored
    have written := put.written
    rw [put.contents_before known, ← put.contents_after known] at written
    have missed : ¬read.Missed key (store.heap.contents id) (after.heap.contents id) := by
      rcases named with named | ⟨_, isArray, position, rfl⟩
      · exact fun missed => found ⟨key, named, missed⟩
      · rw [Heap.isArray] at isArray
        cases read with
        | get other =>
            cases other with
            | name text => exact fun missed => missed
            | index other =>
                rintro ⟨_, isLength, _⟩
                contradiction
        | length => exact fun missed => Bool.false_ne_true (missed.1.symm.trans isArray)
        | items => exact fun missed => Bool.false_ne_true (missed.1.symm.trans isArray)
    obtain ⟨access, listed, counted⟩ :=
      Store.told_of_answerOf_ne id written differs missed
    refine ⟨access, ?_, counted⟩
    rw [put.changed_eq, put.contents_before known, ← put.contents_after known]
    exact listed
  · rcases Store.takeLast_cases store id with nothing | ⟨position, last, rest, popped, popping⟩
    · rw [nothing] at taken
      obtain ⟨_, rfl⟩ := Prod.mk.inj taken
      exact absurd rfl differs
    · rw [popping] at taken
      obtain ⟨rfl, rfl⟩ := Prod.mk.inj taken
      refine Store.told_of_pop popped fun same => differs ?_
      rw [Store.setContents, Heap.contents_setContents known]
      exact same
  · exact absurd rfl differs

/-- A reader that a write misses is told about nothing. -/
theorem not_told_of_misses {store after : Store} {id : ContainerId} {write : Write} {read : Read}
    {changed : List Access} (known : id.index < store.heap.containers.size)
    (accepted : write.stored? store id = some (changed, after))
    (misses : write.Misses read (store.heap.contents id) (after.heap.contents id)) :
    ∀ access ∈ changed, access ∉ read.accesses store.heap id := by
  obtain ⟨key, named, missed⟩ := misses
  rcases stored?_cases accepted with ⟨other, value, stored, _, naming⟩ | ⟨unnamed, _⟩ | ⟨unnamed, _⟩
  · obtain ⟨put⟩ := Store.put_ok stored
    have same : other = key := by
      rcases naming with naming | ⟨unnamed, _⟩
      · exact Option.some.inj (naming.symm.trans named)
      · rw [named] at unnamed
        contradiction
    intro access listed counted
    rw [put.changed_eq, put.contents_before known, ← put.contents_after known, same] at listed
    exact Store.not_told_of_missed missed access listed (Read.mem_accesses.mp counted).2
  · rw [named] at unnamed
    contradiction
  · rw [named] at unnamed
    contradiction

end Write

namespace World

variable {σ : Type}

/-- Whether no effect of a tracker is running and one may still start. -/
structure Outside (world : World σ) (tracker : TrackerId) : Prop where
  /-- No frame belongs to an effect. -/
  idle : ∀ effect, some effect ∉ (world.store.tracker tracker).stack
  /-- The limit on nested frames is not reached. -/
  room : (world.store.tracker tracker).stack.length <
    (world.store.tracker tracker).config.maxEffectDepth

theorem Outside.of_extends {world after : World σ} {tracker : TrackerId}
    (outside : world.Outside tracker) (extends_ : world.Extends after) :
    after.Outside tracker where
  idle effect := by
    rw [extends_.stack]
    exact outside.idle effect
  room := by
    rw [extends_.stack, extends_.store.config]
    exact outside.room

theorem Outside.refusal?_eq {world : World σ} {tracker : TrackerId}
    (outside : world.Outside tracker) (effect : EffectId) :
    world.refusal? tracker effect = none := by
  have waiting : (world.store.tracker tracker).isRunning effect = false := by
    refine Bool.eq_false_iff.mpr fun running => outside.idle effect ?_
    exact List.contains_iff_mem.mp running
  simp only [refusal?, waiting, Bool.false_eq_true, if_false]
  exact if_neg (Nat.not_le_of_lt outside.room)

theorem Outside.current {world : World σ} {tracker : TrackerId} (outside : world.Outside tracker) :
    (world.store.tracker tracker).current = none := by
  have idle := outside.idle
  rw [Tracker.current]
  cases frames : (world.store.tracker tracker).stack with
  | nil => rfl
  | cons frame rest =>
      cases frame with
      | none => rfl
      | some effect => exact absurd (frames ▸ List.mem_cons_self) (idle effect)

/-- An effect that is outside every effect does run. -/
theorem runCount_lt_runEffect {world : World σ} {tracker : TrackerId} {effect : EffectId}
    (outside : world.Outside tracker) (defined : world.store.HasEffect effect) (bound : Nat) :
    world.store.runCount effect <
      (runEffect (bound + 1) tracker effect world).2.store.runCount effect := by
  rw [runEffect, outside.refusal?_eq]
  have counted : (world.begin tracker effect).store.runCount effect =
      world.store.runCount effect + 1 := by
    rw [runCount_begin, if_pos ⟨rfl, defined⟩]
  have ran := interpret_extends (runEffect_extends bound) (world.body effect)
    (world.begin tracker effect)
  have later := ran.store.runCount effect
  rw [counted] at later
  exact later

theorem fanOut_append (runner : Runner σ) (tracker : TrackerId) (first second : List EffectId)
    (world : World σ) :
    world.fanOut runner tracker (first ++ second) =
      (world.fanOut runner tracker first).fanOut runner tracker second :=
  List.foldl_append

theorem runCount_lt_fanOut {world : World σ} {tracker : TrackerId} {effect : EffectId}
    {effects : List EffectId} (outside : world.Outside tracker)
    (defined : world.store.HasEffect effect) (listed : effect ∈ effects) (bound : Nat) :
    world.store.runCount effect <
      (world.fanOut (runEffect (bound + 1)) tracker effects).store.runCount effect := by
  obtain ⟨earlier, later, rfl⟩ := List.append_of_mem listed
  have reached := fanOut_extends (runEffect_extends (bound + 1)) tracker earlier world
  rw [fanOut_append]
  generalize world.fanOut (runEffect (bound + 1)) tracker earlier = middle at reached ⊢
  have runs := runCount_lt_runEffect (outside.of_extends reached)
    (Nat.lt_of_lt_of_le defined reached.store.runs_size) bound
  have rest (after : World σ) := fanOut_extends (runEffect_extends (bound + 1)) tracker later after
  refine Nat.lt_of_le_of_lt (reached.store.runCount effect) ?_
  rw [fanOut, List.foldl_cons]
  split
  next after result =>
    rw [result] at runs
    exact Nat.lt_of_lt_of_le runs ((rest after).store.runCount effect)
  next fault after result =>
    rw [result] at runs
    have reported := report_extends after tracker fault
    exact Nat.lt_of_lt_of_le runs ((reported.trans (rest _)).store.runCount effect)

/-- Whoever is subscribed to a property that is told about runs. -/
theorem runCount_lt_triggerAll (world : World σ) {access : Access} {effect : EffectId}
    {changed : List Access} (known : access.container.index < world.store.heap.containers.size)
    (outside : world.Outside (world.store.heap.owner access.container))
    (defined : world.store.HasEffect effect) (subscribed : effect ∈ world.store.dependents access)
    (told : access ∈ changed) (bound : Nat) :
    world.store.runCount effect <
      (changed.foldl (trigger (runEffect (bound + 1))) world).store.runCount effect := by
  obtain ⟨earlier, later, rfl⟩ := List.append_of_mem told
  have reached := triggerAll_extends (runEffect_extends (bound + 1)) earlier world
  rw [List.foldl_append, List.foldl_cons]
  generalize earlier.foldl (trigger (runEffect (bound + 1))) world = middle at reached ⊢
  have owner := reached.store.heap.owner access.container known
  have listed : effect ∈ middle.store.dependents access := by
    rw [Store.mem_dependents, owner]
    exact reached.store.dependents _ access effect (Store.mem_dependents.mp subscribed)
  have runs := runCount_lt_fanOut (owner ▸ outside.of_extends reached)
    (Nat.lt_of_lt_of_le defined reached.store.runs_size) listed bound
  have rest := triggerAll_extends (runEffect_extends (bound + 1)) later
    (middle.trigger (runEffect (bound + 1)) access)
  exact Nat.lt_of_le_of_lt (reached.store.runCount effect)
    (Nat.lt_of_lt_of_le runs (rest.store.runCount effect))

/-- Where nobody is subscribed to what is told about, nothing happens. -/
theorem triggerAll_of_unread (world : World σ) {changed : List Access}
    (unread : ∀ access ∈ changed, world.store.dependents access = []) (runner : Runner σ) :
    changed.foldl (trigger runner) world = world := by
  induction changed with
  | nil => rfl
  | cons access rest ih =>
      have nobody : world.trigger runner access = world := by
        rw [trigger, unread access List.mem_cons_self]
        rfl
      rw [List.foldl_cons, nobody]
      exact ih fun other member => unread other (List.mem_cons_of_mem access member)

theorem Outside.room_pos {world : World σ} {tracker : TrackerId} (outside : world.Outside tracker)
    (known : world.store.HasTracker tracker) : 0 < world.store.room := by
  have listed : world.store.tracker tracker ∈ world.store.trackers.toList := by
    rw [Store.tracker, Array.getElem?_eq_getElem known]
    exact Array.mem_toList_iff.mpr (Array.getElem_mem known)
  have room : 0 < (world.store.tracker tracker).room := Nat.sub_pos_of_lt outside.room
  rw [Store.room]
  generalize world.store.trackers.toList = trackers at listed
  induction trackers with
  | nil => contradiction
  | cons first rest ih =>
      rw [List.map_cons, List.foldr_cons]
      rcases List.mem_cons.mp listed with here | there
      · rw [← here]
        exact Nat.add_pos_left room _
      · exact Nat.add_pos_right _ (ih there)

theorem interpret_write {runner : Runner σ} {world after : World σ} {id : ContainerId} {key : Key}
    {value : Value} {result : Except ReactiveFault Unit}
    (written : world.write runner id key value = (result, after))
    (next : Except ReactiveFault Unit → Task σ) :
    interpret runner (.write id key value next) world = interpret runner (next result) after := by
  rw [interpret, written]

theorem write_of_accepted {runner : Runner σ} {world : World σ} {id : ContainerId} {key : Key}
    {value : Value} {changed : List Access} {after : Store}
    (accepted : Write.stored?.accepted? (world.store.put id key value) = some (changed, after)) :
    world.write runner id key value =
      (.ok (), changed.foldl (trigger runner) { world with store := after }) := by
  rw [World.write, Write.put_of_accepted accepted]

/-- A write that is not refused stores, and then runs whoever is subscribed to what it tells
about. -/
theorem exec_perform {world : World σ} {id : ContainerId} {write : Write} {changed : List Access}
    {after : Store} (accepted : write.stored? world.store id = some (changed, after)) :
    (world.exec (write.perform id)).2 =
      changed.foldl (trigger (runEffect world.store.room)) { world with store := after } := by
  cases write with
  | set key value => exact congrArg Prod.snd (interpret_write (write_of_accepted accepted) _)
  | trySet key value => exact congrArg Prod.snd (interpret_write (write_of_accepted accepted) _)
  | push value =>
      simp only [Write.stored?] at accepted
      simp only [exec, TaskM.toTask, Write.perform, TaskM.push, Bind.bind, TaskM.look, interpret]
      cases holds : world.store.heap.contents id with
      | array items named =>
          rw [holds] at accepted
          exact congrArg Prod.snd (interpret_write (write_of_accepted accepted) _)
      | object properties =>
          rw [holds] at accepted
          obtain ⟨rfl, rfl⟩ := Prod.mk.inj (Option.some.inj accepted)
          rfl
  | pop =>
      have taken : (world.store.takeLast id).2 = (changed, after) := Option.some.inj accepted
      obtain ⟨rfl, rfl⟩ := Prod.mk.inj taken
      rfl

theorem stored_extends {world : World σ} {id : ContainerId} {write : Write}
    {changed : List Access} {after : Store}
    (accepted : write.stored? world.store id = some (changed, after)) :
    world.Extends { world with store := after } := by
  have stored (grows : world.store.Grows after)
      (stack : ∀ tracker, (after.tracker tracker).stack = (world.store.tracker tracker).stack) :
      world.Extends { world with store := after } :=
    ⟨grows, stack, Nat.le_refl _, fun _ _ => rfl⟩
  rcases Write.stored?_cases accepted with ⟨key, value, put, _⟩ | ⟨_, taken⟩ | ⟨_, _, rfl⟩
  · obtain ⟨grows, stack⟩ := Store.put_grows world.store id key value
    rw [put] at grows stack
    exact stored grows stack
  · obtain ⟨grows, stack⟩ := Store.takeLast_grows world.store id
    rw [← taken] at grows stack
    exact stored grows stack
  · exact stored (.refl _) fun _ => rfl

/-- A write that tells about a property runs whoever is subscribed to it. -/
theorem runCount_lt_perform {world : World σ} {id : ContainerId} {write : Write}
    {changed : List Access} {after : Store} {access : Access} {effect : EffectId}
    (known : id.index < world.store.heap.containers.size)
    (outside : world.Outside (world.store.heap.owner id))
    (defined : world.store.HasEffect effect)
    (accepted : write.stored? world.store id = some (changed, after)) (told : access ∈ changed)
    (here : access.container = id) (subscribed : effect ∈ world.store.dependents access) :
    world.store.runCount effect <
      (world.exec (write.perform id)).2.store.runCount effect := by
  subst here
  have stored := stored_extends accepted
  have followed : world.store.HasTracker (world.store.heap.owner access.container) := by
    refine Decidable.byContradiction fun unknown => ?_
    have listed := Store.mem_dependents.mp subscribed
    rw [Store.tracker, Array.getElem?_eq_none (Nat.le_of_not_lt unknown)] at listed
    simp [Tracker.dependents, Tracker.new, default] at listed
  obtain ⟨bound, room⟩ := Nat.exists_eq_add_one_of_ne_zero
    (Nat.ne_of_gt (outside.room_pos followed))
  have owner := stored.store.heap.owner access.container known
  have runs := runCount_lt_triggerAll { world with store := after }
    (Nat.lt_of_lt_of_le known stored.store.heap.size_le)
    (owner ▸ outside.of_extends stored)
    (Nat.lt_of_lt_of_le defined stored.store.runs_size)
    (Store.mem_dependents.mpr
      (owner ▸ stored.store.dependents _ access effect (Store.mem_dependents.mp subscribed)))
    told bound
  rw [exec_perform accepted, room]
  exact Nat.lt_of_le_of_lt (stored.store.runCount effect) runs

/-- Where a write misses all readers of a container, no effect runs. -/
theorem runCount_perform_of_misses {world : World σ} {id : ContainerId} {write : Write}
    {read : Read} {changed : List Access} {after : Store}
    (known : id.index < world.store.heap.containers.size)
    (outside : world.Outside (world.store.heap.owner id))
    (accepted : write.stored? world.store id = some (changed, after))
    (misses : write.Misses read (world.store.heap.contents id) (after.heap.contents id))
    (readers : ∀ access : Access, access.container = id →
      world.store.dependents access ≠ [] → access ∈ read.accesses world.store.heap id)
    (other : EffectId) :
    (world.exec (write.perform id)).2.store.runCount other = world.store.runCount other := by
  have untold := Write.not_told_of_misses known accepted misses
  obtain ⟨key, named, _⟩ := misses
  rcases Write.stored?_cases accepted with ⟨_, value, stored, _⟩ | ⟨unnamed, _⟩ | ⟨unnamed, _⟩
  · obtain ⟨put⟩ := Store.put_ok stored
    have unread : ∀ access ∈ changed, after.dependents access = [] := by
      intro access listed
      have here : access.container = id := put.container_of_mem listed
      refine List.eq_nil_iff_forall_not_mem.mpr fun reader subscribed => ?_
      have old := put.mem_dependents (here ▸ known) (here ▸ outside.current) subscribed
      exact untold access listed (readers access here fun nobody => by simp [nobody] at old)
    rw [exec_perform accepted, triggerAll_of_unread { world with store := after } unread,
      Store.runCount, put.runs_eq, Store.runCount]
  · rw [named] at unnamed
    contradiction
  · rw [named] at unnamed
    contradiction

/-- A write from the outside that changes what a read of a container answers runs whoever is
subscribed to what the read counts, unless the write misses such readers; then it runs nobody if all
who are subscribed to the container are so through the read. -/
theorem changed_answer_runs_reader (world : World σ) (id : ContainerId) (write : Write)
    (read : Read) {changed : List Access} {after : Store} {effect : EffectId}
    (known : id.index < world.store.heap.containers.size)
    (outside : world.Outside (world.store.heap.owner id))
    (defined : world.store.HasEffect effect)
    (accepted : write.stored? world.store id = some (changed, after))
    (differs : read.answer after.heap id ≠ read.answer world.store.heap id)
    (subscribed : ∀ access ∈ read.accesses world.store.heap id,
      effect ∈ world.store.dependents access) :
    (¬write.Misses read (world.store.heap.contents id) (after.heap.contents id) →
      world.store.runCount effect <
        (world.exec (write.perform id)).2.store.runCount effect) ∧
    (write.Misses read (world.store.heap.contents id) (after.heap.contents id) →
      (∀ access : Access, access.container = id → world.store.dependents access ≠ [] →
        access ∈ read.accesses world.store.heap id) →
      ∀ other, (world.exec (write.perform id)).2.store.runCount other =
        world.store.runCount other) := by
  refine ⟨fun found => ?_, fun misses readers => ?_⟩
  · obtain ⟨access, told, counted⟩ := Write.told_of_answer_ne known accepted differs found
    exact runCount_lt_perform known outside defined accepted told
      (Read.mem_accesses.mp counted).1 (subscribed access counted)
  · exact runCount_perform_of_misses known outside accepted misses readers

/-! ## One reader -/

/-- A world with one container and one effect, which has read one property of it. -/
def soleReader (contents : Contents) (key : Key) : World Unit where
  store :=
    { heap := ⟨#[⟨⟨0⟩, contents⟩], #[], #[]⟩
      trackers := #[(Tracker.new Config.default).subscribe ⟨⟨0⟩, key⟩ ⟨0⟩]
      runs := #[1] }
  surroundings := ()
  bodies := #[.done (.ok .undefined)]

theorem tracker_soleReader (contents : Contents) (key : Key) :
    (soleReader contents key).store.tracker ⟨0⟩ =
      (Tracker.new Config.default).subscribe ⟨⟨0⟩, key⟩ ⟨0⟩ := rfl

theorem owner_soleReader (contents : Contents) (key : Key) (id : ContainerId) :
    (soleReader contents key).store.heap.owner id = ⟨0⟩ := by
  obtain ⟨index⟩ := id
  cases index with
  | zero => rfl
  | succ index => rfl

theorem mem_dependents_soleReader {contents : Contents} {key : Key} {access : Access}
    {effect : EffectId} :
    effect ∈ (soleReader contents key).store.dependents access ↔
      access = ⟨⟨0⟩, key⟩ ∧ effect = ⟨0⟩ := by
  rw [Store.mem_dependents, owner_soleReader, tracker_soleReader, Tracker.mem_dependents_subscribe]
  simp [Tracker.dependents, Tracker.new]

theorem outside_soleReader (contents : Contents) (key : Key) :
    (soleReader contents key).Outside ⟨0⟩ := by
  obtain ⟨subscriptions, subscribed⟩ :=
    Tracker.subscribe_eq (Tracker.new Config.default) ⟨⟨0⟩, key⟩ ⟨0⟩
  constructor
  · intro effect member
    rw [tracker_soleReader, subscribed] at member
    contradiction
  · rw [tracker_soleReader, subscribed]
    exact Nat.zero_lt_succ _

/-- Appending to an array runs whoever has read its length. -/
theorem push_runs_length_reader :
    (soleReader (.array #[.null] .empty) .length).store.runCount ⟨0⟩ <
      ((soleReader (.array #[.null] .empty) .length).exec
        ((Write.push .null).perform ⟨0⟩)).2.store.runCount ⟨0⟩ := by
  refine (changed_answer_runs_reader (soleReader (.array #[.null] .empty) .length) ⟨0⟩
    (.push .null) .length (by decide) (outside_soleReader _ _) (by decide) rfl ?_ ?_).1 ?_
  · simp only [Read.answer_eq]
    decide
  · intro access counted
    obtain ⟨here, key⟩ := Read.mem_accesses.mp counted
    refine mem_dependents_soleReader.mpr ⟨?_, rfl⟩
    cases access
    simp_all [Read.keys]
  · rintro ⟨key, named, _⟩
    contradiction

/-- Adding a property to an object does not run an effect that has counted its properties, although
their number changes. -/
theorem count_reader_misses_new_property :
    ¬∀ (world : World Unit) (id : ContainerId) (write : Write) (read : Read) (effect : EffectId)
      (changed : List Access) (after : Store),
      id.index < world.store.heap.containers.size →
      world.Outside (world.store.heap.owner id) → world.store.HasEffect effect →
      write.stored? world.store id = some (changed, after) →
      read.answer after.heap id ≠ read.answer world.store.heap id →
      (∀ access ∈ read.accesses world.store.heap id,
        effect ∈ world.store.dependents access) →
      world.store.runCount effect <
        (world.exec (write.perform id)).2.store.runCount effect := by
  intro claimed
  let world := soleReader .emptyObject .length
  let write : Write := .set (.name "a") .null
  have counted {access : Access} : access ∈ Read.length.accesses world.store.heap ⟨0⟩ ↔
      access = ⟨⟨0⟩, .length⟩ := by
    rw [Read.mem_accesses]
    cases access
    simp [Read.keys]
  have known : (⟨0⟩ : ContainerId).index < world.store.heap.containers.size := by decide
  let after : Store :=
    world.store.setContents ⟨0⟩ (.object (Assoc.empty.insert (.name "a") .null))
  have accepted : write.stored? world.store ⟨0⟩ = some ([⟨⟨0⟩, .name "a"⟩], after) := rfl
  have differs : Read.length.answer after.heap ⟨0⟩ ≠ Read.length.answer world.store.heap ⟨0⟩ := by
    simp only [Read.answer_eq]
    decide
  have runs := claimed world ⟨0⟩ write .length ⟨0⟩ _ _ known (outside_soleReader _ _)
    (by decide) accepted differs
    fun access member => mem_dependents_soleReader.mpr ⟨counted.mp member, rfl⟩
  have misses : write.Misses .length (world.store.heap.contents ⟨0⟩) (after.heap.contents ⟨0⟩) :=
    ⟨.name "a", rfl, rfl, by decide, rfl⟩
  have silent := runCount_perform_of_misses known (outside_soleReader _ _) accepted misses
  rw [silent] at runs
  · exact Nat.lt_irrefl _ runs
  · intro access _ read
    obtain ⟨reader, listed⟩ := List.exists_mem_of_ne_nil _ read
    exact counted.mpr (mem_dependents_soleReader.mp listed).1

end World

end LiveMarkup
