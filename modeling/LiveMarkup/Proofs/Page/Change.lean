import LiveMarkup.Proofs.Page.Rerun
import LiveMarkup.Proofs.Reactive.Supply

/-!
# Changes from outside

Somebody outside of all effects sets a property of the data, or appends to one of its arrays, or
takes the last item away.  What is stored is JSON data.  An effect that has read what has changed
waits until it is told; all others have read nothing but what reads as before.
-/

namespace LiveMarkup

/-- A write from outside. -/
inductive Change where
  /-- A property is set. -/
  | set (target : ContainerId) (key : Key) (value : Json)
  /-- An array gets one more item. -/
  | push (target : ContainerId) (value : Json)
  /-- An array loses its last item. -/
  | pop (target : ContainerId)

namespace Change

/-- The container that is written to. -/
def target : Change → ContainerId
  | set target _ _ | push target _ | pop target => target

/-- How a change is made: JSON data becomes a value before it is stored. -/
def make : Change → TaskM Page Value
  | set target key json => do
      let value ← TaskM.make (.data ⟨0⟩ json)
      TaskM.set target key value
      return .undefined
  | push target json => do
      let value ← TaskM.make (.data ⟨0⟩ json)
      let _ ← TaskM.push target value
      return .undefined
  | pop target => TaskM.pop target

/-- Whether a change is not refused: objects take every key, and arrays the indices below the
greatest length. -/
def Fits (heap : Heap) : Change → Prop
  | set target key _ =>
      heap.isArray target = true → ∃ position, key = .index position ∧ position < maxArrayLength
  | push target _ => heap.isArray target = true → (heap.contents target).count < maxArrayLength
  | pop _ => True

end Change

/-- An object keeps its properties when it is written to. -/
theorem Contents.Written.contains {key other : Key} {value : Value} {before after : Contents}
    (written : Contents.Written key value before after) (object : before.isArray = false)
    (there : before.contains other = true) : after.contains other = true := by
  cases written with
  | store _ stored =>
      cases before with
      | object properties =>
          obtain rfl := Except.ok.inj stored
          change properties.contains other = true at there
          simp [Contents.contains, Assoc.contains_insert, there]
      | array items named => contradiction
  | resize length _ isArray =>
      rw [object] at isArray
      contradiction

theorem Heap.lt_of_contains {heap : Heap} {id : ContainerId} {key : Key}
    (there : heap.contains id key = true) : id.index < heap.containers.size := by
  rcases Nat.lt_or_ge id.index heap.containers.size with known | beyond
  · exact known
  · rw [Heap.contains, Heap.contents, Heap.container_of_size_le beyond] at there
    contradiction

/-- Whether every property of an object is still there. -/
def Heap.Retains (before after : Heap) : Prop :=
  ∀ id key, before.isArray id = false → before.contains id key = true →
    after.isArray id = false ∧ after.contains id key = true

namespace Heap.Retains

variable {first second third : Heap}

theorem refl (heap : Heap) : heap.Retains heap := fun _ _ object there => ⟨object, there⟩

theorem trans (before : first.Retains second) (after : second.Retains third) :
    first.Retains third := fun id key object there =>
  after id key (before id key object there).1 (before id key object there).2

/-- What has only grown has lost nothing. -/
theorem of_grows (grows : first.Grows second) : first.Retains second := by
  intro id key object there
  have known := lt_of_contains there
  rw [Heap.isArray, Heap.contains, Heap.contents, grows.container id known]
  exact ⟨object, there⟩

/-- A change of one container loses nothing if the container does not. -/
theorem setContents {heap : Heap} {id : ContainerId} {contents : Contents}
    (kind : contents.isArray = heap.isArray id)
    (covers : heap.isArray id = false → ∀ key, heap.contains id key = true →
      contents.contains key = true) : heap.Retains (heap.setContents id contents) := by
  intro other key object there
  rw [Heap.isArray, Heap.contains]
  by_cases here : other = id
  · subst here
    rw [Heap.contents_setContents (lt_of_contains there)]
    exact ⟨kind.trans object, covers object key there⟩
  · rw [Heap.contents_setContents_of_ne here]
    exact ⟨object, there⟩

end Heap.Retains

/-- Whether a key of a container can be written to: any key of an object, and an index of an array
below the greatest length. -/
def Heap.Writable (heap : Heap) (id : ContainerId) (key : Key) : Prop :=
  heap.isArray id = true → ∃ position, key = .index position ∧ position < maxArrayLength

theorem Heap.Writable.ordinary {heap : Heap} {id : ContainerId} {key : Key} (writable : heap.Writable id key) :
    key.isLength = false ∨ heap.isArray id = false := by
  cases isArray : heap.isArray id with
  | false => exact .inr rfl
  | true =>
      obtain ⟨position, rfl, _⟩ := writable isArray
      exact .inl rfl

theorem Heap.Writable.stored {heap : Heap} {id : ContainerId} {key : Key} (writable : heap.Writable id key)
    (value : Value) : ∃ contents, (heap.contents id).store key value = .ok contents := by
  cases before : heap.contents id with
  | object properties => exact ⟨_, rfl⟩
  | array items named =>
      obtain ⟨position, rfl, below⟩ := writable (by rw [Heap.isArray, before]; rfl)
      exact ⟨_, if_pos below⟩

namespace World

variable (kept keptAfter : ContainerId → Prop)

/-- What is known of a store after the data was written to, given what has changed. -/
structure Rewrites (before after : Store) (changed : List Access) : Prop where
  /-- There are the same trackers. -/
  trackers : after.trackers.size = before.trackers.size
  /-- They are as they were. -/
  tracker : ∀ id, after.tracker id = before.tracker id
  /-- Containers keep their kinds and trackers. -/
  keeps : before.heap.Keeps after.heap
  /-- Objects keep their properties. -/
  retains : before.heap.Retains after.heap
  /-- Everything still belongs to the one tracker. -/
  simple : after.heap.Simple
  /-- What was data is data. -/
  stays : ∀ id, kept id → keptAfter id
  /-- Other data is new. -/
  fresh : ∀ id, keptAfter id → kept id ∨ before.heap.containers.size ≤ id.index
  /-- The data is there. -/
  known : ∀ id, keptAfter id → id.index < after.heap.containers.size
  /-- It holds nothing else. -/
  encloses : after.heap.Encloses keptAfter
  /-- What is no data has not changed. -/
  frozen : ∀ id : ContainerId, ¬kept id → id.index < before.heap.containers.size →
    after.heap.contents id = before.heap.contents id
  /-- What has not changed reads as before. -/
  alike : ∀ access, kept access.container → access ∉ changed →
    (before.heap.contents access.container).Alike (after.heap.contents access.container) access.key

variable {kept keptAfter} {config : Config} {data : ContainerId} {world : World Page}
  {duties : Array Duty} {part : Part} {after : Store} {changed : List Access}

namespace Rewrites

theorem dependents (rewrites : Rewrites kept keptAfter world.store after changed)
    (simple : world.store.heap.Simple) (access : Access) :
    after.dependents access = world.store.dependents access := by
  rw [Store.dependents, Store.dependents, rewrites.tracker, rewrites.simple.owner, simple.owner]

theorem sound (rewrites : Rewrites kept keptAfter world.store after changed)
    (sound : world.Sound config data kept duties) :
    ({ world with store := after } : World Page).Sound config data keptAfter duties where
  simple := rewrites.simple
  root := rewrites.stays data sound.root
  object := (rewrites.keeps.isArray data (sound.known data sound.root)).trans sound.object
  known := rewrites.known
  encloses := rewrites.encloses
  trackers := rewrites.trackers.trans sound.trackers
  configured := (congrArg Tracker.config (rewrites.tracker ⟨0⟩)).trans sound.configured
  bodies := sound.bodies
  running effect member := sound.running effect (by
    change some effect ∈ (after.tracker ⟨0⟩).stack at member
    rw [rewrites.tracker] at member
    exact member)
  ordered := sound.ordered
  host := sound.host
  plain := sound.plain
  ready := sound.ready
  apart := sound.apart
  room := sound.room

/-- An effect that has read nothing that has changed is in step with the data. -/
theorem settled (rewrites : Rewrites kept keptAfter world.store after changed)
    (sound : world.Sound config data kept duties) {pending pendingAfter : EffectId → Prop}
    {effect : EffectId} {duty : Duty} {past middle : Store} {result : Except Fault Sight}
    {trace : Trace}
    (settled : (View.waiting world duties pending).Settled data kept effect duty past result middle
      trace)
    (untold : ∀ access ∈ changed, effect ∉ world.store.dependents access) :
    (View.waiting { world with store := after } duties pendingAfter).Settled data keptAfter effect
      duty past result middle trace := by
  have pastSize := settled.yields.steady.heap.size_le
  have size : middle.heap.containers.size ≤ world.store.heap.containers.size := settled.keeps.size_le
  have old {id : ContainerId} (inside : keptAfter id)
      (early : id.index < middle.heap.containers.size) : kept id :=
    (rewrites.fresh id inside).resolve_right (by omega)
  exact
    { yields := settled.yields
      era := trivial
      simple := settled.simple
      data := settled.data
      encloses := fun id inside value member => by
        have early := old inside.1 (Nat.lt_of_lt_of_le inside.2 pastSize)
        exact (settled.encloses id ⟨early, inside.2⟩ value member).mono
          fun other held => ⟨rewrites.stays other held.1, held.2⟩
      apart := fun id late early inside => settled.apart id late early (old inside early)
      keeps := settled.keeps.trans rewrites.keeps
      frozen := fun id outside early => by
        have frozen := rewrites.frozen id (fun inside => outside (rewrites.stays id inside))
          (Nat.lt_of_lt_of_le early size)
        exact frozen.trans
          (settled.frozen id (fun inside => outside (rewrites.stays id inside)) early)
      reads := fun access member inside early => by
        obtain ⟨alike, subscribed⟩ := settled.reads access member (old inside early) early
        have unchanged : access ∉ changed := fun told => untold access told subscribed
        refine ⟨alike.trans (rewrites.alike access (old inside early) unchanged)
          (settled.keeps.isArray _ early), ?_⟩
        change effect ∈ after.dependents access
        rw [rewrites.dependents sound.simple]
        exact subscribed }

end Rewrites

/-- After the data was written to, the effects wait that have read what has changed. -/
theorem InStep.rewrite (inStep : InStep config data kept part (fun _ => False) world duties)
    (rewrites : Rewrites kept keptAfter world.store after changed) :
    InStep config data keptAfter part
      (fun effect => ∃ access ∈ changed, effect ∈ after.dependents access)
      { world with store := after } duties where
  sound := rewrites.sound inStep.sound
  idle := (congrArg Tracker.stack (rewrites.tracker ⟨0⟩)).trans inStep.idle
  live := by
    have leads : View.Leads data kept keptAfter (.waiting world duties fun _ => False)
        (.waiting { world with store := after } duties
          fun effect => ∃ access ∈ changed, effect ∈ after.dependents access)
        (fun _ => False) fun _ => False :=
      { duties := fun _ _ assigned => assigned
        fresh := fun _ _ assigned => .inl assigned
        size := Nat.le_refl _
        grown := rewrites.keeps.size_le
        face := fun _ _ _ => rfl
        settled := fun effect _ _ _ _ _ settled => by
          by_cases told : ∃ access ∈ changed, effect ∈ after.dependents access
          · exact .inr told
          · refine .inl (rewrites.settled inStep.sound settled fun access listed subscribed => ?_)
            refine told ⟨access, listed, ?_⟩
            rw [rewrites.dependents inStep.sound.simple]
            exact subscribed
        pending := fun _ waiting => waiting.elim
        ran := fun _ running => running.elim
        faulty := fun reported => reported
        place := fun _ inside => inside }
    exact inStep.live.lead leads fun _ _ _ => id

/-! ## What a change rewrites -/

/-- JSON data is new data. -/
theorem Sound.supply (sound : world.Sound config data kept duties) (json : Json) :
    ∃ keptAfter, Rewrites kept keptAfter world.store (world.store.perform (.data ⟨0⟩ json)).2 [] ∧
      (world.store.perform (.data ⟨0⟩ json)).1.In keptAfter := by
  let reach : Reach := ⟨⟨0⟩, kept, world.store.heap.containers.size⟩
  have calm : reach.Calm world.store.heap :=
    { encloses := fun id inside value member => by
        have held : kept id := inside.resolve_right fun made => absurd made.2 (Nat.not_lt.mpr made.1)
        exact (sound.encloses id held value member).mono fun _ => .inl
      owner := fun id _ => sound.simple.owner id
      base := Nat.le_refl _ }
  have supplies := Heap.ofJson_supplies json world.store.heap calm
  refine ⟨reach.inside (Heap.ofJson ⟨0⟩ json world.store.heap).2, ?_,
    supplies.holds _ List.mem_cons_self⟩
  exact
    { trackers := rfl
      tracker := fun _ => rfl
      keeps := supplies.grows.keeps
      retains := .of_grows supplies.grows
      simple := ⟨supplies.calm.owner_of_grows supplies.grows (Nat.le_refl _) sound.simple.owner,
        supplies.closures.trans sound.simple.closures,
        supplies.events.trans sound.simple.events⟩
      stays := fun _ => .inl
      fresh := fun _ inside => inside.imp_right And.left
      known := fun id inside => by
        rcases inside with held | made
        · exact Nat.lt_of_lt_of_le (sound.known id held) supplies.grows.size_le
        · exact made.2
      encloses := supplies.calm.encloses
      frozen := fun id _ early => congrArg Container.contents (supplies.grows.container id early)
      alike := fun access inside _ => by
        have same : (world.store.perform (.data ⟨0⟩ json)).2.heap.contents access.container =
            world.store.heap.contents access.container :=
          congrArg Container.contents (supplies.grows.container _ (sound.known _ inside))
        rw [same]
        exact .refl _ _ }

/-- While no effect is running, reads count for nobody. -/
theorem Sound.current (sound : world.Sound config data kept duties) (idle : world.frames = [])
    (id : TrackerId) : (world.store.tracker id).current = none := by
  by_cases known : id.index = 0
  · obtain rfl : id = ⟨0⟩ := congrArg TrackerId.mk known
    rw [Tracker.current, show (world.store.tracker ⟨0⟩).stack = [] from idle]
    rfl
  · have missing : world.store.trackers[id.index]? = none := by
      refine Array.getElem?_eq_none ?_
      rw [sound.trackers]
      omega
    rw [Store.tracker, missing]
    rfl

/-- As there is one tracker, nothing is copied when a value is stored. -/
theorem Sound.adopt (sound : world.Sound config data kept duties) (id : ContainerId) (value : Value) :
    Heap.adopt (world.store.heap.owner id) value world.store.heap = (value, world.store.heap) := by
  refine Heap.adopt_of_owner fun other _ => ?_
  rw [sound.simple.owner, sound.simple.owner]

/-- A key that can be written to takes the value. -/
theorem Sound.accepts (sound : world.Sound config data kept duties) {id : ContainerId} {key : Key}
    (writable : world.store.heap.Writable id key) (value : Value) :
    ∃ changed after, world.store.put id key value = (.ok changed, after) := by
  obtain ⟨contents, stored⟩ := writable.stored value
  have notLength : ¬(key.isLength && (world.store.heap.contents id).isArray) = true := by
    rcases writable.ordinary with name | object
    · simp [name]
    · rw [Heap.isArray] at object
      simp [object]
  have found : world.store.contentsAfter id key value = (.ok contents, world.store) := by
    rw [Store.contentsAfter, if_neg notLength, stored]
  simp only [Store.put, Store.perform, Request.perform, sound.adopt id value, found]
  exact ⟨_, _, rfl⟩

/-- A key that can be written to is written to. -/
theorem Sound.put (sound : world.Sound config data kept duties) (idle : world.frames = [])
    {id : ContainerId} (inside : kept id) {key : Key} {value : Value} (held : value.In kept)
    (writable : world.store.heap.Writable id key) :
    ∃ changed after, world.store.put id key value = (.ok changed, after) ∧
      Rewrites kept kept world.store after changed ∧
      ∀ access ∈ changed, access.container = id := by
  have known := sound.known id inside
  obtain ⟨changed, after, accepted⟩ := sound.accepts writable value
  obtain ⟨put⟩ := Store.put_ok accepted
  obtain ⟨taken, heap⟩ := Prod.mk.inj ((sound.adopt id value).symm.trans put.adopted)
  have trackers : after.trackers = (world.store.track put.reads).trackers := by
    refine (congrArg Store.trackers put.after_eq).trans ?_
    change (({ world.store with heap := put.heap } : Store).track put.reads).trackers = _
    rw [← heap]
  refine ⟨changed, after, accepted, ?_, fun access listed => put.container_of_mem listed⟩
  exact
    { trackers := (congrArg Array.size trackers).trans (Store.size_track _ _)
      tracker := fun other => by
        rw [Store.tracker, trackers]
        exact Store.track_of_idle (sound.current idle) put.reads other
      keeps := put.keeps
      retains := by
        rw [put.after_heap]
        exact .trans (.of_grows put.grows) (.setContents put.isArray fun object _ there =>
          put.written.contains object there)
      simple := by
        rw [put.after_heap, ← heap]
        refine ⟨fun other => ?_, sound.simple.closures, sound.simple.events⟩
        rw [Heap.owner_setContents]
        exact sound.simple.owner other
      stays := fun _ held => held
      fresh := fun _ => .inl
      known := fun other inside => Nat.lt_of_lt_of_le (sound.known other inside) put.keeps.size_le
      encloses := fun other inside item member => by
        by_cases here : other = id
        · subst here
          rw [put.contents_after known] at member
          rcases put.written.mem_values member with old | new | undefined
          · rw [← heap] at old
            exact sound.encloses other inside item old
          · rw [new, ← taken]
            exact held
          · rw [undefined]
            intro other same
            contradiction
        · rw [put.contents_other (sound.known other inside) here] at member
          exact sound.encloses other inside item member
      frozen := fun other outside early =>
        put.contents_other early fun same => outside (same ▸ inside)
      alike := fun access inside untold => put.alike (sound.known _ inside) writable.ordinary untold }

/-- The last item of an array can be taken away. -/
theorem Sound.takeLast (sound : world.Sound config data kept duties) {id : ContainerId}
    (inside : kept id) :
    Rewrites kept kept world.store (world.store.takeLast id).2.2 (world.store.takeLast id).2.1 ∧
      ∀ access ∈ (world.store.takeLast id).2.1, access.container = id := by
  have known := sound.known id inside
  have alike (access : Access) (held : kept access.container)
      (untold : access ∉ (world.store.takeLast id).2.1) :=
    Store.takeLast_alike (sound.known _ held) untold
  have keeps := Store.takeLast_keeps world.store id
  rcases Store.takeLast_cases world.store id with nothing | ⟨position, last, rest, popped, taken⟩
  · rw [nothing] at alike keeps ⊢
    refine ⟨?_, fun _ listed => absurd listed List.not_mem_nil⟩
    exact
      { trackers := rfl
        tracker := fun _ => rfl
        keeps := keeps
        retains := .refl _
        simple := sound.simple
        stays := fun _ held => held
        fresh := fun _ => .inl
        known := sound.known
        encloses := sound.encloses
        frozen := fun _ _ _ => rfl
        alike := alike }
  · rw [taken] at alike keeps ⊢
    refine ⟨?_, fun access listed => ?_⟩
    · exact
        { trackers := rfl
          tracker := fun _ => rfl
          keeps := keeps
          retains := .setContents (Store.isArray_pop popped) fun object => by
            rw [Heap.isArray] at object
            cases before : world.store.heap.contents id with
            | object properties =>
                rw [before] at popped
                contradiction
            | array items named =>
                rw [before] at object
                contradiction
          simple := by
            refine ⟨fun other => ?_, sound.simple.closures, sound.simple.events⟩
            exact (Heap.owner_setContents _ _ _ _).trans (sound.simple.owner other)
          stays := fun _ held => held
          fresh := fun _ => .inl
          known := fun other held => Nat.lt_of_lt_of_le (sound.known other held) keeps.size_le
          encloses := fun other held item member => by
            by_cases here : other = id
            · subst here
              rw [Store.setContents, Heap.contents_setContents known] at member
              exact sound.encloses other held item (Contents.mem_values_pop popped member)
            · rw [Store.setContents, Heap.contents_setContents_of_ne here] at member
              exact sound.encloses other held item member
          frozen := fun other outside _ =>
            Heap.contents_setContents_of_ne (fun same : other = id => outside (same ▸ inside)) rest
          alike := alike }
    · rcases List.mem_cons.mp listed with rfl | length
      · rfl
      · rw [List.mem_singleton.mp length]

/-! ## Running a change -/

/-- While no effect is running, all frames that the limit allows may be opened. -/
theorem Sound.room_le (sound : world.Sound config data kept duties) (idle : world.frames = []) :
    config.maxEffectDepth ≤ world.store.room := by
  obtain ⟨tracker, trackers⟩ := Array.size_eq_one_iff.mp sound.trackers
  have same : world.store.tracker ⟨0⟩ = tracker := by
    rw [Store.tracker, trackers]
    rfl
  have configured := sound.configured
  rw [same] at configured
  have stack : tracker.stack = [] := same ▸ idle
  rw [Store.room, trackers]
  simp [Tracker.room, configured, stack]

theorem exec_of_ends {computation : TaskM Page Value} {result : Except Fault Value}
    {done : World Page}
    (ends : computation.Ends (runEffect world.store.room) world result done) :
    world.exec computation = (result, done) :=
  ends .done

namespace InStep

/-- New data changes nothing. -/
theorem supply (inStep : InStep config data kept part (fun _ => False) world duties) (json : Json) :
    ∃ keptAfter, Rewrites kept keptAfter world.store (world.store.perform (.data ⟨0⟩ json)).2 [] ∧
      (world.store.perform (.data ⟨0⟩ json)).1.In keptAfter ∧
      InStep config data keptAfter part (fun _ => False)
        { world with store := (world.store.perform (.data ⟨0⟩ json)).2 } duties := by
  obtain ⟨keptAfter, rewrites, held⟩ := inStep.sound.supply json
  refine ⟨keptAfter, rewrites, held, (inStep.rewrite rewrites).weaken fun effect waiting => ?_⟩
  obtain ⟨access, listed, _⟩ := waiting
  exact List.not_mem_nil listed

/-- When all have been told of a write, every effect is in step with the data. -/
theorem settle (inStep : InStep config data kept part (fun _ => False) world duties)
    (rewrites : Rewrites kept kept world.store after changed) {id : ContainerId} (inside : kept id)
    (about : ∀ access ∈ changed, access.container = id) {bound : Nat}
    (enough : config.maxEffectDepth ≤ bound) :
    ∃ dutiesAfter,
      InStep config data kept part (fun _ => False)
        (changed.foldl (trigger (runEffect bound)) { world with store := after }) dutiesAfter ∧
      world.store.heap.Retains
        (changed.foldl (trigger (runEffect bound)) { world with store := after }).store.heap := by
  obtain ⟨dutiesAfter, settled, advances⟩ := InStep.tell changed enough
    (fun access listed => about access listed ▸ rewrites.known id inside) (.refl after)
    (inStep.rewrite rewrites)
  exact ⟨dutiesAfter, settled, rewrites.retains.trans (.of_grows advances.heap)⟩

/-- A property that can be set is set, and then every effect is in step with the data. -/
theorem set (inStep : InStep config data kept part (fun _ => False) world duties) {id : ContainerId}
    (inside : kept id) {key : Key} {value : Value} (held : value.In kept)
    (writable : world.store.heap.Writable id key) {bound : Nat}
    (enough : config.maxEffectDepth ≤ bound) :
    ∃ done dutiesAfter,
      (TaskM.set id key value).Ends (runEffect bound) world (.ok ()) done ∧
      InStep config data kept part (fun _ => False) done dutiesAfter ∧
      world.store.heap.Retains done.store.heap := by
  obtain ⟨changed, after, accepted, rewrites, about⟩ :=
    inStep.sound.put inStep.idle inside held writable
  obtain ⟨dutiesAfter, settled⟩ := inStep.settle rewrites inside about enough
  exact ⟨_, dutiesAfter, .bind (.tryWrite accepted) (.pure () _), settled⟩

/-- An array that is not too long can be appended to. -/
theorem push (inStep : InStep config data kept part (fun _ => False) world duties)
    {id : ContainerId} (inside : kept id) {value : Value} (held : value.In kept)
    (fits : world.store.heap.isArray id = true →
      (world.store.heap.contents id).count < maxArrayLength) {bound : Nat}
    (enough : config.maxEffectDepth ≤ bound) :
    ∃ done dutiesAfter result,
      (TaskM.push id value).Ends (runEffect bound) world (.ok result) done ∧
      InStep config data kept part (fun _ => False) done dutiesAfter ∧
      world.store.heap.Retains done.store.heap := by
  have look : (TaskM.look fun heap => heap.contents id).Ends (runEffect bound) world
      (.ok (world.store.heap.contents id)) world := .look _ world
  unfold TaskM.push
  cases before : world.store.heap.contents id with
  | object properties =>
      rw [before] at look
      exact ⟨world, duties, 0, look.bind (.pure 0 world), inStep, .refl _⟩
  | array items named =>
      rw [before] at look
      have below : items.size < maxArrayLength := by
        have count := fits (by rw [Heap.isArray, before]; rfl)
        rw [before] at count
        exact count
      obtain ⟨done, dutiesAfter, sets, settled⟩ := inStep.set inside held
        (fun _ => ⟨items.size, rfl, below⟩) enough
      exact ⟨done, dutiesAfter, _, look.bind (sets.bind (.pure _ done)), settled⟩

/-- After a change every effect is in step with the data again, and no object has lost a property.
-/
theorem change (inStep : InStep config data kept part (fun _ => False) world duties)
    (change : Change) (reaches : world.store.heap.Reaches data change.target)
    (fits : change.Fits world.store.heap) :
    ∃ keptAfter dutiesAfter,
      InStep config data keptAfter part (fun _ => False) (world.exec change.make).2 dutiesAfter ∧
      world.store.heap.Retains (world.exec change.make).2.store.heap := by
  have enough := inStep.sound.room_le inStep.idle
  have inside := reaches.inside inStep.sound.encloses inStep.sound.root
  cases change with
  | set target key json =>
      obtain ⟨keptAfter, rewrites, held, supplied⟩ := inStep.supply json
      have kind := rewrites.keeps.isArray target (inStep.sound.known target inside)
      obtain ⟨done, dutiesAfter, sets, settled, retains⟩ :=
        supplied.set (rewrites.stays target inside) held
          (fun isArray => fits (kind.symm.trans isArray)) enough
      have ends : (Change.set target key json).make.Ends (runEffect world.store.room) world
          (.ok .undefined) done := .bind (.make _ world) (sets.bind (.pure _ done))
      rw [exec_of_ends ends]
      exact ⟨keptAfter, dutiesAfter, settled, rewrites.retains.trans retains⟩
  | push target json =>
      obtain ⟨keptAfter, rewrites, held, supplied⟩ := inStep.supply json
      have kind := rewrites.keeps.isArray target (inStep.sound.known target inside)
      obtain ⟨done, dutiesAfter, result, pushes, settled, retains⟩ :=
        supplied.push (rewrites.stays target inside) held
          (fun isArray => by
            have before := kind.symm.trans isArray
            have count := (rewrites.alike ⟨target, .length⟩ inside List.not_mem_nil).count before rfl
            exact count ▸ fits before) enough
      have ends : (Change.push target json).make.Ends (runEffect world.store.room) world
          (.ok .undefined) done := .bind (.make _ world) (pushes.bind (.pure _ done))
      rw [exec_of_ends ends]
      exact ⟨keptAfter, dutiesAfter, settled, rewrites.retains.trans retains⟩
  | pop target =>
      obtain ⟨rewrites, about⟩ := inStep.sound.takeLast inside
      obtain ⟨dutiesAfter, settled⟩ := inStep.settle rewrites inside about enough
      have ends : (Change.pop target).make.Ends (runEffect world.store.room) world _ _ :=
        .pop target world
      rw [exec_of_ends ends]
      exact ⟨kept, dutiesAfter, settled⟩

end InStep

end World

end LiveMarkup
