import LiveMarkup.Proofs.Reactive.Reader

/-!
# No reader is stale

A tracker has effects that only read, and from the outside things are made, written, appended and
taken away.  After every such step each effect has written down exactly what it would read now.  The
invariant is that an effect is up to date and subscribed to all that it has read: what a write has
told nobody about reads as before, and who has been told is up to date after its run.
-/

namespace LiveMarkup

namespace World

variable {config : Config} {world after : World Journal} {effect : EffectId} {reader : Reader}

/-- Whether there is one tracker, to which all containers belong, and nothing is going on. -/
structure Resting (config : Config) (world : World Journal) : Prop where
  /-- There is one tracker. -/
  trackers : world.store.trackers.size = 1
  /-- It is configured as given. -/
  config : (world.store.tracker ⟨0⟩).config = config
  /-- It has no frames. -/
  stack : (world.store.tracker ⟨0⟩).stack = []
  /-- All containers belong to it. -/
  owner : ∀ id, world.store.heap.owner id = ⟨0⟩
  /-- Containers hold nothing but what is in the heap. -/
  closed : world.store.heap.Closed

theorem Resting.hasTracker (resting : Resting config world) : world.store.HasTracker ⟨0⟩ := by
  rw [Store.HasTracker, resting.trackers]
  exact Nat.zero_lt_one

theorem Resting.outside (resting : Resting config world) (positive : 0 < config.maxEffectDepth) :
    world.Outside ⟨0⟩ where
  idle effect := by
    rw [resting.stack]
    exact List.not_mem_nil
  room := by
    rw [resting.stack, resting.config]
    exact positive

theorem Resting.of_extends (resting : Resting config world) (extends_ : world.Extends after)
    (owner : ∀ id, after.store.heap.owner id = ⟨0⟩) (closed : after.store.heap.Closed) :
    Resting config after where
  trackers := extends_.store.trackers.trans resting.trackers
  config := (extends_.store.config ⟨0⟩).trans resting.config
  stack := (extends_.stack ⟨0⟩).trans resting.stack
  owner := owner
  closed := closed

/-- Whether the body of an effect is a reader with handles to what is in the heap. -/
structure Follows (world : World Journal) (effect : EffectId) (reader : Reader) : Prop where
  /-- The body reads. -/
  body : world.bodies[effect.index]? = some (reader.program effect).toTask
  /-- What it holds is in the heap. -/
  uses : reader.Uses fun id => id.index < world.store.heap.containers.size

/-- Whether an effect has written down what it would read now, and is subscribed to it. -/
structure UpToDate (world : World Journal) (effect : EffectId) (reader : Reader) : Prop
    extends Follows world effect reader where
  /-- The journal shows what would be read. -/
  recorded : world.surroundings effect = reader.readings world.store.heap
  /-- The effect will hear of changes. -/
  subscribed : ∀ reading ∈ reader.readings world.store.heap,
    effect ∈ world.store.dependents reading.access

theorem Follows.of_extends (follows : world.Follows effect reader)
    (extends_ : world.Extends after) : after.Follows effect reader where
  body := by
    have known : effect.index < world.bodies.size :=
      (Array.getElem?_eq_some_iff.mp follows.body).1
    rw [extends_.bodies effect.index known]
    exact follows.body
  uses := follows.uses.mono fun _ known => Nat.lt_of_lt_of_le known extends_.store.heap.size_le

/-- An effect stays up to date if nothing that it reads has changed. -/
theorem UpToDate.of_alike (upToDate : world.UpToDate effect reader)
    (resting : Resting config world) (restingAfter : Resting config after)
    (extends_ : world.Extends after) (journal : after.surroundings effect = world.surroundings effect)
    (alike : ∀ reading ∈ reader.readings world.store.heap,
      reading.access.container.index < world.store.heap.containers.size →
        (world.store.heap.contents reading.access.container).Alike
          (after.store.heap.contents reading.access.container) reading.access.key) :
    after.UpToDate effect reader := by
  have same : reader.readings after.store.heap = reader.readings world.store.heap :=
    Reader.readings_eq_of_alike extends_.store.heap
      (fun id value member => Heap.known_of_closed resting.closed member) upToDate.uses
      (fun _ known => known) alike
  refine ⟨upToDate.toFollows.of_extends extends_, ?_, ?_⟩
  · rw [journal, same]
    exact upToDate.recorded
  · rw [same]
    intro reading member
    have subscribed := Store.mem_dependents.mp (upToDate.subscribed reading member)
    rw [resting.owner] at subscribed
    rw [Store.mem_dependents, restingAfter.owner]
    exact extends_.store.dependents _ _ effect subscribed

/-! ## Runs -/

/-- A world in which some effects have run: the heap is the same, and up to date is whoever was
before and whoever has run. -/
structure Settles (world after : World Journal) (ran : EffectId → Prop) : Prop where
  /-- Nothing is lost. -/
  extends_ : world.Extends after
  /-- The heap is the same. -/
  heap : after.store.heap = world.store.heap
  /-- There are no new effects. -/
  bodies : after.bodies = world.bodies
  /-- Effects stay up to date or come to be. -/
  upToDate : ∀ effect reader, world.UpToDate effect reader ∨ ran effect ∧ world.Follows effect reader →
    after.UpToDate effect reader

theorem Resting.of_settles {ran : EffectId → Prop} (resting : Resting config world)
    (settles : Settles world after ran) : Resting config after :=
  resting.of_extends settles.extends_ (settles.heap ▸ resting.owner) (settles.heap ▸ resting.closed)

/-- What leaves the heap and the journal alone leaves all effects up to date. -/
theorem Settles.of_heap_eq (resting : Resting config world) (extends_ : world.Extends after)
    (heap : after.store.heap = world.store.heap) (bodies : after.bodies = world.bodies)
    (journal : after.surroundings = world.surroundings) :
    Settles world after fun _ => False where
  extends_ := extends_
  heap := heap
  bodies := bodies
  upToDate effect reader := by
    rintro (upToDate | ⟨never, _⟩)
    · have restingAfter : Resting config after :=
        resting.of_extends extends_ (heap ▸ resting.owner) (heap ▸ resting.closed)
      refine upToDate.of_alike resting restingAfter extends_ (congrFun journal effect) ?_
      intro reading _ _
      rw [heap]
      exact .refl _ _
    · contradiction

theorem Settles.trans {third : World Journal} {first second : EffectId → Prop}
    (before : Settles world after first) (later : Settles after third second) :
    Settles world third fun effect => first effect ∨ second effect where
  extends_ := before.extends_.trans later.extends_
  heap := later.heap.trans before.heap
  bodies := later.bodies.trans before.bodies
  upToDate effect reader := by
    rintro (upToDate | ⟨ran | ran, follows⟩)
    · exact later.upToDate effect reader (.inl (before.upToDate effect reader (.inl upToDate)))
    · exact later.upToDate effect reader
        (.inl (before.upToDate effect reader (.inr ⟨ran, follows⟩)))
    · exact later.upToDate effect reader (.inr ⟨ran, follows.of_extends before.extends_⟩)

theorem Settles.mono {first second : EffectId → Prop} (settles : Settles world after first)
    (fewer : ∀ effect, second effect → first effect) : Settles world after second where
  extends_ := settles.extends_
  heap := settles.heap
  bodies := settles.bodies
  upToDate effect reader cases :=
    settles.upToDate effect reader (cases.imp_right fun both => ⟨fewer effect both.1, both.2⟩)

/-- A world after the run of a reader that has read all it reads. -/
def afterReading (world : World Journal) (effect : EffectId) (reader : Reader) : World Journal :=
  leave ⟨0⟩ (recorded effect (reader.readings world.store.heap)
    { world.begin ⟨0⟩ effect with surroundings := Journal.clear effect world.surroundings })

theorem runEffect_of_follows (resting : Resting config world) (positive : 0 < config.maxEffectDepth)
    (follows : world.Follows effect reader) (bound : Nat) :
    (runEffect (bound + 1) ⟨0⟩ effect world).2 = world.afterReading effect reader := by
  have body : world.body effect = (reader.program effect).toTask := by
    rw [World.body, follows.body, Option.getD_some]
  have cleared := interpret_body (runEffect bound) effect reader
    { world.begin ⟨0⟩ effect with surroundings := Journal.clear effect world.surroundings }
  have heap : (world.begin ⟨0⟩ effect).store.heap = world.store.heap := rfl
  rw [runEffect, (resting.outside positive).refusal?_eq, body]
  change leave ⟨0⟩ (interpret (runEffect bound) (reader.body effect).toTask
    { world.begin ⟨0⟩ effect with surroundings := Journal.clear effect world.surroundings }).2 = _
  rw [cleared, heap, afterReading]

theorem surroundings_afterReading (world : World Journal) (effect other : EffectId)
    (reader : Reader) :
    (world.afterReading effect reader).surroundings other =
      if other = effect then reader.readings world.store.heap else world.surroundings other :=
  Journal.note_clear effect other (reader.readings world.store.heap) world.surroundings

theorem heap_afterReading (world : World Journal) (effect : EffectId) (reader : Reader) :
    (world.afterReading effect reader).store.heap = world.store.heap :=
  heap_recorded effect (reader.readings world.store.heap)
    { world.begin ⟨0⟩ effect with surroundings := Journal.clear effect world.surroundings }

/-- A reader that has run is subscribed to all that it has read. -/
theorem subscribed_afterReading (resting : Resting config world) (effect : EffectId)
    {reader : Reader} {reading : Reading} (read : reading ∈ reader.readings world.store.heap) :
    effect ∈ (world.afterReading effect reader).store.dependents reading.access := by
  let begun : World Journal :=
    { world.begin ⟨0⟩ effect with surroundings := Journal.clear effect world.surroundings }
  have current : (begun.store.tracker ⟨0⟩).current = some effect := by
    have frames : (begun.store.tracker ⟨0⟩).stack =
        some effect :: (world.store.tracker ⟨0⟩).stack := by
      have opened := stack_enter world ⟨0⟩ ⟨0⟩ (some effect)
      rw [if_pos ⟨rfl, resting.hasTracker⟩] at opened
      exact opened
    rw [Tracker.current, frames]
    rfl
  have followed : begun.store.HasTracker ⟨0⟩ := by
    rw [Store.HasTracker, (begin_grows world ⟨0⟩ effect).trackers, resting.trackers]
    exact Nat.zero_lt_one
  have owner : begun.store.heap.owner reading.access.container = ⟨0⟩ := resting.owner _
  have tracked : effect ∈ (recorded effect (reader.readings world.store.heap) begun).store.dependents
      reading.access := by
    refine Store.mem_dependents_track.mpr (.inr ⟨?_, owner.symm ▸ followed, owner.symm ▸ current⟩)
    exact List.mem_toArray.mpr (List.mem_map.mpr ⟨reading, read, rfl⟩)
  rw [Store.mem_dependents] at tracked ⊢
  have kept : (recorded effect (reader.readings world.store.heap) begun).store.Grows
      (world.afterReading effect reader).store :=
    .modifyTracker _ ⟨0⟩ (fun _ => rfl) fun _ _ _ member => member
  exact kept.dependents _ _ effect tracked

/-- Whether every effect is a reader. -/
def AllRead (world : World Journal) : Prop :=
  ∀ effect : EffectId, effect.index < world.bodies.size → ∃ reader, world.Follows effect reader

theorem AllRead.of_settles {ran : EffectId → Prop} (allRead : world.AllRead)
    (settles : Settles world after ran) : after.AllRead := by
  intro effect known
  rw [settles.bodies] at known
  obtain ⟨reader, follows⟩ := allRead effect known
  exact ⟨reader, follows.of_extends settles.extends_⟩

/-- The run of one effect brings it up to date and leaves the others so. -/
theorem settles_runEffect (resting : Resting config world) (positive : 0 < config.maxEffectDepth)
    (allRead : world.AllRead) (effect : EffectId) (bound : Nat) :
    Settles world (runEffect (bound + 1) ⟨0⟩ effect world).2 fun other => other = effect := by
  have extends_ := runEffect_extends (bound + 1) ⟨0⟩ effect world
  by_cases known : effect.index < world.bodies.size
  · obtain ⟨reader, follows⟩ := allRead effect known
    have ran := runEffect_of_follows resting positive follows bound
    rw [ran] at extends_ ⊢
    have heap := heap_afterReading world effect reader
    have restingAfter : Resting config (world.afterReading effect reader) :=
      resting.of_extends extends_ (heap ▸ resting.owner) (heap ▸ resting.closed)
    refine ⟨extends_, heap, rfl, fun other otherReader cases => ?_⟩
    by_cases same : other = effect
    · subst same
      have otherFollows : world.Follows other otherReader :=
        cases.elim UpToDate.toFollows And.right
      have agree := ran.symm.trans (runEffect_of_follows resting positive otherFollows bound)
      rw [agree] at extends_ ⊢
      refine ⟨otherFollows.of_extends extends_, ?_, ?_⟩
      · rw [surroundings_afterReading, if_pos rfl, heap_afterReading]
      · rw [heap_afterReading]
        exact fun reading read => subscribed_afterReading resting other read
    · have upToDate : world.UpToDate other otherReader :=
        cases.resolve_right fun both => same both.1
      refine upToDate.of_alike resting restingAfter extends_ ?_ fun reading _ _ => ?_
      · rw [surroundings_afterReading, if_neg same]
      · rw [heap]
        exact .refl _ _
  · have body : world.body effect = .done (.ok .undefined) := by
      rw [World.body, Array.getElem?_eq_none (Nat.le_of_not_lt known), Option.getD_none]
    have ran : (runEffect (bound + 1) ⟨0⟩ effect world).2 = leave ⟨0⟩ (world.begin ⟨0⟩ effect) := by
      rw [runEffect, (resting.outside positive).refusal?_eq, body]
      rfl
    rw [ran] at extends_ ⊢
    have settles := Settles.of_heap_eq resting extends_ rfl rfl rfl
    refine ⟨extends_, rfl, rfl, fun other reader cases => settles.upToDate other reader ?_⟩
    refine cases.imp_right fun both => ?_
    obtain ⟨rfl, follows⟩ := both
    exact absurd (Array.getElem?_eq_some_iff.mp follows.body).1 known

/-- Running effects one after another brings all of them up to date. -/
theorem settles_fanOut (resting : Resting config world) (positive : 0 < config.maxEffectDepth)
    (allRead : world.AllRead) (effects : List EffectId) (bound : Nat) :
    Settles world (world.fanOut (runEffect (bound + 1)) ⟨0⟩ effects) fun effect =>
      effect ∈ effects := by
  induction effects generalizing world with
  | nil =>
      exact (Settles.of_heap_eq resting (.refl world) rfl rfl rfl).mono
        fun _ member => absurd member List.not_mem_nil
  | cons first rest ih =>
      have ran := settles_runEffect resting positive allRead first bound
      have restingAfter := resting.of_settles ran
      have allReadAfter := allRead.of_settles ran
      have both {next : World Journal}
          (settles : Settles world next fun other => other = first) :
          Settles world (next.fanOut (runEffect (bound + 1)) ⟨0⟩ rest) fun effect =>
            effect ∈ first :: rest :=
        (settles.trans (ih (resting.of_settles settles) (allRead.of_settles settles))).mono
          fun _ member => List.mem_cons.mp member
      rw [fanOut, List.foldl_cons]
      split
      next next result =>
        rw [result] at ran
        exact both ran
      next fault next result =>
        rw [result] at ran restingAfter
        have reported : Settles next (next.mapStore fun store => store.report ⟨0⟩ fault)
            fun _ => False :=
          .of_heap_eq restingAfter (report_extends next ⟨0⟩ fault) rfl rfl rfl
        exact both ((ran.trans reported).mono fun _ same => .inl same)

theorem settles_trigger (resting : Resting config world) (positive : 0 < config.maxEffectDepth)
    (allRead : world.AllRead) (access : Access) (bound : Nat) :
    Settles world (world.trigger (runEffect (bound + 1)) access) fun effect =>
      effect ∈ world.store.dependents access := by
  rw [trigger, resting.owner]
  exact settles_fanOut resting positive allRead _ bound

/-- Telling about some properties brings up to date whoever was subscribed to one of them. -/
theorem settles_triggerAll (resting : Resting config world) (positive : 0 < config.maxEffectDepth)
    (allRead : world.AllRead) (changed : List Access) (bound : Nat) :
    Settles world (changed.foldl (trigger (runEffect (bound + 1))) world) fun effect =>
      ∃ access ∈ changed, effect ∈ world.store.dependents access := by
  induction changed generalizing world with
  | nil =>
      refine (Settles.of_heap_eq resting (.refl world) rfl rfl rfl).mono ?_
      rintro _ ⟨access, member, _⟩
      contradiction
  | cons access rest ih =>
      have told := settles_trigger resting positive allRead access bound
      have restingAfter := resting.of_settles told
      have later := ih restingAfter (allRead.of_settles told)
      refine (told.trans later).mono ?_
      rintro effect ⟨other, member, subscribed⟩
      rcases List.mem_cons.mp member with rfl | there
      · exact .inl subscribed
      · refine .inr ⟨other, there, ?_⟩
        rw [Store.mem_dependents, resting.owner] at subscribed
        rw [Store.mem_dependents, restingAfter.owner]
        exact told.extends_.store.dependents _ _ effect subscribed

/-! ## Steps from the outside -/

/-- Whether all effects are up to date while nothing is going on. -/
structure Fresh (config : Config) (world : World Journal) : Prop extends Resting config world where
  /-- Every effect is up to date. -/
  upToDate : ∀ effect : EffectId, effect.index < world.bodies.size →
    ∃ reader, world.UpToDate effect reader

theorem Fresh.allRead (fresh : Fresh config world) : world.AllRead := by
  intro effect known
  obtain ⟨reader, upToDate⟩ := fresh.upToDate effect known
  exact ⟨reader, upToDate.toFollows⟩

/-- What changes no property of a container and runs nobody leaves all effects up to date. -/
theorem Fresh.of_grows (fresh : Fresh config world) (extends_ : world.Extends after)
    (restingAfter : Resting config after) (grows : world.store.heap.Grows after.store.heap)
    (bodies : after.bodies = world.bodies) (journal : after.surroundings = world.surroundings) :
    Fresh config after where
  toResting := restingAfter
  upToDate effect known := by
    rw [bodies] at known
    obtain ⟨reader, upToDate⟩ := fresh.upToDate effect known
    refine ⟨reader, upToDate.of_alike fresh.toResting restingAfter extends_
      (congrFun journal effect) fun reading _ inside => ?_⟩
    rw [Heap.contents, Heap.contents, grows.container _ inside]
    exact .refl _ _

/-- After a change of the store, telling about all that is not alike brings everybody up to date. -/
theorem Fresh.of_told (fresh : Fresh config world) (positive : 0 < config.maxEffectDepth)
    {store : Store} {changed : List Access} (extends_ : world.Extends { world with store := store })
    (owner : ∀ id, store.heap.owner id = ⟨0⟩) (closed : store.heap.Closed)
    (told : ∀ access, access ∉ changed →
      access.container.index < world.store.heap.containers.size →
        (world.store.heap.contents access.container).Alike
          (store.heap.contents access.container) access.key) :
    Fresh config
      (changed.foldl (trigger (runEffect world.store.room)) { world with store := store }) := by
  obtain ⟨bound, room⟩ := Nat.exists_eq_add_one_of_ne_zero
    (Nat.ne_of_gt ((fresh.outside positive).room_pos fresh.hasTracker))
  have stored : Resting config { world with store := store } :=
    fresh.toResting.of_extends extends_ owner closed
  have allRead : AllRead { world with store := store } := by
    intro effect known
    obtain ⟨reader, follows⟩ := fresh.allRead effect known
    exact ⟨reader, follows.of_extends extends_⟩
  rw [room]
  have settles := settles_triggerAll stored positive allRead changed bound
  refine ⟨stored.of_settles settles, fun effect known => ?_⟩
  rw [settles.bodies] at known
  obtain ⟨reader, upToDate⟩ := fresh.upToDate effect known
  refine ⟨reader, settles.upToDate effect reader ?_⟩
  by_cases hears : ∃ access ∈ changed, effect ∈ store.dependents access
  · exact .inr ⟨hears, upToDate.toFollows.of_extends extends_⟩
  · refine .inl (upToDate.of_alike fresh.toResting stored extends_ rfl fun reading read inside => ?_)
    refine told reading.access (fun listed => hears ⟨reading.access, listed, ?_⟩) inside
    have subscribed := Store.mem_dependents.mp (upToDate.subscribed reading read)
    rw [fresh.owner] at subscribed
    rw [Store.mem_dependents, owner]
    exact extends_.store.dependents _ _ effect subscribed

end World

/-! ## Histories -/

/-- Whether a write hands over nothing but what is in the heap, and is not to the length of an
array. -/
structure Write.Permitted (heap : Heap) (id : ContainerId) (change : Write) : Prop where
  /-- A value that is handed over is in the heap. -/
  value : ∀ value, change.value? = some value → heap.Known value
  /-- The key is not the length of an array. -/
  key : ∀ key, change.key? = some key → key.isLength = false ∨ heap.isArray id = false

/-- What may be done from the outside. -/
inductive Action where
  /-- An effect that reads is made, and runs. -/
  | create (reader : Reader)
  /-- A value is made. -/
  | make (request : Request)
  /-- A container is written to. -/
  | write (id : ContainerId) (change : Write)

namespace Action

/-- Whether an action concerns nothing but what is in the heap of the first tracker. -/
def Valid (heap : Heap) : Action → Prop
  | create reader => reader.Uses fun id => id.index < heap.containers.size
  | make request =>
      (∀ tracker, Heap.MakesFor tracker request → tracker = ⟨0⟩) ∧ heap.Supplied request
  | write id change => id.index < heap.containers.size ∧ change.Permitted heap id

/-- The world after an action. -/
def perform (world : World Journal) : Action → World Journal
  | create reader => (world.exec do
      let _ ← TaskM.createEffect ⟨0⟩ (reader.program ⟨world.bodies.size⟩)
      return .undefined).2
  | make request => (world.exec (TaskM.make request)).2
  | write id change => (world.exec (change.perform id)).2

end Action

namespace World

variable {config : Config} {world : World Journal}

/-- A world in which nothing has happened, with one tracker. -/
def start (config : Config) : World Journal := ⟨.new [config], .blank, #[]⟩

/-- The worlds that come about by actions from the outside. -/
inductive Reached (config : Config) : World Journal → Prop
  /-- Nothing has happened. -/
  | start : Reached config (.start config)
  /-- One more action is taken. -/
  | step {world : World Journal} (action : Action) (reached : Reached config world)
      (valid : action.Valid world.store.heap) : Reached config (action.perform world)

theorem start_fresh (config : Config) : Fresh config (.start config) where
  trackers := rfl
  config := rfl
  stack := rfl
  owner _ := rfl
  closed _ known := absurd known (Nat.not_lt_zero _)
  upToDate _ known := absurd known (Nat.not_lt_zero _)

theorem owner_staysWithNew (tracker : TrackerId) :
    Heap.StaysWithNew tracker fun heap => ∀ id, heap.owner id = tracker := by
  intro heap contents _ owner id
  rw [Heap.owner, Heap.container_newContainer]
  split
  · rfl
  · exact owner id

/-- Making something leaves all effects up to date. -/
theorem make_fresh (fresh : Fresh config world) {request : Request}
    (valid : (Action.make request).Valid world.store.heap) :
    Fresh config ((Action.make request).perform world) := by
  have extends_ : world.Extends ((Action.make request).perform world) :=
    exec_extends world (TaskM.make request)
  have heap : ((Action.make request).perform world).store.heap =
      (request.perform world.store.heap).2 := rfl
  have owner : Heap.Preserves (fun heap => ∀ id, heap.owner id = ⟨0⟩) request.perform := by
    refine .perform (fun tracker makes => ?_) fun before after same owner id => ?_
    · rw [valid.1 tracker makes]
      exact owner_staysWithNew ⟨0⟩
    · rw [Heap.owner, Heap.container, same]
      exact owner id
  refine fresh.of_grows extends_ (fresh.toResting.of_extends extends_ ?_ ?_) ?_ rfl rfl
  · rw [heap]
    exact owner world.store.heap fresh.owner
  · rw [heap]
    exact fresh.closed.perform valid.2
  · rw [heap]
    exact Heap.perform_allocates request world.store.heap

/-- A world in which a refused write has made copies and counted reads. -/
def afterRefusal (world : World Journal) (id : ContainerId) (value : Value)
    (reads : Array Access) : World Journal :=
  let heap := (Heap.adopt (world.store.heap.owner id) value world.store.heap).2
  { world with store := { world.store with heap := heap }.track reads }

theorem heap_afterRefusal (world : World Journal) (id : ContainerId) (value : Value)
    (reads : Array Access) :
    (world.afterRefusal id value reads).store.heap =
      (Heap.adopt (world.store.heap.owner id) value world.store.heap).2 :=
  Store.heap_track _ _

theorem write_of_refused {id : ContainerId} {key : Key} {value : Value} {runner : Runner Journal}
    (refused : Write.stored?.accepted? (world.store.put id key value) = none) :
    ∃ fault reads, world.write runner id key value =
      (.error fault, world.afterRefusal id value reads) := by
  cases result : world.store.put id key value with
  | mk outcome after =>
      cases outcome with
      | ok changed =>
          rw [result] at refused
          contradiction
      | error fault =>
          obtain ⟨reads, rfl⟩ := Store.put_error result
          exact ⟨fault, reads, by rw [World.write, result, afterRefusal]⟩

theorem perform_of_refused {id : ContainerId} {change : Write}
    (permitted : change.Permitted world.store.heap id)
    (refused : change.stored? world.store id = none) :
    ∃ value reads, world.store.heap.Known value ∧
      ((world.exec (change.perform id)).2 = world.afterRefusal id value reads ∨
        ∃ tracker fault, (world.exec (change.perform id)).2 =
          (world.afterRefusal id value reads).mapStore fun store => store.report tracker fault) := by
  cases change with
  | set key value =>
      obtain ⟨fault, reads, written⟩ := write_of_refused refused
      exact ⟨value, reads, permitted.value value rfl,
        .inr ⟨_, _, congrArg Prod.snd (interpret_write written _)⟩⟩
  | trySet key value =>
      obtain ⟨fault, reads, written⟩ := write_of_refused refused
      exact ⟨value, reads, permitted.value value rfl,
        .inl (congrArg Prod.snd (interpret_write written _))⟩
  | push value =>
      simp only [Write.stored?] at refused
      simp only [exec, TaskM.toTask, Write.perform, TaskM.push, Bind.bind, TaskM.look, interpret]
      cases holds : world.store.heap.contents id with
      | array items named =>
          rw [holds] at refused
          obtain ⟨fault, reads, written⟩ := write_of_refused refused
          exact ⟨value, reads, permitted.value value rfl,
            .inr ⟨_, _, congrArg Prod.snd (interpret_write written _)⟩⟩
      | object properties =>
          rw [holds] at refused
          contradiction
  | pop => contradiction

theorem owner_adopt (owner : ∀ id, world.store.heap.owner id = ⟨0⟩) (target : ContainerId)
    (value : Value) (id : ContainerId) :
    (Heap.adopt (world.store.heap.owner target) value world.store.heap).2.owner id = ⟨0⟩ := by
  rw [owner target]
  exact Heap.Preserves.adopt (owner_staysWithNew ⟨0⟩) value world.store.heap owner id

/-- A refused write leaves all effects up to date. -/
theorem refused_fresh (fresh : Fresh config world) {id : ContainerId} {change : Write}
    (permitted : change.Permitted world.store.heap id)
    (refused : change.stored? world.store id = none) :
    Fresh config (world.exec (change.perform id)).2 := by
  obtain ⟨value, reads, known, ran⟩ := perform_of_refused permitted refused
  have extends_ := exec_extends world (change.perform id)
  have heap : (world.exec (change.perform id)).2.store.heap =
      (Heap.adopt (world.store.heap.owner id) value world.store.heap).2 := by
    rcases ran with ran | ⟨tracker, fault, ran⟩
    · rw [ran, heap_afterRefusal]
    · rw [ran]
      exact heap_afterRefusal world id value reads
  have rest : (world.exec (change.perform id)).2.bodies = world.bodies ∧
      (world.exec (change.perform id)).2.surroundings = world.surroundings := by
    rcases ran with ran | ⟨tracker, fault, ran⟩
    · rw [ran]
      exact ⟨rfl, rfl⟩
    · rw [ran]
      exact ⟨rfl, rfl⟩
  refine fresh.of_grows extends_ (fresh.toResting.of_extends extends_ ?_ ?_) ?_ rest.1 rest.2
  · rw [heap]
    exact owner_adopt fresh.owner id value
  · rw [heap]
    exact (Heap.takes_adopt (world.store.heap.owner id) _ value fresh.closed known).1
  · rw [heap]
    exact Heap.adopt_allocates (world.store.heap.owner id) value world.store.heap

/-- A write that is not refused leaves all effects up to date. -/
theorem accepted_fresh (fresh : Fresh config world) (positive : 0 < config.maxEffectDepth)
    {id : ContainerId} {change : Write} (known : id.index < world.store.heap.containers.size)
    (permitted : change.Permitted world.store.heap id) {changed : List Access} {after : Store}
    (accepted : change.stored? world.store id = some (changed, after)) :
    Fresh config (world.exec (change.perform id)).2 := by
  have extends_ := stored_extends accepted
  rw [exec_perform accepted]
  rcases Write.stored?_cases accepted with
    ⟨key, value, stored, supplied, named⟩ | ⟨_, taken⟩ | ⟨_, rfl, rfl⟩
  · obtain ⟨put⟩ := Store.put_ok stored
    have ordinary : key.isLength = false ∨ world.store.heap.isArray id = false := by
      rcases named with named | ⟨_, _, position, rfl⟩
      · exact permitted.key key named
      · exact .inl rfl
    refine fresh.of_told positive extends_ ?_
      (put.closed fresh.closed known (permitted.value value supplied)) ?_
    · intro other
      have owner := owner_adopt fresh.owner id value other
      rw [put.adopted] at owner
      rw [put.after_heap, Heap.owner_setContents]
      exact owner
    · exact fun access untold inside => put.alike inside ordinary untold
  · obtain ⟨rfl, rfl⟩ := Prod.mk.inj taken
    refine fresh.of_told positive extends_ (fun other => ?_)
      (Store.takeLast_closed fresh.closed known) ?_
    · rcases Store.takeLast_cases world.store id with nothing | ⟨_, _, rest, _, popping⟩
      · rw [nothing]
        exact fresh.owner other
      · rw [popping, Store.setContents, Heap.owner_setContents]
        exact fresh.owner other
    · exact fun access untold inside => Store.takeLast_alike inside untold
  · exact fresh.of_told positive extends_ fresh.owner fresh.closed
      fun access _ _ => .refl _ _

theorem perform_create (world : World Journal) (reader : Reader) :
    (Action.create reader).perform world =
      (world.define (reader.program ⟨world.bodies.size⟩).toTask).2.fanOut
        (runEffect world.store.room) ⟨0⟩ [⟨world.bodies.size⟩] := by
  rw [fanOut, List.foldl_cons, List.foldl_nil]
  simp only [Action.perform, exec, TaskM.toTask, Bind.bind, TaskM.createEffect, TaskM.define,
    TaskM.tryRun, interpret, World.define]
  cases runEffect world.store.room ⟨0⟩ ⟨world.bodies.size⟩ _ with
  | mk result after =>
      cases result with
      | ok done => rfl
      | error fault => rfl

/-- A new reader is up to date after its first run, and the others stay so. -/
theorem create_fresh (fresh : Fresh config world) (positive : 0 < config.maxEffectDepth)
    {reader : Reader} (valid : (Action.create reader).Valid world.store.heap) :
    Fresh config ((Action.create reader).perform world) := by
  obtain ⟨bound, room⟩ := Nat.exists_eq_add_one_of_ne_zero
    (Nat.ne_of_gt ((fresh.outside positive).room_pos fresh.hasTracker))
  have extends_ := define_extends world (reader.program ⟨world.bodies.size⟩).toTask
  rw [perform_create, room]
  generalize made : (world.define (reader.program ⟨world.bodies.size⟩).toTask).2 = defined
    at extends_ ⊢
  have heap : defined.store.heap = world.store.heap := by rw [← made]; rfl
  have bodies : defined.bodies =
      world.bodies.push (reader.program ⟨world.bodies.size⟩).toTask := by rw [← made]; rfl
  have journal : defined.surroundings = world.surroundings := by rw [← made]; rfl
  have resting : Resting config defined :=
    fresh.toResting.of_extends extends_ (heap ▸ fresh.owner) (heap ▸ fresh.closed)
  have new : defined.Follows ⟨world.bodies.size⟩ reader := by
    refine ⟨?_, heap ▸ valid⟩
    rw [bodies, Array.getElem?_push_size]
  have old {effect : EffectId} (known : effect.index < world.bodies.size) :
      ∃ reader, defined.UpToDate effect reader := by
    obtain ⟨reader, upToDate⟩ := fresh.upToDate effect known
    refine ⟨reader, upToDate.of_alike fresh.toResting resting extends_
      (congrFun journal effect) fun reading _ _ => ?_⟩
    rw [heap]
    exact .refl _ _
  have newOrOld (effect : EffectId) (known : effect.index < defined.bodies.size) :
      effect = ⟨world.bodies.size⟩ ∨ effect.index < world.bodies.size := by
    rw [bodies, Array.size_push] at known
    rcases Nat.lt_succ_iff_lt_or_eq.mp known with before | here
    · exact .inr before
    · exact .inl (congrArg EffectId.mk here)
  have allRead : defined.AllRead := by
    intro effect known
    rcases newOrOld effect known with rfl | before
    · exact ⟨reader, new⟩
    · obtain ⟨reader, upToDate⟩ := old before
      exact ⟨reader, upToDate.toFollows⟩
  have settles := settles_fanOut resting positive allRead [⟨world.bodies.size⟩] bound
  refine ⟨resting.of_settles settles, fun effect known => ?_⟩
  rw [settles.bodies] at known
  rcases newOrOld effect known with rfl | before
  · exact ⟨reader, settles.upToDate _ reader (.inr ⟨List.mem_cons_self, new⟩)⟩
  · obtain ⟨reader, upToDate⟩ := old before
    exact ⟨reader, settles.upToDate effect reader (.inl upToDate)⟩

/-- In every world that comes about, all effects are up to date. -/
theorem reached_fresh (positive : 0 < config.maxEffectDepth) (reached : Reached config world) :
    Fresh config world := by
  induction reached with
  | start => exact start_fresh config
  | @step world action reached valid ih =>
      cases action with
      | create reader => exact create_fresh ih positive valid
      | make request => exact make_fresh ih valid
      | write id change =>
          obtain ⟨known, permitted⟩ := valid
          cases accepted : change.stored? world.store id with
          | none => exact refused_fresh ih permitted accepted
          | some stored => exact accepted_fresh ih positive known permitted accepted

/-- Runs an effect once more. -/
def rerun (effect : EffectId) (world : World Journal) : World Journal :=
  (world.exec do
    let _ ← TaskM.tryRun ⟨0⟩ effect
    return .undefined).2

/-- No reader is stale: whatever has happened, an effect that ran again now, with any journal, would
write down what it has written down in its latest run. -/
theorem readers_never_stale (positive : 0 < config.maxEffectDepth) (reached : Reached config world)
    {effect : EffectId} (defined : effect.index < world.bodies.size) (journal : Journal) :
    (rerun effect { world with surroundings := journal }).surroundings effect =
      world.surroundings effect := by
  have fresh := reached_fresh positive reached
  obtain ⟨reader, upToDate⟩ := fresh.upToDate effect defined
  obtain ⟨bound, room⟩ := Nat.exists_eq_add_one_of_ne_zero
    (Nat.ne_of_gt ((fresh.outside positive).room_pos fresh.hasTracker))
  let again : World Journal := { world with surroundings := journal }
  have resting : Resting config again :=
    ⟨fresh.trackers, fresh.config, fresh.stack, fresh.owner, fresh.closed⟩
  have follows : again.Follows effect reader := ⟨upToDate.body, upToDate.uses⟩
  have ran : rerun effect again = again.afterReading effect reader := by
    rw [← runEffect_of_follows resting positive follows bound, ← room]
    rfl
  change (rerun effect again).surroundings effect = _
  rw [ran, surroundings_afterReading, if_pos rfl, upToDate.recorded]

/-- An effect that has read the length of an array would read what it has written down after an
item was appended. -/
theorem length_reader_never_stale :
    let made := (Action.make (.array ⟨0⟩ [])).perform (.start Config.default)
    let created := (Action.create (.length ⟨0⟩ fun _ => .done (.ok .undefined))).perform made
    let written := (Action.write ⟨0⟩ (.push .null)).perform created
    (rerun ⟨0⟩ { written with surroundings := .blank }).surroundings ⟨0⟩ =
      written.surroundings ⟨0⟩ := by
  intro made created written
  have known : (⟨0⟩ : ContainerId).index < made.store.heap.containers.size := by decide
  have reachedMade : Reached Config.default made := by
    refine .step (.make (.array ⟨0⟩ [])) .start ⟨fun tracker makes => makes.symm, fun item member => ?_⟩
    exact absurd member List.not_mem_nil
  have reachedCreated : Reached Config.default created :=
    .step (.create _) reachedMade (.length known fun _ => .done _)
  have kept : made.Extends created := exec_extends made _
  have reachedWritten : Reached Config.default written := by
    refine .step (.write ⟨0⟩ (.push .null)) reachedCreated
      ⟨Nat.lt_of_lt_of_le known kept.store.heap.size_le, fun value handed id same => ?_, ?_⟩
    · rw [← Option.some.inj handed] at same
      contradiction
    · exact fun key named => nomatch named
  have defined : (⟨0⟩ : EffectId).index < created.bodies.size := by
    have ran := fanOut_extends (runEffect_extends made.store.room) ⟨0⟩ [⟨made.bodies.size⟩]
      (made.define (Reader.program ⟨made.bodies.size⟩
        (.length ⟨0⟩ fun _ => .done (.ok .undefined))).toTask).2
    rw [← perform_create] at ran
    exact Nat.lt_of_lt_of_le Nat.zero_lt_one ran.bodies_size
  have stays : created.Extends written := exec_extends created _
  exact readers_never_stale (by decide) reachedWritten
    (Nat.lt_of_lt_of_le defined stays.bodies_size) .blank

end World

end LiveMarkup
