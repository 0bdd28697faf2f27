import LiveMarkup.Proofs.Heap.Reads
import LiveMarkup.Proofs.Reactive.Nesting

/-!
# Whom reads count for

A tracker counts a read for the effect in its innermost frame, and because stacks mirror the calls,
this is the effect whose own body is at work: not one that has called it, and none at all inside a
block whose reads count for no effect.  Along a run, a list of subscribers only grows, at its end,
and by nothing but these readers.  What it holds at any point are therefore the first readers of the
property, in order.
-/

namespace LiveMarkup

/-- Puts an effect at the end of a list unless it is on the list already. -/
def enrol (list : List EffectId) (effect : EffectId) : List EffectId :=
  if effect ∈ list then list else list ++ [effect]

/-- Puts effects at the end of a list in order, each unless it is on the list already. -/
def enlist (present more : List EffectId) : List EffectId := more.foldl enrol present

theorem enlist_append (present first second : List EffectId) :
    enlist present (first ++ second) = enlist (enlist present first) second :=
  List.foldl_append

theorem mem_enrol {list : List EffectId} {effect other : EffectId} :
    other ∈ enrol list effect ↔ other ∈ list ∨ other = effect := by
  rw [enrol]
  split
  next listed => exact ⟨.inl, fun either => either.elim id fun same => same ▸ listed⟩
  next => rw [List.mem_append, List.mem_singleton]

theorem mem_enlist {present more : List EffectId} {effect : EffectId} :
    effect ∈ enlist present more ↔ effect ∈ present ∨ effect ∈ more := by
  induction more generalizing present with
  | nil => simp [enlist]
  | cons first rest ih =>
      rw [enlist, List.foldl_cons, ← enlist, ih, mem_enrol, List.mem_cons, or_assoc]

/-- Whoever is on the list keeps the place. -/
theorem prefix_enlist (present more : List EffectId) : present <+: enlist present more := by
  induction more generalizing present with
  | nil => exact List.prefix_refl present
  | cons first rest ih =>
      refine List.IsPrefix.trans ?_ (ih _)
      rw [enrol]
      split
      · exact List.prefix_refl present
      · exact List.prefix_append present [first]

namespace Tracker

theorem toList_dependents_subscribe (tracker : Tracker) (access other : Access)
    (effect : EffectId) :
    ((tracker.subscribe access effect).dependents other).toList =
      enlist (tracker.dependents other).toList (if other = access then [effect] else []) := by
  by_cases same : other = access
  · subst same
    rw [if_pos rfl, enlist, List.foldl_cons, List.foldl_nil, enrol]
    by_cases listed : effect ∈ tracker.dependents other
    · rw [subscribe_of_mem listed, if_pos (Array.mem_toList_iff.mpr listed)]
    · rw [subscribe_of_not_mem listed, if_neg fun member => listed (Array.mem_toList_iff.mp member),
        dependents, Std.HashMap.getD_insert_self, Array.toList_push]
  · rw [if_neg same]
    obtain listed | listed := Classical.em (effect ∈ tracker.dependents access)
    · rw [subscribe_of_mem listed]
      rfl
    · have differs : (access == other) = false := beq_false_of_ne (Ne.symm same)
      rw [subscribe_of_not_mem listed, dependents, Std.HashMap.getD_insert, differs]
      rfl

theorem toList_dependents_track (tracker : Tracker) (access other : Access) :
    ((tracker.track access).dependents other).toList =
      enlist (tracker.dependents other).toList
        (if other = access then tracker.current.toList else []) := by
  unfold track
  split
  next effect running => rw [toList_dependents_subscribe, running, Option.toList_some]
  next idle => rw [idle, Option.toList_none, ite_self]; rfl

end Tracker

namespace Store

/-- The effects subscribed to a property with a tracker, in order of their first read. -/
def registry (store : Store) (tracker : TrackerId) (access : Access) : List EffectId :=
  ((store.tracker tracker).dependents access).toList

theorem dependents_eq (store : Store) (access : Access) :
    store.dependents access = store.registry (store.heap.owner access.container) access := rfl

theorem registry_of_trackers {before after : Store} (same : after.trackers = before.trackers)
    (tracker : TrackerId) (access : Access) :
    after.registry tracker access = before.registry tracker access := by
  rw [registry, Store.tracker, same, registry, Store.tracker]

/-- A change of a tracker that keeps its subscriptions changes no list. -/
theorem registry_modifyTracker (store : Store) (id : TrackerId) (change : Tracker → Tracker)
    (keeps : ∀ state, (change state).subscriptions = Tracker.subscriptions state)
    (tracker : TrackerId) (access : Access) :
    (store.modifyTracker id change).registry tracker access = store.registry tracker access :=
  tracker_modifyTracker_eq (fun state => (state.dependents access).toList) change
    (fun state => by rw [Tracker.dependents, keeps, Tracker.dependents]) tracker

/-- The reads of properties with the trackers that the containers belong to. -/
def filed (heap : Heap) (reads : Array Access) : List (TrackerId × Access) :=
  reads.toList.map fun read => (heap.owner read.container, read)

/-- Counting reads puts the effect in front of a tracker on the lists of what was read. -/
theorem registry_track {store : Store} {tracker : TrackerId} (known : store.HasTracker tracker)
    (reads : Array Access) (access : Access) :
    (store.track reads).registry tracker access =
      enlist (store.registry tracker access)
        ((filed store.heap reads).flatMap fun read =>
          if read = (tracker, access) then (store.tracker tracker).current.toList else []) := by
  rw [track_eq_foldl, filed]
  induction reads.toList generalizing store with
  | nil => rfl
  | cons read rest ih =>
      have counted : (store.trackOne read).registry tracker access =
          enlist (store.registry tracker access)
            (if (store.heap.owner read.container, read) = (tracker, access) then
              (store.tracker tracker).current.toList else []) := by
        rw [registry, trackOne, tracker_modifyTracker, registry]
        by_cases here : tracker = store.heap.owner read.container
        · rw [if_pos ⟨here, here ▸ known⟩, Tracker.toList_dependents_track, here]
          simp [eq_comm]
        · rw [if_neg fun both => here both.1, if_neg fun same => here (Prod.mk.inj same).1.symm]
          rfl
      have current : ((store.trackOne read).tracker tracker).current =
          (store.tracker tracker).current :=
        tracker_modifyTracker_eq Tracker.current (fun state => state.track read)
          (fun state => Tracker.current_track state read) tracker
      have still : (store.trackOne read).HasTracker tracker := by
        rw [HasTracker, trackOne, size_modifyTracker]
        exact known
      rw [List.foldl_cons, ih still, counted, current, heap_trackOne, List.map_cons,
        List.flatMap_cons, enlist_append]

end Store

/-! ## Reads of writes -/

namespace Heap

/-- What is read when a value is to become the length of an array: if it names none, it is shown. -/
def lengthReads (heap : Heap) (value : Value) : Array Access :=
  let number := (heap.toNumber value).run #[]
  match Contents.validLength? number.1 with
  | some _ => number.2
  | none => number.2 ++ ((heap.display value).run #[]).2

end Heap

namespace Store

/-- What is read when a value is written under a key. -/
def putReads (store : Store) (id : ContainerId) (key : Key) (value : Value) : Array Access :=
  match Heap.adopt (store.heap.owner id) value store.heap with
  | (taken, heap) =>
      if key.isLength && (heap.contents id).isArray then heap.lengthReads taken else #[]

theorem lengthOf_snd_eq (store : Store) (value : Value) :
    (store.lengthOf value).2 = store.track (store.heap.lengthReads value) := by
  have number : (store.watch fun heap => heap.toNumber value).1 =
      ((store.heap.toNumber value).run #[]).1 := rfl
  simp only [lengthOf, Heap.lengthReads, number]
  cases Contents.validLength? ((store.heap.toNumber value).run #[]).1 with
  | some length => rfl
  | none =>
      change ((store.track _).watch fun heap => heap.display value).2 = _
      rw [track_append, watch_snd, heap_track]
      rfl

/-- To trackers a write is nothing but what it reads. -/
theorem trackers_put (store : Store) (id : ContainerId) (key : Key) (value : Value) :
    (store.put id key value).2.trackers =
      ({ store with heap := (Heap.adopt (store.heap.owner id) value store.heap).2 }.track
        (store.putReads id key value)).trackers := by
  cases adoption : Heap.adopt (store.heap.owner id) value store.heap with
  | mk taken heap =>
  have counted : ({ store with heap := heap }.contentsAfter id key taken).2 =
      { store with heap := heap }.track (store.putReads id key value) := by
    simp only [contentsAfter, putReads, adoption]
    split
    · exact lengthOf_snd_eq { store with heap := heap } taken
    · rfl
  rw [← counted]
  simp only [put, perform_adopt adoption]
  split
  next found => rw [found]
  next found => rw [found]; rfl

end Store

namespace Point

open World

variable {σ : Type}

/-- What is read in going on from a point, with the trackers of what is read. -/
def reads (point : Point σ) : List (TrackerId × Access) :=
  match point.work with
  | .task (.track reads _) => Store.filed point.world.store.heap reads
  | .task (.write target key value _) =>
      let owner := point.world.store.heap.owner target
      Store.filed (Heap.adopt owner value point.world.store.heap).2
        (point.world.store.putReads target key value)
  | _ => []

/-- The effect whose body is open innermost on a tracker, unless a block is open in it whose reads
count for no effect. -/
def reader (point : Point σ) (tracker : TrackerId) : Option EffectId :=
  (Frame.entered point.frames tracker).head?.join

/-- Who reads a property in going on from a point. -/
def readers (tracker : TrackerId) (access : Access) (point : Point σ) : List EffectId :=
  point.reads.flatMap fun read =>
    if read = (tracker, access) then (point.reader tracker).toList else []

theorem mem_readers {point : Point σ} {tracker : TrackerId} {access : Access} {effect : EffectId} :
    effect ∈ point.readers tracker access ↔
      (tracker, access) ∈ point.reads ∧ point.reader tracker = some effect := by
  rw [readers, List.mem_flatMap]
  constructor
  · rintro ⟨read, member, reads⟩
    split at reads
    next same => exact ⟨same ▸ member, Option.mem_toList.mp reads⟩
    next => contradiction
  · rintro ⟨member, reads⟩
    exact ⟨_, member, by rw [if_pos rfl]; exact Option.mem_toList.mpr reads⟩

theorem readers_of_idle {point : Point σ} {tracker : TrackerId} (idle : point.reader tracker = none)
    (access : Access) : point.readers tracker access = [] := by
  rw [readers, idle]
  simp

theorem Nested.current {point : Point σ} (nested : point.Nested) {tracker : TrackerId}
    (known : point.world.store.HasTracker tracker) :
    (point.world.store.tracker tracker).current = point.reader tracker := by
  rw [Tracker.current, nested.stack tracker known, reader]

/-- Whether the subscribers to a property are in a world who they were at a point, and then who has
read it there. -/
def Enlists (tracker : TrackerId) (access : Access) (point : Point σ) (world : World σ) : Prop :=
  world.store.registry tracker access =
    enlist (point.world.store.registry tracker access) (point.readers tracker access)

theorem enlists_of_silent {point : Point σ} {world : World σ} {tracker : TrackerId}
    {access : Access} (silent : point.reads = [])
    (same : world.store.registry tracker access = point.world.store.registry tracker access) :
    point.Enlists tracker access world := by
  rw [Enlists, same, readers, silent]
  rfl

theorem registry_put {point : Point σ} (nested : point.Nested) {tracker : TrackerId}
    (known : point.world.store.HasTracker tracker) {target : ContainerId} {key : Key}
    {value : Value} {next : Except ReactiveFault Unit → Task σ}
    (writes : point.work = .task (.write target key value next)) (access : Access) :
    (point.world.store.put target key value).2.registry tracker access =
      enlist (point.world.store.registry tracker access) (point.readers tracker access) := by
  let adopted := (Heap.adopt (point.world.store.heap.owner target) value point.world.store.heap).2
  have still : { point.world.store with heap := adopted }.HasTracker tracker := known
  rw [Store.registry_of_trackers (Store.trackers_put _ target key value),
    Store.registry_track still, readers, reads, writes, ← nested.current known]
  rfl

theorem Goes.enlists {point next : Point σ} (goes : point.Goes next) (nested : point.Nested)
    {tracker : TrackerId} (known : point.world.store.HasTracker tracker) (access : Access) :
    point.Enlists tracker access next.world := by
  cases goes with
  | @track frames reads next world =>
      rw [Enlists, readers, ← nested.current known]
      exact Store.registry_track known reads access
  | @refuse frames target key value next world fault store refused =>
      have put := registry_put nested known rfl access
      rw [refused] at put
      exact put
  | @report _ _ fault =>
      exact enlists_of_silent rfl (Store.registry_modifyTracker _ _
        (fun state => state.report fault) (fun _ => rfl) tracker access)
  | drain =>
      exact enlists_of_silent rfl (Store.registry_modifyTracker _ _ Tracker.dropErrors
        (fun _ => rfl) tracker access)
  | _ => exact enlists_of_silent rfl rfl

theorem Calls.enlists {point callee : Point σ} {resume : Except Fault Value → World σ → Point σ}
    (calls : point.Calls callee resume) (nested : point.Nested)
    {tracker : TrackerId} (known : point.world.store.HasTracker tracker) (access : Access) :
    point.Enlists tracker access callee.world := by
  cases calls with
  | @write frames target key value next world changed store accepted =>
      have put := registry_put nested known rfl access
      rw [accepted] at put
      exact put
  | @pop frames target next world =>
      refine enlists_of_silent rfl (Store.registry_of_trackers ?_ tracker access)
      rcases Store.takeLast_cases world.store target with nothing | ⟨_, _, _, _, taken⟩
      · rw [nothing]
      · rw [taken, Store.setContents]
  | untracked => 
      exact enlists_of_silent rfl (Store.registry_modifyTracker _ _
        (fun state => state.enter none) (fun _ => rfl) tracker access)
  | @begin _ _ effect =>
      exact enlists_of_silent rfl (Store.registry_modifyTracker _ _
        (fun state => state.enter (some effect)) (fun _ => rfl) tracker access)
  | _ => exact enlists_of_silent rfl rfl

theorem Calls.registry_resume {point callee : Point σ}
    {resume : Except Fault Value → World σ → Point σ} (calls : point.Calls callee resume)
    (outcome : Except Fault Value) (between : World σ) (tracker : TrackerId) (access : Access) :
    (resume outcome between).world.store.registry tracker access =
      between.store.registry tracker access := by
  cases calls with
  | untracked =>
      exact Store.registry_modifyTracker _ _ Tracker.leave (fun _ => rfl) tracker access
  | begin =>
      exact Store.registry_modifyTracker _ _ Tracker.leave (fun _ => rfl) tracker access
  | attempts =>
      cases outcome with
      | ok value => rfl
      | error fault =>
          exact Store.registry_modifyTracker _ _ (fun state => state.report fault) (fun _ => rfl)
            tracker access
  | _ => rfl

theorem Ends.reads {point : Point σ} {result : Except Fault Value} {after : World σ}
    (ends : point.Ends result after) : point.reads = [] := by
  cases ends <;> rfl

/-- Between each point of a run and the next one, and after the last one, exactly the readers
subscribe. -/
theorem Runs.enlists {point : Point σ} {passed : List (Point σ)} {result : Except Fault Value}
    {after : World σ} (runs : point.Runs passed result after) (nested : point.Nested)
    {tracker : TrackerId} (known : point.world.store.HasTracker tracker) (access : Access) :
    passed.IsChain (fun earlier later => earlier.Enlists tracker access later.world) ∧
      ∀ last ∈ passed.getLast?, last.Enlists tracker access after := by
  have all : ∀ inner ∈ passed, inner.Nested ∧ inner.world.store.HasTracker tracker := by
    intro inner member
    refine ⟨runs.nested nested inner member, ?_⟩
    rw [(runs.grows inner member).hasTracker]
    exact known
  obtain ⟨chain, last⟩ := runs.steps
    (fun inner world => inner.Nested ∧ inner.world.store.HasTracker tracker →
      inner.Enlists tracker access world)
    (fun ends _ => enlists_of_silent ends.reads (by rw [ends.world_eq]))
    (fun goes held => goes.enlists held.1 held.2 access)
    (fun calls held => calls.enlists held.1 held.2 access)
    (fun calls brings held => (calls.registry_resume _ _ tracker access).trans (brings held))
  refine ⟨chain.imp_of_mem_imp fun earlier _ member _ step => step (all earlier member), ?_⟩
  exact fun final member => last final member (all final (List.mem_of_getLast? member))

/-- The subscribers at a point of a run are those at its first point, and then the readers in
between, in order. -/
theorem registry_of_chain {tracker : TrackerId} {access : Access} {first point : Point σ}
    {rest earlier later : List (Point σ)}
    (chain : (first :: rest).IsChain fun earlier later =>
      earlier.Enlists tracker access later.world)
    (split : first :: rest = earlier ++ point :: later) :
    point.world.store.registry tracker access =
      enlist (first.world.store.registry tracker access)
        (earlier.flatMap (readers tracker access)) := by
  induction earlier generalizing first rest with
  | nil =>
      obtain ⟨rfl, _⟩ := List.cons.inj split
      rfl
  | cons head earlier ih =>
      obtain ⟨rfl, onward⟩ := List.cons.inj split
      cases rest with
      | nil => simp at onward
      | cons second rest =>
          obtain ⟨step, chain⟩ := List.isChain_cons_cons.mp chain
          rw [ih chain onward, List.flatMap_cons, enlist_append, step]

/-- The subscribers after a run are those before it, and then all readers, in order. -/
theorem Runs.registry_eq {point : Point σ} {passed : List (Point σ)} {result : Except Fault Value}
    {after : World σ} (runs : point.Runs passed result after) (nested : point.Nested)
    {tracker : TrackerId} (known : point.world.store.HasTracker tracker) (access : Access) :
    after.store.registry tracker access =
      enlist (point.world.store.registry tracker access)
        (passed.flatMap (readers tracker access)) := by
  obtain ⟨chain, last⟩ := runs.enlists nested known access
  obtain ⟨rest, rfl⟩ := runs.eq_cons
  rcases List.eq_nil_or_concat (point :: rest) with empty | ⟨earlier, final, split⟩
  · contradiction
  · rw [List.concat_eq_append] at split
    have member : final ∈ (point :: rest).getLast? := by simp [split]
    rw [last final member, registry_of_chain chain split, split, List.flatMap_append,
      enlist_append, List.flatMap_singleton]

/-- A read of a container is counted, as what it looks at, at the point that follows. -/
theorem reads_watch (read : Read) (id : ContainerId) (frames : List Frame)
    (next : Except Fault Answer → Task σ) (world : World σ) :
    ∃ point : Point σ,
      Goes ⟨frames, .task (TaskM.watch (fun heap => read.watch heap id) next), world⟩ point ∧
      point.frames = frames ∧
      point.reads = Store.filed world.store.heap (read.accesses world.store.heap id) :=
  ⟨_, .look, rfl, rfl⟩

end Point

/-! ## Main statement -/

namespace World

variable {σ : Type}

/-- After a run an effect is subscribed to a property if and only if it was before or its own body
has read the property in the run: at some point, its body was what was open innermost on the
tracker. What is read where no body is open, or inside a block whose reads count for no effect,
subscribes nobody, and subscribers stay, in the same order, with new ones at the end.  The reads at
a point are those that code has asked for at the point before. -/
theorem reads_count_for_own_body {world : World σ} {computation : TaskM σ Value}
    (resting : world.AtRest) (rooted : world.Rooted)
    (uses : computation.toTask.Uses world.store.HasTracker) :
    (∃ passed, Point.Runs ⟨[], .task computation.toTask, world⟩ passed (world.exec computation).1
        (world.exec computation).2 ∧
      ∀ tracker, world.store.HasTracker tracker → ∀ access,
        (∀ effect, effect ∈ (world.exec computation).2.store.registry tracker access ↔
          effect ∈ world.store.registry tracker access ∨
            ∃ point ∈ passed, (tracker, access) ∈ point.reads ∧
              point.reader tracker = some effect) ∧
        (passed.IsChain fun point next => point.reader tracker = none →
          next.world.store.registry tracker access = point.world.store.registry tracker access) ∧
        (passed.Pairwise fun earlier later =>
          earlier.world.store.registry tracker access <+:
            later.world.store.registry tracker access) ∧
        ∀ point ∈ passed, point.world.store.registry tracker access <+:
          (world.exec computation).2.store.registry tracker access) ∧
    ∀ (read : Read) (id : ContainerId) (frames : List Frame) (next : Except Fault Answer → Task σ)
      (before : World σ), ∃ point : Point σ,
        Point.Goes ⟨frames, .task (TaskM.watch (fun heap => read.watch heap id) next), before⟩
          point ∧
        point.frames = frames ∧
        point.reads = Store.filed before.store.heap (read.accesses before.store.heap id) := by
  refine ⟨?_, Point.reads_watch⟩
  obtain ⟨passed, runs⟩ := exec_runs rooted uses
  refine ⟨passed, runs, fun tracker known access => ?_⟩
  have nested : Point.Nested ⟨[], .task computation.toTask, world⟩ := resting.nested _
  obtain ⟨chain, last⟩ := runs.enlists nested known access
  have listed := runs.registry_eq nested known access
  refine ⟨fun effect => ?_, ?_, ?_, fun point member => ?_⟩
  · rw [listed, mem_enlist, List.mem_flatMap]
    simp only [Point.mem_readers]
  · refine chain.imp fun point next step idle => ?_
    rw [step, Point.readers_of_idle idle]
    rfl
  · have ordered : (passed.map fun point => point.world.store.registry tracker access).IsChain
        fun earlier later => earlier <+: later := by
      refine (List.isChain_map _).mpr (chain.imp fun earlier later step => ?_)
      rw [step]
      exact prefix_enlist _ _
    have : IsTrans (List EffectId) fun earlier later => earlier <+: later :=
      ⟨fun _ _ _ => List.IsPrefix.trans⟩
    exact List.pairwise_map.mp ordered.pairwise
  · obtain ⟨earlier, later, split⟩ := List.append_of_mem member
    obtain ⟨rest, rfl⟩ := runs.eq_cons
    rw [listed, Point.registry_of_chain chain split, split, List.flatMap_append, enlist_append]
    exact prefix_enlist _ _

/-! ## An effect inside an effect -/

/-- Reads a property. -/
def reader (data : ContainerId) (key : String) : TaskM Unit Value :=
  (Call.get data (.name key)).computation

/-- Reads `first`, makes an effect that reads `inner`, reads `hidden` in a block whose reads count
for no effect, and reads `last`. -/
def outerReader (data : ContainerId) : TaskM Unit Value := do
  let _ ← reader data "first"
  let _ ← TaskM.createEffect ⟨0⟩ (reader data "inner")
  let _ ← TaskM.untracked ⟨0⟩ (reader data "hidden")
  reader data "last"

/-- Makes an object and an effect that reads it and makes another one. -/
def startOuterReader : TaskM Unit Value := effectOnNew (.object ⟨0⟩ []) outerReader

theorem uses_startOuterReader (config : Config) :
    startOuterReader.toTask.Uses (blank config ()).store.HasTracker := by
  refine uses_effectOnNew (fun _ makes => makes) fun data => ?_
  have reads (key : String) : (reader data key).Uses (blank config ()).store.HasTracker :=
    TaskM.uses_watch fun heap => heap.get data (.name key)
  exact (reads _).bind fun _ => ((reads _).createEffect Nat.zero_lt_one).bind fun _ =>
    ((reads _).untracked ⟨0⟩).bind fun _ => reads _

/-- Whoever is subscribed after the two effects have run has read the property in its own body. -/
theorem outerReader_subscribers :
    ∃ passed, Point.Runs ⟨[], .task startOuterReader.toTask, blank .default ()⟩ passed
        ((blank .default ()).exec startOuterReader).1
        ((blank .default ()).exec startOuterReader).2 ∧
      ∀ access effect,
        effect ∈ ((blank .default ()).exec startOuterReader).2.store.registry ⟨0⟩ access ↔
          ∃ point ∈ passed, (⟨0⟩, access) ∈ point.reads ∧ point.reader ⟨0⟩ = some effect := by
  obtain ⟨⟨passed, runs, subscribed⟩, _⟩ := reads_count_for_own_body (blank_resting .default ())
    (blank_rooted .default ()) (uses_startOuterReader .default)
  refine ⟨passed, runs, fun access effect => ?_⟩
  have nobody : (blank .default ()).store.registry ⟨0⟩ access = [] := by
    simp [Store.registry, blank, Store.tracker, Store.new, Tracker.dependents, Tracker.new]
  rw [(subscribed ⟨0⟩ Nat.zero_lt_one access).1 effect, nobody]
  simp

end World

end LiveMarkup
