import LiveMarkup.Proofs.Reactive.Endings

/-!
# Standstill

An effect that is running is not entered a second time.  So where every effect that is subscribed is
running, a write runs nothing: whoever is to be told is refused, and the refusals are all that is
reported.
-/

namespace LiveMarkup

/-- The effect that reads count for is running. -/
theorem Tracker.isRunning_of_current {tracker : Tracker} {effect : EffectId}
    (leads : tracker.current = some effect) : tracker.isRunning effect = true := by
  rw [Tracker.current] at leads
  rw [Tracker.isRunning]
  cases frames : tracker.stack with
  | nil =>
      rw [frames] at leads
      cases leads
  | cons frame rest =>
      rw [frames] at leads
      obtain rfl : frame = some effect := leads
      simp

namespace Store

variable {store after : Store} {about : ContainerId → Prop}

/-- Whether every effect that is subscribed to some of the containers is running. -/
def Engaged (store : Store) (about : ContainerId → Prop) : Prop :=
  ∀ (tracker : TrackerId) (access : Access) (effect : EffectId), about access.container →
    effect ∈ (store.tracker tracker).dependents access →
    (store.tracker tracker).isRunning effect = true

namespace Engaged

/-- This is so where nobody is subscribed. -/
theorem of_unsubscribed
    (nobody : ∀ (tracker : TrackerId) (access : Access), about access.container →
      (store.tracker tracker).dependents access = #[]) : store.Engaged about := by
  intro tracker access effect inside subscribed
  rw [nobody tracker access inside] at subscribed
  exact absurd subscribed (Array.not_mem_empty _)

/-- Nobody is subscribed to anything where nothing has happened. -/
theorem of_new (configs : List Config)
    (new : store.trackers = (configs.map Tracker.new).toArray) : store.Engaged about := by
  refine of_unsubscribed fun id access _ => ?_
  have tracker : ∃ config, store.tracker id = Tracker.new config := by
    rw [Store.tracker, new, List.getElem?_toArray, List.getElem?_map]
    cases configs[id.index]? with
    | none => exact ⟨.default, rfl⟩
    | some config => exact ⟨config, rfl⟩
  obtain ⟨config, same⟩ := tracker
  rw [same]
  simp [Tracker.dependents, Tracker.new]

theorem of_trackers (engaged : store.Engaged about) (same : after.trackers = store.trackers) :
    after.Engaged about := by
  have tracker (id : TrackerId) : after.tracker id = store.tracker id := by
    rw [Store.tracker, Store.tracker, same]
  intro id access effect inside subscribed
  rw [tracker] at subscribed ⊢
  exact engaged id access effect inside subscribed

/-- Faults do not matter. -/
theorem of_quiet (engaged : store.Engaged about) (same : after.quiet = store.quiet) :
    after.Engaged about := by
  intro id access effect inside subscribed
  have tracker : (after.tracker id).dropErrors = (store.tracker id).dropErrors := by
    rw [← tracker_quiet, ← tracker_quiet, same]
  have readers := congrArg (fun state => state.dependents access) tracker
  have frames := congrArg (fun state => state.isRunning effect) tracker
  change (after.tracker id).dependents access = (store.tracker id).dependents access at readers
  change (after.tracker id).isRunning effect = (store.tracker id).isRunning effect at frames
  rw [frames]
  exact engaged id access effect inside (readers ▸ subscribed)

theorem trackOne (engaged : store.Engaged about) (read : Access) :
    (store.trackOne read).Engaged about := by
  intro id access effect inside subscribed
  rw [Store.trackOne, tracker_modifyTracker] at subscribed ⊢
  split at subscribed
  next here =>
    rw [if_pos here]
    have running : ((store.tracker id).track read).isRunning effect =
        (store.tracker id).isRunning effect := by
      rw [Tracker.isRunning, Tracker.stack_track, Tracker.isRunning]
    rw [running]
    rcases Tracker.mem_dependents_track.mp subscribed with old | ⟨-, current⟩
    · exact engaged id access effect inside old
    · exact Tracker.isRunning_of_current current
  next elsewhere =>
    rw [if_neg elsewhere]
    exact engaged id access effect inside subscribed

/-- Whoever subscribes is running. -/
theorem track (engaged : store.Engaged about) (reads : Array Access) :
    (store.track reads).Engaged about := by
  rw [track_eq_foldl]
  induction reads.toList generalizing store with
  | nil => exact engaged
  | cons read rest ih => exact ih (engaged.trackOne read)

end Engaged

end Store

namespace World

variable {σ : Type} {about : ContainerId → Prop} {bound : Nat} {world : World σ}

/-- An effect that is running is refused. -/
theorem runEffect_of_running {tracker : TrackerId} {effect : EffectId}
    (running : (world.store.tracker tracker).isRunning effect = true) :
    runEffect bound tracker effect world = (.error (.reactive (.cycle effect)), world) := by
  have refused : world.refusal? tracker effect = some (.cycle effect) := by
    rw [refusal?, if_pos running]
  unfold runEffect
  rw [refused]

/-- Where all who are to be told are running, they are refused one after another. -/
theorem fanOut_of_running {tracker : TrackerId} {effects : List EffectId}
    (running : ∀ effect ∈ effects, (world.store.tracker tracker).isRunning effect = true) :
    ∃ store, world.fanOut (runEffect bound) tracker effects = { world with store := store } ∧
      store.quiet = world.store.quiet := by
  induction effects generalizing world with
  | nil => exact ⟨world.store, rfl, rfl⟩
  | cons effect rest ih =>
      rw [fanOut, List.foldl_cons, runEffect_of_running (running effect List.mem_cons_self)]
      let reported := world.mapStore fun store => store.report tracker (.reactive (.cycle effect))
      have frames (id : TrackerId) : (reported.store.tracker id).stack = (world.store.tracker id).stack :=
        Store.stack_report _ _ _ _
      obtain ⟨store, ends, same⟩ := @ih reported fun other listed => by
        rw [Tracker.isRunning, frames]
        exact running other (List.mem_cons_of_mem _ listed)
      exact ⟨store, ends, same.trans (Store.quiet_report _ _ _)⟩

/-- Telling the readers of some properties runs nothing where all readers are running. -/
theorem triggerAll_of_engaged {changed : List Access} (engaged : world.store.Engaged about)
    (inside : ∀ access ∈ changed, about access.container) :
    ∃ store, changed.foldl (trigger (runEffect bound)) world = { world with store := store } ∧
      store.quiet = world.store.quiet := by
  induction changed generalizing world with
  | nil => exact ⟨world.store, rfl, rfl⟩
  | cons access rest ih =>
      obtain ⟨store, told, same⟩ : ∃ store, world.fanOut (runEffect bound)
          (world.store.heap.owner access.container) (world.store.dependents access) =
            { world with store := store } ∧ store.quiet = world.store.quiet :=
        fanOut_of_running fun effect subscribed =>
          engaged _ access effect (inside access List.mem_cons_self) (Store.mem_dependents.mp subscribed)
      obtain ⟨final, ends, quiet⟩ := @ih { world with store := store } (engaged.of_quiet same)
        fun other listed => inside other (List.mem_cons_of_mem _ listed)
      refine ⟨final, ?_, quiet.trans same⟩
      rw [List.foldl_cons, trigger, told]
      exact ends

end World

end LiveMarkup
