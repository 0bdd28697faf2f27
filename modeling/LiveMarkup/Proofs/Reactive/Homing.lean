import LiveMarkup.Proofs.Reactive.Attribution

/-!
# Where an effect is known

An effect that is only ever run by one tracker is known to no other one.  A tracker learns of an
effect when it opens a frame for it, and subscribes none but those for which it has opened one.
-/

namespace LiveMarkup

/-- Whether a tracker knows of an effect: the effect is running or has read something. -/
def Tracker.Knows (tracker : Tracker) (effect : EffectId) : Prop :=
  some effect ∈ tracker.stack ∨ ∃ access, effect ∈ tracker.dependents access

/-- A tracker in which nothing has happened knows of no effect. -/
theorem Tracker.not_knows_new (config : Config) (effect : EffectId) :
    ¬(Tracker.new config).Knows effect := by
  rintro (running | ⟨access, member⟩)
  · exact absurd running List.not_mem_nil
  · rw [dependents, new, Std.HashMap.getD_empty] at member
    exact Array.not_mem_empty effect member

/-- A read is counted for an effect that is running. -/
theorem Tracker.knows_track {tracker : Tracker} {access : Access} {effect : EffectId}
    (knows : (tracker.track access).Knows effect) : tracker.Knows effect := by
  rcases knows with running | ⟨other, member⟩
  · rw [stack_track] at running
    exact .inl running
  · rcases mem_dependents_track.mp member with old | ⟨-, current⟩
    · exact .inr ⟨other, old⟩
    · refine .inl ?_
      rw [Tracker.current] at current
      cases stack : tracker.stack with
      | nil => simp [stack] at current
      | cons frame rest =>
          rw [stack, List.head?_cons, Option.join_some] at current
          exact current ▸ List.mem_cons_self

namespace Store

/-- Whether no other tracker knows of an effect than one, its home. -/
def Homes (store : Store) (effect : EffectId) (home : TrackerId) : Prop :=
  ∀ id, (store.tracker id).Knows effect → id = home

variable {store : Store} {effect : EffectId} {home : TrackerId}

theorem Homes.of_trackers (homes : store.Homes effect home) {after : Store}
    (same : after.trackers = store.trackers) : after.Homes effect home := by
  intro id knows
  rw [tracker, same] at knows
  exact homes id knows

theorem Homes.modifyTracker (homes : store.Homes effect home) {id : TrackerId}
    {change : Tracker → Tracker}
    (keeps : ∀ tracker, (change tracker).Knows effect → tracker.Knows effect ∨ id = home) :
    (store.modifyTracker id change).Homes effect home := by
  intro other knows
  rw [tracker_modifyTracker] at knows
  split at knows
  next here =>
    rcases keeps _ knows with before | same
    · exact homes other before
    · exact here.1.trans same
  next => exact homes other knows

theorem Homes.track (homes : store.Homes effect home) (reads : Array Access) :
    (store.track reads).Homes effect home := by
  rw [track_eq_foldl]
  induction reads.toList generalizing store with
  | nil => exact homes
  | cons read rest ih =>
      exact ih (homes.modifyTracker fun _ knows => .inl (Tracker.knows_track knows))

theorem Homes.put (homes : store.Homes effect home) (id : ContainerId) (key : Key) (value : Value) :
    (store.put id key value).2.Homes effect home := by
  have adopted : Homes { store with heap := (Heap.adopt (store.heap.owner id) value store.heap).2 }
      effect home := homes.of_trackers rfl
  exact (adopted.track (store.putReads id key value)).of_trackers (trackers_put store id key value)

theorem Homes.takeLast (homes : store.Homes effect home) (id : ContainerId) :
    (store.takeLast id).2.2.Homes effect home := by
  rcases takeLast_cases store id with nothing | ⟨position, last, rest, _, taken⟩
  · rw [nothing]
    exact homes
  · rw [taken]
    exact homes.of_trackers rfl

theorem Homes.report (homes : store.Homes effect home) (id : TrackerId) (fault : Fault) :
    (store.report id fault).Homes effect home :=
  homes.modifyTracker fun _ knows => .inl knows

/-- Only its home may open a frame for the effect. -/
theorem Homes.enter (homes : store.Homes effect home) {id : TrackerId} {frame : Option EffectId}
    (own : frame = some effect → id = home) :
    (store.modifyTracker id fun tracker => tracker.enter frame).Homes effect home := by
  refine homes.modifyTracker fun tracker knows => ?_
  rcases knows with running | listed
  · rcases List.mem_cons.mp running with same | before
    · exact .inr (own same.symm)
    · exact .inl (.inl before)
  · exact .inl (.inr listed)

theorem Homes.leave (homes : store.Homes effect home) (id : TrackerId) :
    (store.modifyTracker id Tracker.leave).Homes effect home :=
  homes.modifyTracker fun _ knows => .inl (knows.imp_left List.mem_of_mem_tail)

end Store

namespace Point

open World

variable {σ : Type} {point next callee : Point σ} {resume : Except Fault Value → World σ → Point σ}
  {effect : EffectId} {home : TrackerId}

theorem Goes.homes (goes : point.Goes next) (homes : point.world.store.Homes effect home) :
    next.world.store.Homes effect home := by
  cases goes with
  | look | has | define | survey | alter => exact homes
  | @track _ reads => exact homes.track reads
  | make => exact homes.of_trackers rfl
  | @refuse _ target key value _ _ _ _ refused =>
      have put := homes.put target key value
      rw [refused] at put
      exact put
  | report => exact homes.report _ _
  | drain => exact homes.modifyTracker fun _ knows => .inl knows

theorem Calls.homes (calls : point.Calls callee resume)
    (homes : point.world.store.Homes effect home)
    (own : ∀ tracker, point.work = .attempt tracker effect → tracker = home) :
    callee.world.store.Homes effect home := by
  cases calls with
  | @write _ target key value _ _ _ _ accepted =>
      have put := homes.put target key value
      rw [accepted] at put
      exact put
  | pop => exact homes.takeLast _
  | run | attempts | tell => exact homes
  | untracked => exact homes.enter fun same => by cases same
  | begin =>
      have begun := homes.enter fun same => own _ (congrArg _ (Option.some.inj same))
      exact begun.of_trackers rfl

theorem Calls.homes_resume (calls : point.Calls callee resume) {between : World σ}
    (homes : between.store.Homes effect home) (outcome : Except Fault Value) :
    (resume outcome between).world.store.Homes effect home := by
  cases calls with
  | write | pop | run | tell => exact homes
  | untracked => exact homes.leave _
  | begin => exact homes.leave _
  | attempts =>
      cases outcome with
      | ok value => exact homes
      | error fault => exact homes.report _ fault

end Point

end LiveMarkup
