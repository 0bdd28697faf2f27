import LiveMarkup.Proofs.Reactive.Nesting

/-!
# What the limit of nested effects counts

A tracker refuses an effect once its stack is as long as its limit.  The stack mirrors the calls, so
it has one frame for each effect that is running and one for each open block whose reads count for
no effect.  Both kinds count: below the limit there may be room for no effect although none is
running.
-/

namespace LiveMarkup

namespace Point

open World

variable {σ : Type}

/-- The number of open blocks of a tracker whose reads count for no effect. -/
def paused (point : Point σ) (tracker : TrackerId) : Nat :=
  (Frame.entered point.frames tracker).countP fun effect => effect.isNone

theorem length_eq_filterMap_add_countP (stack : List (Option EffectId)) :
    stack.length = (stack.filterMap id).length + stack.countP fun effect => effect.isNone := by
  induction stack with
  | nil => rfl
  | cons frame stack ih => cases frame <;> simp [ih] <;> omega

/-- The frames of a tracker are those of its running effects and those of its open blocks. -/
theorem Nested.length_stack {point : Point σ} (nested : point.Nested) {tracker : TrackerId}
    (known : point.world.store.HasTracker tracker) :
    (point.world.store.tracker tracker).stack.length =
      (point.running tracker).length + point.paused tracker := by
  rw [nested.stack tracker known]
  exact length_eq_filterMap_add_countP _

end Point

namespace World

variable {σ : Type}

theorem not_isRunning {world : World σ} {tracker : TrackerId} {effect : EffectId}
    (waiting : effect ∉ (world.store.tracker tracker).stack.filterMap id) :
    (world.store.tracker tracker).isRunning effect = false := by
  rw [Tracker.isRunning, Bool.eq_false_iff, ne_eq, List.contains_iff_mem]
  exact fun member => waiting (List.mem_filterMap.mpr ⟨some effect, member, rfl⟩)

/-- An effect that is not running is refused as one too many, or not at all. -/
theorem refusal_of_waiting {world : World σ} {tracker : TrackerId} {effect : EffectId}
    (waiting : effect ∉ (world.store.tracker tracker).stack.filterMap id) :
    world.refusal? tracker effect =
      if (world.store.tracker tracker).config.maxEffectDepth ≤
          (world.store.tracker tracker).stack.length then
        some (.depthExceeded (world.store.tracker tracker).config.maxEffectDepth)
      else none := by
  simp only [refusal?, not_isRunning waiting, Bool.false_eq_true, if_false]

/-- An effect that is not refused is run, and that is counted. -/
theorem runCount_runEffect {world : World σ} {tracker : TrackerId} {effect : EffectId}
    (free : world.refusal? tracker effect = none) (known : world.store.HasEffect effect)
    (bound : Nat) :
    world.store.runCount effect <
      (runEffect (bound + 1) tracker effect world).2.store.runCount effect := by
  have counted : (world.begin tracker effect).store.runCount effect =
      world.store.runCount effect + 1 := by
    rw [runCount_begin, if_pos ⟨rfl, known⟩]
  have later := (interpret_extends (runEffect_extends bound) (world.body effect)
    (world.begin tracker effect)).store.runCount effect
  rw [runEffect, free]
  exact Nat.lt_of_lt_of_le (counted ▸ Nat.lt_succ_self _) later

/-! ## Main statements -/

/-- At every point of every run, an effect that is not running is refused as one too many if and
only if as many frames are open as the limit says, those of running effects and those of blocks
whose reads count for no effect taken together.  If there are fewer, the effect is run. -/
theorem limit_counts_frames {world : World σ} {computation : TaskM σ Value}
    (resting : world.AtRest) (rooted : world.Rooted)
    (uses : computation.toTask.Uses world.store.HasTracker) :
    ∃ passed, Point.Runs ⟨[], .task computation.toTask, world⟩ passed (world.exec computation).1
        (world.exec computation).2 ∧
      ∀ point ∈ passed, ∀ tracker, world.store.HasTracker tracker →
        ∀ effect, point.world.store.HasEffect effect → effect ∉ point.running tracker → ∀ bound,
          let limit := (world.store.tracker tracker).config.maxEffectDepth
          let frames := (point.running tracker).length + point.paused tracker
          (runEffect (bound + 1) tracker effect point.world =
              (.error (.reactive (.depthExceeded limit)), point.world) ↔ limit ≤ frames) ∧
          (frames < limit → point.world.store.runCount effect <
            (runEffect (bound + 1) tracker effect point.world).2.store.runCount effect) := by
  obtain ⟨passed, runs⟩ := exec_runs rooted uses
  refine ⟨passed, runs, fun point member tracker there effect known waiting bound => ?_⟩
  have nested := runs.nested (resting.nested _) point member
  have grows := runs.grows point member
  have still : point.world.store.HasTracker tracker := grows.hasTracker ▸ there
  have refusal : point.world.refusal? tracker effect = _ :=
    refusal_of_waiting (nested.stack tracker still ▸ waiting)
  rw [nested.length_stack still, grows.config] at refusal
  refine ⟨⟨fun refused => ?_, fun full => ?_⟩, fun room => ?_⟩
  · -- With a frame left the effect would have been run once more.
    refine Nat.le_of_not_lt fun room => ?_
    rw [if_neg (Nat.not_le_of_lt room)] at refusal
    have counted := runCount_runEffect refusal known bound
    rw [refused] at counted
    exact Nat.lt_irrefl _ counted
  · rw [if_pos full] at refusal
    rw [runEffect, refusal]
  · rw [if_neg (Nat.not_le_of_lt room)] at refusal
    exact runCount_runEffect refusal known bound

/-- Defines an effect that does nothing and runs it in a block whose reads count for no effect. -/
def runInBlock : TaskM Unit Value := do
  let effect ← TaskM.define (pure .undefined)
  TaskM.untracked ⟨0⟩ (Call.runEffect ⟨0⟩ effect).computation

theorem uses_runInBlock (config : Config) :
    runInBlock.toTask.Uses (blank config ()).store.HasTracker := by
  have defined : (TaskM.define (pure .undefined) : TaskM Unit EffectId).Uses
      (blank config ()).store.HasTracker := fun _ closed => ⟨trivial, fun _ => closed _⟩
  have run (effect : EffectId) : (Call.runEffect ⟨0⟩ effect : Call Unit).computation.Uses
      (blank config ()).store.HasTracker := by
    refine (TaskM.uses_tryRun Nat.zero_lt_one effect).bind fun result => ?_
    cases result with
    | ok done => exact TaskM.uses_pure _
    | error fault => exact fun _ closed => closed _
  exact (defined.bind fun effect => (run effect).untracked _).toTask

/-- The run comes to a point at which the effect is to run: it is not running yet, no other one is,
and the block is open. -/
theorem runInBlock_attempts :
    ∃ passed, Point.Runs ⟨[], .task runInBlock.toTask, blank ⟨"a-", 1⟩ ()⟩ passed
        ((blank ⟨"a-", 1⟩ ()).exec runInBlock).1 ((blank ⟨"a-", 1⟩ ()).exec runInBlock).2 ∧
      ∃ point ∈ passed, point.work = .attempt ⟨0⟩ ⟨0⟩ ∧ point.world.store.HasEffect ⟨0⟩ ∧
        point.running ⟨0⟩ = [] ∧ point.paused ⟨0⟩ = 1 ∧
        point.world.refusal? ⟨0⟩ ⟨0⟩ = some (.depthExceeded 1) := by
  refine ⟨_, .goes .define (.calls .untracked (.calls .run (.ends (.refused rfl)) (.ends .done))
    (.ends .done)), _, List.mem_cons_of_mem _ (List.mem_cons_of_mem _ (List.mem_cons_of_mem _
      List.mem_cons_self)), rfl, ?_, rfl, rfl, ?_⟩
  · exact Nat.zero_lt_one
  · rfl

/-- Where one frame may be open, a block takes it: no effect is running there, and an effect is
refused as one too many all the same. -/
theorem block_takes_last_frame :
    ∃ passed, Point.Runs ⟨[], .task runInBlock.toTask, blank ⟨"a-", 1⟩ ()⟩ passed
        ((blank ⟨"a-", 1⟩ ()).exec runInBlock).1 ((blank ⟨"a-", 1⟩ ()).exec runInBlock).2 ∧
      ∃ point ∈ passed, point.work = .attempt ⟨0⟩ ⟨0⟩ ∧ ⟨0⟩ ∉ point.running ⟨0⟩ ∧
        ¬((runEffect 1 ⟨0⟩ ⟨0⟩ point.world).1 = .error (.reactive (.depthExceeded 1)) ↔
          1 ≤ (point.running ⟨0⟩).length) := by
  obtain ⟨passed, runs, point, member, attempts, _, idle, _, refusal⟩ := runInBlock_attempts
  have refused : (runEffect 1 ⟨0⟩ ⟨0⟩ point.world).1 =
      .error (.reactive (.depthExceeded 1)) := by
    rw [runEffect, refusal]
  refine ⟨passed, runs, point, member, attempts, ?_, fun claimed => ?_⟩
  · rw [idle]
    exact List.not_mem_nil
  · have running := claimed.mp refused
    rw [idle] at running
    exact Nat.not_succ_le_zero 0 running

/-- The effect in the block is refused because the open block counts. -/
theorem open_block_counts :
    ∃ passed, Point.Runs ⟨[], .task runInBlock.toTask, blank ⟨"a-", 1⟩ ()⟩ passed
        ((blank ⟨"a-", 1⟩ ()).exec runInBlock).1 ((blank ⟨"a-", 1⟩ ()).exec runInBlock).2 ∧
      ∃ point ∈ passed, (point.running ⟨0⟩).length + point.paused ⟨0⟩ = 1 ∧
        runEffect 1 ⟨0⟩ ⟨0⟩ point.world =
          (.error (.reactive (.depthExceeded 1)), point.world) := by
  obtain ⟨passed, runs, point, member, _, known, idle, paused, _⟩ := runInBlock_attempts
  obtain ⟨others, again, counts⟩ := limit_counts_frames (blank_resting ⟨"a-", 1⟩ ())
    (blank_rooted ⟨"a-", 1⟩ ()) (uses_runInBlock ⟨"a-", 1⟩)
  obtain ⟨rfl, _⟩ := runs.unique again
  have waiting : ⟨0⟩ ∉ point.running ⟨0⟩ := by
    rw [idle]
    exact List.not_mem_nil
  have frames : (point.running ⟨0⟩).length + point.paused ⟨0⟩ = 1 := by
    rw [idle, paused]
    rfl
  refine ⟨_, again, point, member, frames, ?_⟩
  exact (counts point member ⟨0⟩ Nat.zero_lt_one ⟨0⟩ known waiting 0).1.mpr (Nat.le_of_eq frames.symm)

end World

end LiveMarkup
