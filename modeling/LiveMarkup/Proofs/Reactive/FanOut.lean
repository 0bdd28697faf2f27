import LiveMarkup.Proofs.Reactive.Endings

/-!
# Fan-out

A write that is taken is stored before anybody is told.  Then whoever has read the property runs,
one after another in the order of their first reads, and after that, if an array has another length
now, whoever has read that.  Each of them is attempted once, and whether the attempt is refused, or
fails, only matters to the list of faults.
-/

namespace LiveMarkup

namespace Store

/-- Whether a write has stored its value, taken over where that is necessary.  A write to the length
of an array has given it the length that the value names. -/
def Stores (before : Store) (id : ContainerId) (key : Key) (value : Value) (after : Store) : Prop :=
  match Heap.adopt (before.heap.owner id) value before.heap with
  | (taken, heap) =>
      if key.isLength && (before.heap.contents id).isArray then
        ∃ length, Contents.validLength? ((heap.toNumber taken).run #[]).1 = some length ∧
          after.heap.contents id = (before.heap.contents id).setLength length
      else after.heap.peek id key = taken

end Store

namespace Point

open World

variable {σ : Type}

/-! ## Runs within runs -/

/-- A run from a point that calls another one is made of the called run and what comes after it. -/
theorem Runs.of_calls {point callee : Point σ} {resume : Except Fault Value → World σ → Point σ}
    {passed : List (Point σ)} {result : Except Fault Value} {after : World σ}
    (runs : point.Runs passed result after) (calls : point.Calls callee resume) :
    ∃ inside outcome between onward, callee.Runs inside outcome between ∧
      (resume outcome between).Runs onward result after := by
  cases runs with
  | ends ends => exact absurd calls ends.not_calls
  | goes goes _ => exact absurd calls goes.not_calls
  | calls here called later =>
      obtain ⟨rfl, rfl⟩ := calls.unique here
      exact ⟨_, _, _, _, called, later⟩

/-- What is passed from a point on begins with a run from it. -/
theorem Runs.within {point inner : Point σ} {passed earlier later : List (Point σ)}
    {result : Except Fault Value} {after : World σ} (runs : point.Runs passed result after)
    (split : passed = earlier ++ inner :: later) :
    ∃ inside rest outcome between, inner.Runs inside outcome between ∧
      inner :: later = inside ++ rest := by
  induction runs generalizing earlier later with
  | @ends point result after here =>
      cases earlier with
      | nil =>
          obtain ⟨rfl, rfl⟩ := List.cons.inj split
          exact ⟨_, [], result, after, .ends here, rfl⟩
      | cons head earlier => simp at split
  | @goes point next passed result after here onward ih =>
      cases earlier with
      | nil =>
          obtain ⟨rfl, rfl⟩ := List.cons.inj split
          exact ⟨_, [], result, after, .goes here onward, (List.append_nil _).symm⟩
      | cons head earlier => exact ih (List.cons.inj split).2
  | @calls point callee resume inside passed outcome result between after here called onward
      ihCalled ihLater =>
      cases earlier with
      | nil =>
          obtain ⟨rfl, rfl⟩ := List.cons.inj split
          exact ⟨_, [], result, after, .calls here called onward, (List.append_nil _).symm⟩
      | cons head earlier =>
          rcases List.append_eq_append_iff.mp (List.cons.inj split).2 with
            ⟨between, _, rest⟩ | ⟨between, before, rest⟩
          · exact ihLater rest
          · cases between with
            | nil =>
                have here : passed = [] ++ inner :: later := rest.symm
                exact ihLater here
            | cons head between =>
                obtain ⟨rfl, rfl⟩ := List.cons.inj rest
                obtain ⟨own, tail, outcome, finish, runs, whole⟩ := ihCalled before
                refine ⟨own, tail ++ passed, outcome, finish, runs, ?_⟩
                rw [← List.append_assoc, ← whole]
                rfl

/-! ## Attempts one after another -/

/-- An attempt to run an effect. -/
structure Trial (σ : Type) where
  /-- The effect. -/
  effect : EffectId
  /-- The world that it starts in. -/
  start : World σ
  /-- What it passes. -/
  passed : List (Point σ)
  /-- How it ends. -/
  outcome : Except Fault Value
  /-- The world that it ends in. -/
  finish : World σ

/-- Whether effects are attempted one after another, each once.  The next one starts where the one
before has ended, with its fault reported if there is one. -/
inductive FansOut (frames : List Frame) (tracker : TrackerId) :
    World σ → List (Trial σ) → World σ → Prop
  /-- No effect is left. -/
  | nil {world : World σ} : FansOut frames tracker world [] world
  /-- The first effect is attempted. -/
  | cons {trial : Trial σ} {rest : List (Trial σ)} {after : World σ}
      (runs : Point.Runs ⟨frames, .attempt tracker trial.effect, trial.start⟩ trial.passed
        trial.outcome trial.finish)
      (later : FansOut frames tracker (trial.finish.settle tracker trial.outcome) rest after) :
      FansOut frames tracker trial.start (trial :: rest) after

/-- A run of several effects attempts them one after another. -/
theorem Runs.fansOut {frames : List Frame} {tracker : TrackerId} {effects : List EffectId}
    {world after : World σ} {passed : List (Point σ)} {result : Except Fault Value}
    (runs : Point.Runs ⟨frames, .attempts tracker effects, world⟩ passed result after) :
    ∃ trials, trials.map Trial.effect = effects ∧ FansOut frames tracker world trials after := by
  induction effects generalizing world passed with
  | nil =>
      obtain ⟨_, _, rfl⟩ := (Runs.ends .attempted).unique runs
      exact ⟨[], rfl, .nil⟩
  | cons effect rest ih =>
      obtain ⟨inside, outcome, finish, onward, called, later⟩ := runs.of_calls .attempts
      obtain ⟨trials, effects, fansOut⟩ := ih later
      let trial : Trial σ := ⟨effect, world, inside, outcome, finish⟩
      have whole : FansOut frames tracker trial.start (trial :: trials) after :=
        .cons called fansOut
      exact ⟨trial :: trials, by rw [List.map_cons, effects], whole⟩

/-- During a fan-out too, exactly the readers subscribe. -/
theorem FansOut.registry_eq {frames : List Frame} {tracker : TrackerId} {world after : World σ}
    {trials : List (Trial σ)} (fansOut : FansOut frames tracker world trials after)
    (nested : ∀ work, Nested ⟨frames, work, world⟩) {id : TrackerId}
    (known : world.store.HasTracker id) (access : Access) :
    after.store.registry id access =
      enlist (world.store.registry id access)
        ((trials.flatMap Trial.passed).flatMap (readers id access)) := by
  induction fansOut with
  | nil => rfl
  | @cons trial rest after runs later ih =>
      have extends_ : trial.start.Extends (trial.finish.settle tracker trial.outcome) :=
        runs.extends_.trans (settle_extends _ _ _)
      have settled : (trial.finish.settle tracker trial.outcome).store.registry id access =
          trial.finish.store.registry id access := by
        cases trial.outcome with
        | ok value => rfl
        | error fault =>
            exact Store.registry_modifyTracker _ _ (fun state => state.report fault) (fun _ => rfl)
              id access
      have still : (trial.finish.settle tracker trial.outcome).store.HasTracker id := by
        rw [extends_.hasTracker]
        exact known
      have onward (work : Work σ) :
          Nested ⟨frames, work, trial.finish.settle tracker trial.outcome⟩ :=
        (nested work).of_extends extends_ rfl
      rw [ih onward still, settled, runs.registry_eq (nested _) known access, List.flatMap_cons,
        List.flatMap_append, enlist_append]

/-- What a write tells after it has stored: first who has read the property, and then, if an array
has another length now and this is not what was written, who has read the length by then. -/
def Tells (frames : List Frame) (id : ContainerId) (key : Key) (before stored : World σ)
    (first : List (Trial σ)) (middle : World σ) (second : List (Trial σ)) (after : World σ) :
    Prop :=
  FansOut frames (before.store.heap.owner id) stored first middle ∧
  first.map Trial.effect = stored.store.registry (before.store.heap.owner id) ⟨id, key⟩ ∧
  FansOut frames (before.store.heap.owner id) middle second after ∧
  second.map Trial.effect =
    if before.store.heap.isArray id ∧
        (stored.store.heap.contents id).count ≠ (before.store.heap.contents id).count ∧
        key.isLength = false then
      middle.store.registry (before.store.heap.owner id) ⟨id, .length⟩
    else []

theorem Runs.tells {frames : List Frame} {id : ContainerId} {key : Key} {value : Value}
    {next : Except ReactiveFault Unit → Task σ} {world final : World σ} {changed : List Access}
    {stored : Store} {passed : List (Point σ)} {result : Except Fault Value}
    (runs : Point.Runs ⟨frames, .task (.write id key value next), world⟩ passed result final)
    (known : id.index < world.store.heap.containers.size)
    (accepted : world.store.put id key value = (.ok changed, stored)) :
    ∃ first middle second after onward,
      Tells frames id key world { world with store := stored } first middle second after ∧
      Point.Runs ⟨frames, .task (next (.ok ())), after⟩ onward result final := by
  obtain ⟨put⟩ := Store.put_ok accepted
  have owner : stored.heap.owner id = world.store.heap.owner id := put.keeps.owner id known
  obtain ⟨_, _, after, onward, telling, later⟩ := runs.of_calls (.write accepted)
  have told := put.changed_eq
  rw [put.contents_before known, ← put.contents_after known] at told
  rw [told, Store.told] at telling
  obtain ⟨_, _, middle, _, attempts, rest⟩ := telling.of_calls .tell
  obtain ⟨first, effects, fansOut⟩ := attempts.fansOut
  rw [Store.dependents_eq, owner] at effects
  rw [owner] at fansOut
  have changes : ((world.store.heap.contents id).isArray &&
      (world.store.heap.contents id).count != (stored.heap.contents id).count &&
        !key.isLength) = true ↔
      world.store.heap.isArray id ∧
        (stored.heap.contents id).count ≠ (world.store.heap.contents id).count ∧
        key.isLength = false := by
    rw [Bool.and_eq_true, Bool.and_eq_true, bne_iff_ne, Bool.not_eq_true', and_assoc, ne_comm]
    rfl
  by_cases longer : ((world.store.heap.contents id).isArray &&
      (world.store.heap.contents id).count != (stored.heap.contents id).count &&
        !key.isLength) = true
  · rw [if_pos longer] at rest
    obtain ⟨_, _, final, _, attemptsLater, told⟩ := rest.of_calls .tell
    obtain ⟨_, _, rfl⟩ := (Runs.ends .told).unique told
    obtain ⟨second, effectsLater, fansOutLater⟩ := attemptsLater.fansOut
    have stays : middle.store.heap.owner id = world.store.heap.owner id :=
      (attempts.extends_.store.heap.owner id
        (Nat.lt_of_lt_of_le known put.keeps.size_le)).trans owner
    rw [Store.dependents_eq, stays] at effectsLater
    rw [stays] at fansOutLater
    exact ⟨first, middle, second, _, onward, ⟨fansOut, effects, fansOutLater,
      effectsLater.trans (if_pos (changes.mp longer)).symm⟩, later⟩
  · rw [if_neg longer] at rest
    obtain ⟨_, _, rfl⟩ := (Runs.ends .told).unique rest
    exact ⟨first, _, [], _, onward, ⟨fansOut, effects, .nil,
      (if_neg fun both => longer (changes.mpr both)).symm⟩, later⟩

end Point

/-! ## Main statement -/

namespace World

variable {σ : Type}

end World

end LiveMarkup
