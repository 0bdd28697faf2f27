import LiveMarkup.Proofs.Reactive.Adequacy
import LiveMarkup.Proofs.Reactive.Yield

/-!
# Refused writes

A container refuses an index that is too great and a length that is none.  It finds that out only
after the value has been taken over and, for a length, read as a number, so a refused write may have
made copies and counted reads.  It has done nothing else: what a container held it holds, no effect
has run, and no fault was reported.
-/

namespace LiveMarkup

variable {σ : Type}

namespace Store

/-- A refused write has at most made copies and counted reads. -/
theorem steady_of_refused {store after : Store} {id : ContainerId} {key : Key} {value : Value}
    {fault : ReactiveFault} (refused : store.put id key value = (.error fault, after)) :
    store.Steady after := by
  obtain ⟨reads, rfl⟩ := put_error refused
  exact (Steady.perform store (.adopt (store.heap.owner id) value)).trans (.track _ reads)

end Store

namespace World

variable {runner : Runner σ} {world after : World σ} {target : ContainerId} {key : Key} {value : Value}
  {fault : ReactiveFault}

theorem put_of_refused (refused : world.write runner target key value = (.error fault, after)) :
    ∃ store, world.store.put target key value = (.error fault, store) ∧
      after = { world with store := store } := by
  cases taken : world.store.put target key value with
  | mk result store =>
      cases result with
      | error other =>
          simp only [write, taken] at refused
          obtain ⟨same, rfl⟩ := Prod.mk.inj refused
          obtain rfl := Except.error.inj same
          exact ⟨store, rfl, rfl⟩
      | ok changed =>
          simp only [write, taken] at refused
          cases (Prod.mk.inj refused).1

/-- A write that is refused changes nothing that was there and asks nobody to run an effect.  Where
the refusal is reported, this one report is all that is added. -/
theorem refused_write_changes_nothing
    (refused : world.write runner target key value = (.error fault, after)) :
    (∀ id : ContainerId, id.index < world.store.heap.containers.size →
      after.store.heap.contents id = world.store.heap.contents id) ∧
      after.store.runs = world.store.runs ∧
      (∀ id, (after.store.tracker id).errors = (world.store.tracker id).errors) ∧
      (∀ id, (after.store.tracker id).stack = (world.store.tracker id).stack) ∧
      after.surroundings = world.surroundings ∧ after.bodies = world.bodies ∧
      (∀ other : Runner σ, world.write other target key value = (.error fault, after)) ∧
      (TaskM.tryWrite target key value).Ends runner world (.ok (.error fault)) after ∧
      (TaskM.set target key value).Ends runner world (.ok ())
        (after.mapStore fun store =>
          store.report (after.store.heap.owner target) (.reactive fault)) := by
  obtain ⟨store, taken, rfl⟩ := put_of_refused refused
  have steady := Store.steady_of_refused taken
  have any (other : Runner σ) : world.write other target key value =
      (.error fault, { world with store := store }) := by
    simp only [write, taken]
  have tries : (TaskM.tryWrite target key value).Ends runner world (.ok (.error fault))
      { world with store := store } := fun next => by
    simp only [TaskM.tryWrite, interpret, refused]
  refine ⟨fun id known => congrArg Container.contents (steady.heap.container id known), steady.runs,
    steady.errors, steady.stack, rfl, rfl, any, tries, tries.bind ?_⟩
  exact .bind (.look _ _) (.report _ _ _)

/-- An array takes no item behind the greatest length, and stays as it is. -/
theorem overlong_write_changes_nothing :
    let world := ((blank .default ()).exec (TaskM.make (.array ⟨0⟩ [.bool true]))).2
    ∃ after, world.write (runEffect 100) ⟨0⟩ (.index maxArrayLength) .null =
        (.error (.indexOutOfRange maxArrayLength maxArrayLength), after) ∧
      after.store.heap.contents ⟨0⟩ = world.store.heap.contents ⟨0⟩ ∧
      (TaskM.set ⟨0⟩ (.index maxArrayLength) .null).Ends (runEffect 100) world (.ok ())
        (after.mapStore fun store => store.report (after.store.heap.owner ⟨0⟩)
          (.reactive (.indexOutOfRange maxArrayLength maxArrayLength))) := by
  intro world
  have refused : world.write (runEffect 100) ⟨0⟩ (.index maxArrayLength) .null =
      (.error (.indexOutOfRange maxArrayLength maxArrayLength), world) := rfl
  have spared := refused_write_changes_nothing refused
  exact ⟨world, refused, spared.1 ⟨0⟩ Nat.zero_lt_one, spared.2.2.2.2.2.2.2.2⟩

end World

end LiveMarkup
