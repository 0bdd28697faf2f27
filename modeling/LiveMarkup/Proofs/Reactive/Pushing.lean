import LiveMarkup.Proofs.Expr.Append

/-!
# What `push` tells

Appending answers with the length that the list should have then.  It is a write like any other, and
a refusal of it is only reported, so at the greatest length the answer is one too many: nothing has
been appended, and the last item that is removed next is one that was there before.
-/

namespace LiveMarkup

namespace Contents

/-- Removing the last item takes an append back. -/
theorem pop?_push (items : Array Value) (named : Assoc Key Value) (value : Value) :
    (array (items.push value) named).pop? = some (items.size, value, array items named) := by
  simp [pop?]

end Contents

namespace World

variable {σ : Type} {world : World σ} {list : ContainerId} {items : Array Value}
  {named : Assoc Key Value} {value : Value}

/-- What the list holds after an append. -/
theorem contents_append (value : Value)
    (contents : world.store.heap.contents list = .array items named) :
    (world.store.put list (.index items.size) value).2.heap.contents list =
      if items.size < maxArrayLength then
        .array (items.push (world.store.perform (.adopt (world.store.heap.owner list) value)).1) named
      else .array items named := by
  rw [Store.put_append contents]
  split
  · exact Heap.contents_setContents (Store.known_of_perform contents) _
  · exact Store.contents_perform contents

/-- Removing the last item takes an append back. -/
theorem pop_ends_push (bound : Nat)
    (contents : world.store.heap.contents list = .array (items.push value) named)
    (engaged : world.store.Engaged (· = list)) :
    ∃ after, (TaskM.pop list).Ends (runEffect bound) world (.ok value) after ∧
      after.store.heap.contents list = .array items named := by
  have taken : world.store.takeLast list =
      (value, [⟨list, .index items.size⟩, ⟨list, .length⟩],
        world.store.setContents list (.array items named)) := by
    simp only [Store.takeLast, contents, Contents.pop?_push]
  obtain ⟨after, pops, rested⟩ := pop_ends bound engaged
  rw [taken] at pops rested
  refine ⟨after, pops, ?_⟩
  rw [rested.heap]
  exact Heap.contents_setContents (Heap.known_of_array contents) _

/-- Whether the answer of `push` is the length of the list after it, and whether a call of `pop` gives
back what has been appended, if the answer says that something has been, and the list as it was. -/
structure PushTruth (list : ContainerId) (taken : Value) (before : World σ) (answer : Nat)
    (after : World σ) (popped : Value) (final : World σ) : Prop where
  /-- The answer is the length. -/
  length : answer = (after.store.heap.contents list).count
  /-- The call of `pop` takes the call of `push` back. -/
  undone : answer = (before.store.heap.contents list).count + 1 →
    popped = taken ∧ final.store.heap.contents list = before.store.heap.contents list

/-- While all readers of a list are running, `push` answers with one more than the length of the list
and changes nothing but the list.  The answer is true exactly below the greatest length. -/
theorem push_truth_iff (bound : Nat) (value : Value)
    (contents : world.store.heap.contents list = .array items named)
    (engaged : world.store.Engaged (· = list)) :
    ∃ after popped final,
      (TaskM.push list value).Ends (runEffect bound) world (.ok (items.size + 1)) after ∧
      (TaskM.pop list).Ends (runEffect bound) after (.ok popped) final ∧
      world.ChangesOnly list after ∧
      (PushTruth list (world.store.perform (.adopt (world.store.heap.owner list) value)).1 world
          (items.size + 1) after popped final ↔
        items.size < maxArrayLength) := by
  obtain ⟨after, pushes, rested⟩ := push_ends bound value contents engaged
  have contentsNow := contents_append value contents
  rw [← rested.heap] at contentsNow
  by_cases room : items.size < maxArrayLength
  · rw [if_pos room] at contentsNow
    obtain ⟨final, pops, contentsThen⟩ := pop_ends_push bound contentsNow rested.engaged
    refine ⟨after, _, final, pushes, pops, rested.changes, fun _ => room, fun _ => ?_⟩
    constructor
    · rw [contentsNow, Contents.count, Array.size_push]
    · exact fun _ => ⟨rfl, contentsThen.trans contents.symm⟩
  · rw [if_neg room] at contentsNow
    obtain ⟨final, pops, -⟩ := pop_ends bound rested.engaged
    refine ⟨after, _, final, pushes, pops, rested.changes, fun truth => ?_, fun below => absurd below room⟩
    have told := truth.length
    rw [contentsNow, Contents.count] at told
    omega

open LiveMarkup.Expr (holdingList engaged_holdingList)

/-- A second item is appended to a list with one. -/
theorem push_second_true :
    let world := holdingList #[.null]
    ∃ after popped final,
      (TaskM.push ⟨0⟩ (.bool true)).Ends (runEffect world.store.room) world (.ok 2) after ∧
      (TaskM.pop ⟨0⟩).Ends (runEffect world.store.room) after (.ok popped) final ∧
      PushTruth ⟨0⟩ (.bool true) world 2 after popped final := by
  intro world
  obtain ⟨after, popped, final, pushes, pops, -, truth⟩ :=
    push_truth_iff world.store.room (.bool true) rfl (engaged_holdingList _)
  exact ⟨after, popped, final, pushes, pops, truth.mpr (by decide)⟩

/-- A full list takes nothing, and still the answer is one more than its length. -/
theorem push_full_untrue :
    let items := Array.replicate maxArrayLength Value.undefined
    let world := holdingList items
    ∃ after popped final,
      (TaskM.push ⟨0⟩ (.bool true)).Ends (runEffect world.store.room) world (.ok (items.size + 1))
        after ∧
      (TaskM.pop ⟨0⟩).Ends (runEffect world.store.room) after (.ok popped) final ∧
      ¬PushTruth ⟨0⟩ (.bool true) world (items.size + 1) after popped final := by
  intro items
  have full : items.size = maxArrayLength := Array.size_replicate
  clear_value items
  intro world
  obtain ⟨after, pushes, rested⟩ :=
    push_ends world.store.room (.bool true) rfl (engaged_holdingList items)
  obtain ⟨final, pops, -⟩ := pop_ends world.store.room rested.engaged
  refine ⟨after, _, final, pushes, pops, fun truth => ?_⟩
  have told := truth.length
  rw [rested.heap, contents_append _ rfl, if_neg (full ▸ Nat.lt_irrefl _), Contents.count] at told
  omega

end World

end LiveMarkup
