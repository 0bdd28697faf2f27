import LiveMarkup.Proofs.Heap.Replica
import LiveMarkup.Proofs.Reactive.Storing

/-!
# Values that cross over to another tracker

A value that crosses over to another tracker is copied.  Whoever reads the copy finds what the value
has, key by key and at every depth, unless the way leads through a name that was set on an array.
-/

namespace LiveMarkup

namespace Heap

/-- Exactly on the paths that spare the names of arrays, or lead to undefined anyway, a copy matches
the value. -/
theorem Copies.matches_iff {before after : Heap} {value copy : Value} {path : List Key}
    (copies : before.Copies after value copy) (owns : before.Owns value path) :
    before.Matches after (before.follow value path) (after.follow copy path) ↔
      ¬before.PassesName value path ∨ before.follow value path = .undefined := by
  obtain ⟨spared, passed⟩ := copies.along owns
  by_cases passes : before.PassesName value path
  · rw [passed passes]
    constructor
    · intro alike
      generalize before.follow value path = found at alike
      cases alike with
      | plain plain => exact .inr rfl
    · intro either
      rw [either.resolve_left fun spares => spares passes]
      exact .plain (by simp)
  · exact ⟨fun _ => .inl passes, fun _ => (spared passes).matches⟩

end Heap

namespace World

variable {σ : Type} {world : World σ}

/-- In every world that comes about, a container of another tracker without cycles crosses over as a
copy.  Along any path of keys that are there, the copy leads to the same plain value, or to an array
of the same length, or to an object with the same keys in the same order.  This is so exactly unless
the path goes through a name that was set on an array and leads to something; behind such a name the
copy has nothing. -/
theorem crossing_keeps_unless_named (tracker : TrackerId) (root : ContainerId)
    (visited : world.Visited)
    (known : root.index < world.store.heap.containers.size)
    (foreign : world.store.heap.owner root ≠ tracker) (acyclic : world.store.heap.Acyclic root) :
    ∃ copy after,
      world.store.perform (.adopt tracker (.container root)) =
        (.container copy, { world.store with heap := after }) ∧
      world.store.heap.Grows after ∧
      ∀ path, world.store.heap.Owns (.container root) path →
        (world.store.heap.Matches after (world.store.heap.follow (.container root) path)
            (after.follow (.container copy) path) ↔
          ¬world.store.heap.PassesName (.container root) path ∨
            world.store.heap.follow (.container root) path = .undefined) ∧
        (world.store.heap.PassesName (.container root) path →
          after.follow (.container copy) path = .undefined) := by
  have closed := visited.grounded.heap.closed
  obtain ⟨copy, after, adopted, grows, copies⟩ :=
    Heap.adopt_copies closed visited.tidy known foreign acyclic
  refine ⟨copy, after, ?_, grows, fun path owns => ⟨copies.matches_iff owns, (copies.along owns).2⟩⟩
  have taken : Request.perform (.adopt tracker (.container root)) world.store.heap =
      (.container copy, after) := adopted
  rw [Store.perform, taken]

/-- An object with an array in it crosses over with both. -/
theorem lent_crosses :
    ∃ copy after,
      lent.store.perform (.adopt ⟨1⟩ (.container ⟨1⟩)) =
        (.container copy, { lent.store with heap := after }) ∧
      lent.store.heap.Matches after (.container ⟨0⟩)
        (after.follow (.container copy) [.name "a"]) := by
  obtain ⟨copy, after, taken, -, paths⟩ :=
    crossing_keeps_unless_named ⟨1⟩ ⟨1⟩ lent_visited (by decide) (by decide) (lent_acyclic ⟨1⟩)
  obtain ⟨alike, -⟩ := paths [.name "a"] ⟨rfl, trivial⟩
  refine ⟨copy, after, taken, alike.mpr (.inl fun passes => ?_)⟩
  rcases passes with ⟨isArray, -⟩ | later
  · cases isArray
  · exact later

/-- Two trackers.  The first one has an array that it has set a name on. -/
def tagged : World Unit :=
  let trackers : World Unit := ⟨.new [.default, .default], (), #[]⟩
  let items := (trackers.exec (Operation.array ⟨0⟩ []).computation).2
  (items.exec (Operation.set ⟨0⟩ (.name "tag") (.text "x")).computation).2

theorem tagged_heap : tagged.store.heap =
    ⟨#[⟨⟨0⟩, .array #[] ⟨[(.name "tag", .text "x")]⟩⟩], #[], #[]⟩ := by
  let trackers : World Unit := ⟨.new [.default, .default], (), #[]⟩
  let items := (trackers.exec (Operation.array ⟨0⟩ []).computation).2
  have engaged : items.store.Engaged (· = ⟨0⟩) := .of_new [.default, .default] rfl
  obtain ⟨after, sets, rested⟩ := set_ends items.store.room engaged (.name "tag") (.text "x")
  have ends : (Operation.set ⟨0⟩ (.name "tag") (.text "x") : Operation Unit).computation.Ends
      (runEffect items.store.room) items (.ok .undefined) after := sets.bind (.pure _ after)
  have result : tagged = after := congrArg Prod.snd (ends Task.done)
  rw [result, rested.heap]
  rfl

theorem tagged_visited : tagged.Visited := by
  refine .between (.run (.run (.start (by simp) ()) ?_) ?_)
  · exact ⟨by decide, fun _ member => absurd member List.not_mem_nil⟩
  · exact ⟨by decide, fun id same => by cases same⟩

/-- The name is missing in the copy. -/
theorem tagged_loses_name :
    let taken := tagged.store.perform (.adopt ⟨1⟩ (.container ⟨0⟩))
    tagged.Visited ∧ tagged.store.heap.owner ⟨0⟩ ≠ ⟨1⟩ ∧ tagged.store.heap.Acyclic ⟨0⟩ ∧
      tagged.store.heap.Owns (.container ⟨0⟩) [.name "tag"] ∧
      ¬tagged.store.heap.Matches taken.2.heap
        (tagged.store.heap.follow (.container ⟨0⟩) [.name "tag"])
        (taken.2.heap.follow taken.1 [.name "tag"]) := by
  intro taken
  have copied : (taken.1, taken.2.heap) =
      Request.perform (.adopt ⟨1⟩ (.container ⟨0⟩)) tagged.store.heap := rfl
  rw [tagged_heap] at copied ⊢
  obtain ⟨copy, after⟩ := Prod.mk.inj copied
  rw [copy, after]
  refine ⟨tagged_visited, by decide, ?_, ⟨rfl, trivial⟩, fun alike => ?_⟩
  · refine Heap.acyclic_of_descends (fun id other held => ?_) _
    obtain ⟨index⟩ := id
    cases index with
    | zero => cases List.mem_singleton.mp held
    | succ index => cases held
  · change Heap.Matches _ _ (.text "x") .undefined at alike
    cases alike

end World

end LiveMarkup
