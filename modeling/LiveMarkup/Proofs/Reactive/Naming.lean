import LiveMarkup.Proofs.Expr.Keyed
import LiveMarkup.Proofs.Reactive.Territory

/-!
# Texts tell properties apart

Code names properties by texts, by positions and by computed values, and a text that could be taken
for a position is one.  So however containers have come about, two properties of one container are
written differently, and an object loses none of them when it is written to JSON.
-/

namespace LiveMarkup

variable {σ : Type} {world : World σ}

/-! ## Operations -/

namespace Operation

/-- Whether the keys of an operation were obtained, and all that an effect will use. -/
def Keyed (world : World σ) : Operation σ → Prop
  | object _ entries => ∀ entry ∈ entries, entry.1.Obtained
  | set _ key _ | trySet _ key _ => key.Obtained
  | effect _ body => body.Keyed world.store.heap fun _ _ => True
  | array _ _ | adopt _ _ | data _ _ | push _ _ | pop _ | evaluate _ _ _ => True

theorem Keyed.computation {operation : Operation σ} (keyed : operation.Keyed world) :
    operation.computation.Keyed world.store.heap fun _ _ => True := by
  cases operation with
  | object tracker entries => exact TaskM.keyed_make keyed
  | array tracker items => exact TaskM.keyed_make trivial
  | adopt tracker value => exact TaskM.keyed_make trivial
  | data tracker json => exact TaskM.keyed_make trivial
  | set target key value =>
      exact (TaskM.keyed_set (.inl keyed) value).bind fun _ _ _ _ => TaskM.keyed_pure trivial
  | trySet target key value =>
      exact (TaskM.keyed_tryWrite (.inl keyed) value).bind fun _ _ _ _ => TaskM.keyed_pure trivial
  | push target value =>
      exact (TaskM.keyed_push target value).bind fun _ _ _ _ => TaskM.keyed_pure trivial
  | pop target => exact TaskM.keyed_pop target
  | evaluate source scope bindings => exact keyed_evaluate source scope bindings
  | effect tracker body =>
      exact (TaskM.Keyed.createEffect keyed tracker).bind fun _ _ _ _ => TaskM.keyed_pure trivial

end Operation

/-! ## Worlds -/

namespace World

/-- Whether a world is what operations of some kind lead to, from trackers in which nothing has
happened. -/
inductive AttainedBy (kind : World σ → Operation σ → Prop) : World σ → Prop
  /-- Nothing has happened. -/
  | start {configs : List Config} (some : configs ≠ []) (surroundings : σ) :
      AttainedBy kind ⟨.new configs, surroundings, #[]⟩
  /-- An operation is run. -/
  | run {world : World σ} {operation : Operation σ} (attained : AttainedBy kind world)
      (allowed : operation.Allowed world) (fits : kind world operation) :
      AttainedBy kind (world.exec operation.computation).2

/-- Whether a world is there between operations of some kind, or at some point inside of one. -/
inductive VisitedBy (kind : World σ → Operation σ → Prop) : World σ → Prop
  /-- It is there between operations. -/
  | between {world : World σ} (attained : AttainedBy kind world) : VisitedBy kind world
  /-- It is there at a point of the run of an operation. -/
  | inside {world after : World σ} {operation : Operation σ} {passed : List (Point σ)}
      {result : Except Fault Value} {point : Point σ} (attained : AttainedBy kind world)
      (allowed : operation.Allowed world) (fits : kind world operation)
      (runs : Point.Runs ⟨[], .task operation.computation.toTask, world⟩ passed result after)
      (member : point ∈ passed) : VisitedBy kind point.world

variable {kind : World σ → Operation σ → Prop}

theorem AttainedBy.attained (attained : world.AttainedBy kind) : world.Attained := by
  induction attained with
  | start some surroundings => exact .start some surroundings
  | run _ allowed _ ih => exact .run ih allowed

theorem VisitedBy.visited (visited : world.VisitedBy kind) : world.Visited := by
  cases visited with
  | between attained => exact .between attained.attained
  | inside attained allowed _ runs member => exact .inside attained.attained allowed runs member

/-- An operation with obtained keys keeps everything keyed, at its end and at all points of its run.
-/
theorem Keyed.along {after : World σ} {operation : Operation σ} {passed : List (Point σ)}
    {result : Except Fault Value} (keyed : world.Keyed) (named : operation.Keyed world)
    (runs : Point.Runs ⟨[], .task operation.computation.toTask, world⟩ passed result after) :
    (∀ point ∈ passed, point.Keyed) ∧ after.Keyed :=
  runs.keyed ⟨keyed, named.computation.toTask⟩

theorem AttainedBy.keyed (attained : world.AttainedBy Operation.Keyed) : world.Keyed := by
  induction attained with
  | start some surroundings =>
      exact ⟨fun _ _ member => absurd member List.not_mem_nil,
        fun _ member => absurd member (Array.not_mem_empty _)⟩
  | run attained allowed named ih =>
      obtain ⟨passed, runs⟩ := exec_runs_of_kept Point.grounded_kept
        ⟨attained.attained.grounded, (Operation.grounded allowed).toTask⟩
      exact (ih.along named runs).2

theorem VisitedBy.keyed (visited : world.VisitedBy Operation.Keyed) : world.Keyed := by
  cases visited with
  | between attained => exact attained.keyed
  | inside attained allowed named runs member =>
      exact ((attained.keyed.along named runs).1 _ member).world

/-- A text is the text of the key that it addresses, and an obtained key is addressed by its text.
In every world that operations with obtained keys lead to, also inside of operations and effects,
two keys under which there is something in one container differ in their texts, and the JSON of an
object has one member for each of its properties, under the text of its key. -/
theorem texts_tell_keys_apart (visited : world.VisitedBy Operation.Keyed) :
    (∀ text, (Key.ofText text).text = text) ∧
    (∀ key : Key, key.Obtained → Key.ofText key.text = key) ∧
    (∀ id first second, world.store.heap.contains id first = true →
      world.store.heap.contains id second = true → first.Fits → second.Fits →
        first.text = second.text → first = second) ∧
    ∀ id properties, world.store.heap.contents id = .object properties →
      ∀ depth path json, world.store.heap.toJsonWithin (depth + 1) path (.container id) = some json →
        ∃ rows members,
          List.Forall₂ (world.store.heap.WritesRow depth (id :: path)) properties.entries rows ∧
          json = .object members ∧ members.Perm rows := by
  have keyed := visited.keyed.heap
  refine ⟨Key.text_ofText, fun key => Key.obtained_iff.mp,
    fun id first second here there fits fitsToo alike => ?_,
    fun id properties contents depth path json written => ?_⟩
  · exact ((keyed id).obtained_of_contains fits here).eq_of_text
      ((keyed id).obtained_of_contains fitsToo there) alike
  · have tidy := visited.visited.tidy id
    have obtained := keyed id
    rw [contents] at tidy
    rw [Contents.Keyed, contents] at obtained
    exact Heap.toJsonWithin_object contents obtained tidy.distinct written

/-- An object that was made under two texts, of which only one is that of a position, and under
another position. -/
def spelled : World Unit :=
  let blank : World Unit := ⟨.new [.default], (), #[]⟩
  let entries : List (Key × Value) :=
    [(.ofText "1", .bool true), (.ofText "01", .null), (.index 2, .text "two")]
  (blank.exec (Operation.object ⟨0⟩ entries).computation).2

theorem spelled_visited : spelled.VisitedBy Operation.Keyed := by
  refine .between (.run (.start (by simp) ()) ⟨by decide, ?_⟩ ?_)
  · refine List.forall_mem_cons.mpr ⟨?_, List.forall_mem_cons.mpr ⟨?_, List.forall_mem_singleton.mpr ?_⟩⟩
    all_goals exact fun _ same => nomatch same
  · exact List.forall_mem_cons.mpr ⟨.text "1", List.forall_mem_cons.mpr ⟨.text "01",
      List.forall_mem_singleton.mpr (.index (by decide))⟩⟩

theorem spelled_apart : spelled.VisitedBy Operation.Keyed ∧
    spelled.store.heap.contains ⟨0⟩ (.index 1) = true ∧
    spelled.store.heap.contains ⟨0⟩ (.name "01") = true ∧ (Key.index 1).text ≠ (Key.name "01").text ∧
    ∃ rows, rows.map Prod.fst = ["1", "01", "2"] ∧
      [("01", Json.null), ("1", .bool true), ("2", .string "two")].Perm rows := by
  obtain ⟨_, _, apart, listed⟩ := texts_tell_keys_apart spelled_visited
  have here : spelled.store.heap.contains ⟨0⟩ (.index 1) = true := by decide +kernel
  have there : spelled.store.heap.contains ⟨0⟩ (.name "01") = true := by decide +kernel
  have json : spelled.store.heap.toJsonWithin 2 [] (.container ⟨0⟩) =
      some (.object [("01", .null), ("1", .bool true), ("2", .string "two")]) := by rfl
  refine ⟨spelled_visited, here, there, fun alike => ?_, ?_⟩
  · have small : 1 ≤ Key.maxIndex := by decide
    exact nomatch apart ⟨0⟩ _ _ here there small trivial alike
  · obtain ⟨rows, members, written, same, perm⟩ := listed ⟨0⟩ _ rfl 1 [] _ json
    exact ⟨rows, Heap.names_of_writesRow written, Json.object.inj same ▸ perm⟩

end World

end LiveMarkup
