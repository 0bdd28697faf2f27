import LiveMarkup.Proofs.Expr.Append
import LiveMarkup.Proofs.Reactive.Adequacy
import LiveMarkup.Proofs.Reactive.Feeding

/-!
# Appending while effects append

The method `push` finds the length of the list once, before its first argument is stored.  Effects
that run between two arguments may append values of their own, and the next argument is then stored
in the place of one of them.  Whether this has happened can be told from the history of the call: a
value is lost exactly if some value was stored at another place than the end of the list.
-/

namespace LiveMarkup

variable {σ α β : Type}

namespace Addition

/-- What has been stored by a call itself, where it has been entered. -/
def ofCall (frames : List Frame) (additions : List Addition) : List Addition :=
  additions.filter fun addition => addition.frames = frames

/-- What has been stored by others while a call was running. -/
def ofOthers (frames : List Frame) (additions : List Addition) : List Addition :=
  additions.filter fun addition => !decide (addition.frames = frames)

theorem ofCall_eq_nil {frames : List Frame} {additions : List Addition}
    (others : ∀ addition ∈ additions, addition.frames ≠ frames) : ofCall frames additions = [] :=
  List.filter_eq_nil_iff.mpr fun addition listed same => others addition listed (of_decide_eq_true same)

theorem ofCall_cons {frames : List Frame} {position length : Nat} {value : Value}
    {others rest : List Addition} (foreign : ∀ other ∈ others, other.frames ≠ frames) :
    ofCall frames (⟨frames, position, value, length⟩ :: others ++ rest) =
      ⟨frames, position, value, length⟩ :: ofCall frames rest := by
  have none : ofCall frames others = [] := ofCall_eq_nil foreign
  have split : ofCall frames (⟨frames, position, value, length⟩ :: others ++ rest) =
      ⟨frames, position, value, length⟩ :: (ofCall frames others ++ ofCall frames rest) := by
    simp [ofCall]
  rw [split, none, List.nil_append]

/-- Whether a call has stored its values behind each other from a place on, up to the greatest
length, whatever others have stored meanwhile. -/
structure InRow (heap : Heap) (list : ContainerId) (frames : List Frame) (position : Nat)
    (values : List Value) (additions : List Addition) : Prop where
  /-- The places of its values. -/
  positions : (ofCall frames additions).map Addition.position =
    List.range' position (min values.length (maxArrayLength - position))
  /-- What is stored at them. -/
  adopts : ∀ entry ∈ values.zip ((ofCall frames additions).map Addition.value),
    heap.Adopts list entry.1 entry.2

namespace InRow

variable {heap : Heap} {list : ContainerId} {frames : List Frame} {position : Nat} {value : Value}
  {values : List Value}

/-- Nothing is stored if there is nothing to store, or no room. -/
theorem nil (heap : Heap) (list : ContainerId) (frames : List Frame)
    (none : min values.length (maxArrayLength - position) = 0) :
    InRow heap list frames position values [] :=
  ⟨by rw [none]; rfl, by simp [ofCall]⟩

theorem cons {taken : Value} {length : Nat} {others more : List Addition}
    (room : position < maxArrayLength) (adopts : heap.Adopts list value taken)
    (foreign : ∀ other ∈ others, other.frames ≠ frames)
    (rest : InRow heap list frames (position + 1) values more) :
    InRow heap list frames position (value :: values)
      (⟨frames, position, taken, length⟩ :: others ++ more) := by
  have own : ofCall frames (⟨frames, position, taken, length⟩ :: others ++ more) =
      ⟨frames, position, taken, length⟩ :: ofCall frames more := ofCall_cons foreign
  have count : min (value :: values).length (maxArrayLength - position) =
      min values.length (maxArrayLength - (position + 1)) + 1 := by
    rw [List.length_cons]
    omega
  constructor
  · rw [own, List.map_cons, rest.positions, count, List.range'_succ]
  · rw [own, List.map_cons, List.zip_cons_cons, List.forall_mem_cons]
    exact ⟨adopts, rest.adopts⟩

/-- As many values are stored as there is room for. -/
theorem length_ofCall {additions : List Addition}
    (row : InRow heap list frames position values additions) :
    (ofCall frames additions).length = min values.length (maxArrayLength - position) := by
  have lengths := congrArg List.length row.positions
  rwa [List.length_map, List.length_range'] at lengths

end InRow

end Addition

/-! ## Computations that store values -/

namespace TaskM

/-- Whether a computation leads from one world to another, and has stored some values in a list
then, whatever comes after it. -/
structure Stores (list : ContainerId) (frames : List Frame) (bound : Nat) (computation : TaskM σ α)
    (world : World σ) (result : Except Fault α) (after : World σ) (additions : List Addition) :
    Prop where
  /-- It leads there. -/
  ends : computation.Ends (World.runEffect bound) world result after
  /-- Together with what comes after it, it stores these values first. -/
  history : ∀ next more final last,
    Point.Stores list ⟨frames, .task (next result), after⟩ more final last →
      Point.Stores list ⟨frames, .task (computation next), world⟩ (additions ++ more) final last

namespace Stores

variable {list : ContainerId} {frames : List Frame} {bound : Nat} {world between after : World σ}
  {computation : TaskM σ α} {next : α → TaskM σ β} {additions more : List Addition}

theorem pure (a : α) (world : World σ) :
    Stores list frames bound (Pure.pure a) world (.ok a) world [] :=
  ⟨.pure a world, fun _ _ _ _ stores => stores⟩

theorem ofExcept (result : Except Fault α) (world : World σ) :
    Stores list frames bound (TaskM.ofExcept result) world result world [] :=
  ⟨.ofExcept result world, fun _ _ _ _ stores => stores⟩

theorem bind {a : α} {result : Except Fault β}
    (stores : Stores list frames bound computation world (.ok a) between additions)
    (later : Stores list frames bound (next a) between result after more) :
    Stores list frames bound (computation >>= next) world result after (additions ++ more) where
  ends := stores.ends.bind later.ends
  history finish rest final last storesRest := by
    have both := later.history finish rest final last storesRest
    rw [List.append_assoc]
    exact stores.history _ (more ++ rest) final last both

theorem bind_error {fault : Fault}
    (stores : Stores list frames bound computation world (.error fault) after additions) :
    Stores list frames bound (computation >>= next) world (.error fault) after additions where
  ends := stores.ends.bind_error
  history _ more final last later := stores.history _ more final last later

/-- One step that stores nothing. -/
theorem of_goes {result : Except Fault α}
    (goes : ∀ next, Point.Goes ⟨frames, .task (computation next), world⟩
      ⟨frames, .task (next result), after⟩)
    (ends : computation.Ends (World.runEffect bound) world result after) :
    Stores list frames bound computation world result after [] :=
  ⟨ends, fun next _ _ _ later => .goes (goes next) later⟩

theorem look (observe : Heap → α) (world : World σ) :
    Stores list frames bound (TaskM.look observe) world (.ok (observe world.store.heap)) world [] :=
  of_goes (fun _ => .look) (.look observe world)

theorem has (id : ContainerId) (key : Key) (world : World σ) :
    Stores list frames bound (TaskM.has id key) world (.ok (world.store.heap.contains id key)) world [] :=
  of_goes (fun _ => .has) fun _ => rfl

theorem watch (computation : Heap → Watch α) (world : World σ) :
    Stores list frames bound (TaskM.watch computation) world
      (.ok ((computation world.store.heap).run #[]).1)
      (world.mapStore fun store => store.track ((computation world.store.heap).run #[]).2) [] :=
  ⟨fun _ => rfl, fun _ _ _ _ later => .goes .look (.goes .track later)⟩

/-- A write that is refused. -/
theorem refuse {position : Nat} {value : Value} {fault : ReactiveFault} {store : Store}
    (refused : world.store.put list (.index position) value = (.error fault, store)) :
    Stores list frames bound (TaskM.tryWrite list (.index position) value) world (.ok (.error fault))
      { world with store := store } [] := by
  refine of_goes (fun _ => .refuse refused) fun next => ?_
  simp only [TaskM.tryWrite, World.interpret, World.write, refused]

/-- A write that is taken, and what is stored by those who are told of it. -/
theorem accept {position : Nat} {value : Value} {changed : List Access} {store : Store}
    {outcome : Except Fault Value}
    (accepted : world.store.put list (.index position) value = (.ok changed, store))
    (told : Point.Stores list ⟨frames, .tell changed, { world with store := store }⟩ additions outcome
      (changed.foldl (World.trigger (World.runEffect bound)) { world with store := store })) :
    Stores list frames bound (TaskM.tryWrite list (.index position) value) world (.ok (.ok ()))
      (changed.foldl (World.trigger (World.runEffect bound)) { world with store := store })
      (⟨frames, position, (world.store.perform (.adopt (world.store.heap.owner list) value)).1,
        (world.store.heap.contents list).count⟩ :: additions) where
  ends := .tryWrite accepted
  history next _ _ _ later := .write (fun result => next (.ok result)) accepted told later

end Stores

end TaskM

/-! ## Writes of the method -/

namespace World

/-- What is true between the writes of a call that appends to a list. -/
structure Appending (start : World σ) (list : ContainerId) (named : Assoc Key Value) (single : Prop)
    (bound : Nat) (items : Array Value) (world : World σ) : Prop where
  /-- Only effects run that append to the list. -/
  fed : start.Fed list named single world
  /-- The items of the list. -/
  contents : world.store.heap.contents list = .array items named
  /-- The list has not become shorter. -/
  long : (start.store.heap.contents list).count ≤ items.size
  /-- What there is names only trackers that exist. -/
  rooted : world.Rooted
  /-- Effects have room to run. -/
  room : world.store.room ≤ bound

namespace Appending

variable {start world : World σ} {list : ContainerId} {named : Assoc Key Value} {single : Prop}
  {bound position : Nat} {items : Array Value} {value : Value}

section Write

variable (appending : Appending start list named single bound items world)
  (fits : Addition.Placed (start.store.heap.contents list).count single position items.size)

include appending fits

/-- Where a value is to be stored, everything is as it should be. -/
theorem laying (frames : List Frame) (value : Value) :
    let point : Point σ :=
      ⟨frames, .task (.write list (.index position) value fun _ => .done (.ok .undefined)), world⟩
    point.Laying start list named single items ∧ point.Rooted :=
  ⟨⟨appending.fed, appending.contents, appending.long, rfl,
      ⟨position, rfl, fits, fun _ _ _ => trivial⟩, fun _ => trivial⟩, appending.rooted, fun _ => trivial⟩

/-- The method stores a value, and effects store others behind it. -/
theorem accept (frames : List Frame) (value : Value) (room : position < maxArrayLength) :
    ∃ taken others final after,
      TaskM.Stores list frames bound (Value.writeContainer list (.index position) value) world (.ok ())
        after (⟨frames, position, taken, items.size⟩ :: others) ∧
      (∀ addition ∈ others, addition.frames ≠ frames) ∧
      start.store.heap.Adopts list value taken ∧
      Addition.Fills (Addition.Placed (start.store.heap.contents list).count single) items
        (⟨frames, position, taken, items.size⟩ :: others) final ∧
      Appending start list named single bound final after := by
  obtain ⟨laying, rooted⟩ := appending.laying fits frames value
  obtain ⟨changed, store, accepted⟩ : ∃ changed store,
      world.store.put list (.index position) value = (.ok changed, store) :=
    ⟨_, _, (Store.put_item appending.contents position).trans (if_pos room)⟩
  have calls : Point.Calls ⟨frames, .task (.write list (.index position) value fun _ =>
      .done (.ok .undefined)), world⟩ _ _ := .write accepted
  obtain ⟨between, callee, first, resumes⟩ := laying.calls calls
  obtain ⟨called, outcome, told⟩ := tell_runs Point.rooted_kept
    (runEffect_adequate Point.rooted_kept bound) frames _ (rooted.calls calls)
    (Nat.le_trans (Nat.le_of_eq (calls.extends_ (.refl _) (.ok .undefined)).room_eq) appending.room)
  obtain ⟨final, fed, contents, second⟩ := told.fills callee
  -- The task behind the write does not matter, so what is known of it there holds of any other one.
  have resumed := resumes outcome _ final told.extends_ fed contents second.size_le
  have stores := TaskM.Stores.accept accepted ⟨called, told, rfl⟩
  have count : (world.store.heap.contents list).count = items.size :=
    congrArg Contents.count appending.contents
  rw [Point.adds?_write frames _ accepted, count] at first
  rw [count] at stores
  refine ⟨_, _, final, _, ?_, told.frames_ne_of_tell, ?_, first.append second, fed, contents,
    resumed.long, (Point.rooted_kept.resumed told calls rooted).world, ?_⟩
  · have answered : TaskM.Stores list frames bound (Value.writeContainer list (.index position) value)
        world (.ok ()) _ (_ ++ []) := stores.bind (.pure () _)
    rwa [List.append_nil] at answered
  · exact .of_changed appending.fed.heap.known appending.fed.heap.changes (.of_perform _ list value)
  · exact Nat.le_trans (Nat.le_of_eq (calls.extends_ told.extends_ outcome).room_eq) appending.room

/-- Behind the greatest length a value is refused. -/
theorem refuse (frames : List Frame) (value : Value) (full : ¬position < maxArrayLength) :
    ∃ after,
      TaskM.Stores list frames bound (Value.writeContainer list (.index position) value) world
        (.error (.eval (.write (.indexOutOfRange position maxArrayLength)))) after [] ∧
      Appending start list named single bound items after := by
  obtain ⟨laying, rooted⟩ := appending.laying fits frames value
  obtain ⟨store, refused⟩ : ∃ store, world.store.put list (.index position) value =
      (.error (.indexOutOfRange position maxArrayLength), store) :=
    ⟨_, (Store.put_item appending.contents position).trans (if_neg full)⟩
  have goes : Point.Goes ⟨frames, .task (.write list (.index position) value fun _ =>
      .done (.ok .undefined)), world⟩ _ := .refuse refused
  obtain ⟨fed, contents, long, -⟩ := laying.goes goes
  refine ⟨_, (TaskM.Stores.refuse refused).bind (.ofExcept (.error _) _), fed, contents, long,
    (rooted.goes goes).world, ?_⟩
  exact Nat.le_trans (Nat.le_of_eq goes.extends_.room_eq) appending.room

end Write

/-- The method stores its arguments one behind the other, up to the greatest length. -/
theorem appendAll (values : List Value)
    (appending : Appending start list named single bound items world) (frames : List Frame)
    (behind : (start.store.heap.contents list).count ≤ position) (inside : position ≤ items.size)
    (once : single → values.length ≤ 1) (atEnd : single → values ≠ [] → position = items.size) :
    ∃ additions final after,
      TaskM.Stores list frames bound (Value.appendAll list position values) world
        (if values.length ≤ maxArrayLength - position then .ok (position + values.length)
          else .error (.eval (.write (.indexOutOfRange (max position maxArrayLength) maxArrayLength))))
        after additions ∧
      Addition.Fills (Addition.Placed (start.store.heap.contents list).count single) items additions
        final ∧
      Addition.InRow start.store.heap list frames position values additions ∧
      Appending start list named single bound final after := by
  induction values generalizing world items position with
  | nil =>
      refine ⟨[], items, world, ?_, .nil, .nil _ _ _ (Nat.zero_min _), appending⟩
      rw [List.length_nil, if_pos (Nat.zero_le _)]
      exact .pure position world
  | cons value rest ih =>
      have placed : Addition.Placed (start.store.heap.contents list).count single position items.size :=
        ⟨behind, inside, fun holds => atEnd holds (by simp)⟩
      by_cases room : position < maxArrayLength
      · obtain ⟨taken, others, between, middle, writes, foreign, adopts, fills, appendingNow⟩ :=
          appending.accept placed frames value room
        have reached : position < between.size := fills.position_lt _ List.mem_cons_self
        obtain ⟨more, final, after, appends, fillsRest, row, appendingAfter⟩ :=
          ih appendingNow (Nat.le_succ_of_le behind) reached
            (fun holds => Nat.le_of_succ_le (once holds))
            (fun holds some => absurd (Value.rest_eq_nil (once holds)) some)
        refine ⟨_, final, after, writes.bind ?_, fills.append fillsRest,
          row.cons room adopts foreign, appendingAfter⟩
        rw [appended_succ room] at appends
        exact appends
      · obtain ⟨after, refuses, appendingAfter⟩ := appending.refuse placed frames value room
        have none : maxArrayLength - position = 0 := Nat.sub_eq_zero_of_le (Nat.le_of_not_lt room)
        refine ⟨[], items, after, ?_, .nil, .nil _ _ _ (by rw [none, Nat.min_zero]), appendingAfter⟩
        rw [none, if_neg (by simp), Nat.max_eq_left (Nat.le_of_not_lt room)]
        exact refuses.bind_error

/-- Counting reads changes nothing that matters here. -/
theorem track (appending : Appending start list named single bound items world) (reads : Array Access) :
    Appending start list named single bound items (world.mapStore fun store => store.track reads) := by
  have heap : (world.store.track reads).heap = world.store.heap := Store.heap_track _ _
  have goes : Point.Goes ⟨[], .task (.track reads (.done (.ok .undefined))), world⟩ _ := .track
  have rooted : Point.Rooted ⟨[], .task (.track reads (.done (.ok .undefined))), world⟩ :=
    ⟨appending.rooted, trivial⟩
  refine ⟨appending.fed.track reads, ?_, appending.long, (rooted.goes goes).world, ?_⟩
  · rw [← appending.contents, ← heap]
    rfl
  · exact Nat.le_trans (Nat.le_of_eq goes.extends_.room_eq) appending.room

end Appending

end World

namespace Expr

variable {bound : Nat} {start world : World σ} {list : ContainerId} {items : Array Value}
  {named : Assoc Key Value} {single : Prop}

/-- The method of an array that has no property of this name. -/
theorem callProperty_stores (call : Caller σ) {values : List Value} {frames : List Frame}
    {result : Except Fault Nat} {after : World σ} {additions : List Addition}
    (contents : world.store.heap.contents list = .array items named)
    (unnamed : named.contains (.name "push") = false)
    (appends : TaskM.Stores list frames bound (Value.appendAll list items.size values)
      (world.mapStore fun store => store.track #[⟨list, .length⟩]) result after additions) :
    TaskM.Stores list frames bound (callProperty call (.container list) (.name "push") values) world
      (result.map Value.ofNat) after additions := by
  have count : (world.store.heap.contents list).count = items.size := congrArg Contents.count contents
  have has : TaskM.Stores list frames bound (TaskM.has list (.name "push")) world (.ok false) world [] :=
    Heap.contains_push_of_unnamed contents unnamed ▸ .has list (.name "push") world
  have type : TaskM.Stores list frames bound (TaskM.look fun heap => heap.typeName (.container list))
      world (.ok .array) world [] := Heap.typeName_of_array contents ▸ .look _ world
  have length : TaskM.Stores list frames bound (TaskM.watch fun heap => heap.length list) world
      (.ok items.size) (world.mapStore fun store => store.track #[⟨list, .length⟩]) [] :=
    count ▸ .watch _ world
  have method : TaskM.Stores list frames bound
      (do
        let length ← TaskM.watch fun heap => heap.length list
        return .ofNat (← Value.appendAll list length values)) world (result.map Value.ofNat) after
      additions := by
    refine length.bind ?_
    cases result with
    | ok reached =>
        rw [← List.append_nil additions]
        exact appends.bind (.pure _ after)
    | error fault => exact appends.bind_error
  refine has.bind ?_
  rw [if_neg Bool.false_ne_true, Value.callMethod]
  refine type.bind ?_
  rw [decide_eq_true (Eq.refl TypeName.array), ownMethod_push]
  exact method

/-- Whether a list has come from some items by appending all values of a call in their order, and
what others have stored among them. -/
def NothingLost (heap : Heap) (list : ContainerId) (items : Array Value) (values others : List Value)
    (final : Array Value) : Prop :=
  ∃ taken tail, taken.length = values.length ∧
    (∀ entry ∈ values.zip taken, heap.Adopts list entry.1 entry.2) ∧
    Interleaves taken others tail ∧ final = items ++ tail.toArray

/-- If a call stores its values behind each other, nothing is lost exactly if there is room for all
of them and everything is stored at the end of the list. -/
theorem nothingLost_iff {heap : Heap} {values : List Value} {frames : List Frame}
    {additions : List Addition} {final : Array Value}
    (fills : Addition.Fills (Addition.Placed items.size single) items additions final)
    (row : Addition.InRow heap list frames items.size values additions) :
    NothingLost heap list items values ((Addition.ofOthers frames additions).map Addition.value)
        final ↔
      values.length ≤ maxArrayLength - items.size ∧
        ∀ addition ∈ additions, addition.position = addition.length := by
  have merged : Interleaves ((Addition.ofCall frames additions).map Addition.value)
      ((Addition.ofOthers frames additions).map Addition.value) (additions.map Addition.value) :=
    .of_filter _ _ _
  have within (position length : Nat) (placed : Addition.Placed items.size single position length) :
      position ≤ length := placed.2.1
  have count := row.length_ofCall
  constructor
  · rintro ⟨taken, tail, all, -, mixed, rfl⟩
    -- The list has grown by as many items as there are values, and each makes it longer by one at most.
    have stored := merged.length_eq
    have reached := fills.size_le_add within
    have lengths := mixed.length_eq
    simp only [List.length_map] at stored lengths
    simp only [Array.size_append, List.size_toArray] at reached
    refine ⟨by omega, fills.at_end_of_size within ?_⟩
    simp only [Array.size_append, List.size_toArray]
    omega
  · rintro ⟨room, atEnd⟩
    refine ⟨_, _, ?_, row.adopts, merged, fills.of_at_end atEnd⟩
    rw [List.length_map, count, Nat.min_eq_left room]

section Push

variable {between : World σ} {values : List Value} (call : Caller σ) (scope : Scope)
  (bindings : Bindings) {holder : Expr} {args : List Expr} (frames : List Frame)
  (evaluated : (evalItems call scope bindings args).Ends (World.runEffect bound) start (.ok values)
    between)
  (held : (evalWith call scope bindings holder).Ends (World.runEffect bound) between
    (.ok (.container list)) world)
  (contents : world.store.heap.contents list = .array items named)
  (unnamed : named.contains (.name "push") = false) (rooted : world.Rooted)
  (room : world.store.room ≤ bound)

include evaluated held contents unnamed rooted room

/-- Effects that only read and push onto the list run between two arguments of a call. -/
theorem push_among (feeds : world.FedOnly list named single) (once : single → values.length ≤ 1) :
    ∃ passed result after final,
      (evalWith call scope bindings (.call (.member holder "push") args)).Ends (World.runEffect bound)
        start result after ∧
      Point.Runs ⟨frames, .task (callProperty call (.container list) (.name "push") values).toTask, world⟩
        passed result after ∧
      result = (if values.length ≤ maxArrayLength - items.size then
          .ok (.ofNat (items.size + values.length))
        else .error (.eval (.write
          (.indexOutOfRange (max items.size maxArrayLength) maxArrayLength)))) ∧
      after.store.heap.contents list = .array final named ∧
      Addition.Fills (Addition.Placed items.size single) items (passed.filterMap (Point.adds? list))
        final ∧
      Addition.InRow world.store.heap list frames items.size values
        (passed.filterMap (Point.adds? list)) := by
  have count : (world.store.heap.contents list).count = items.size := congrArg Contents.count contents
  have appending : world.Appending list named single bound items world :=
    ⟨feeds.fed contents, contents, Nat.le_of_eq count, rooted, room⟩
  obtain ⟨additions, final, after, appends, fills, row, ⟨-, contentsAfter, -⟩⟩ :=
    (appending.track #[⟨list, .length⟩]).appendAll values frames (Nat.le_of_eq count) (Nat.le_refl _)
      once fun _ _ => rfl
  have stores := callProperty_stores call contents unnamed appends
  obtain ⟨passed, runs, adds⟩ := stores.history Task.done _ _ _ (.ends .done)
  have same : passed.filterMap (Point.adds? list) = additions := adds.trans (List.append_nil _)
  rw [count] at fills
  rw [← same] at fills row
  refine ⟨passed, _, after, final, ?_, runs, ?_, contentsAfter, fills, row⟩
  · have key : Key.ofText "push" = .name "push" := rfl
    rw [evalWith]
    refine evaluated.bind (held.bind ?_)
    rw [key]
    exact stores.ends
  · split <;> rfl

/-- Effects that only read and push onto a list may run between two arguments of a call of `push` on
it.  The items that were there stay, the arguments are stored in their order behind them, and
nothing is ever stored behind the end.  All values are kept exactly if there is room for all
arguments and each value has been stored at the end of the list.  This is so wherever no call
appends two values. -/
theorem push_loses_nothing_iff (feeds : world.FedOnly list named False) :
    ∃ passed result after final,
      (evalWith call scope bindings (.call (.member holder "push") args)).Ends (World.runEffect bound)
        start result after ∧
      Point.Runs ⟨frames, .task (callProperty call (.container list) (.name "push") values).toTask, world⟩
        passed result after ∧
      result = (if values.length ≤ maxArrayLength - items.size then
          .ok (.ofNat (items.size + values.length))
        else .error (.eval (.write
          (.indexOutOfRange (max items.size maxArrayLength) maxArrayLength)))) ∧
      after.store.heap.contents list = .array final named ∧
      let additions := passed.filterMap (Point.adds? list)
      let others := (Addition.ofOthers frames additions).map Addition.value
      Addition.Fills (Addition.Placed items.size False) items additions final ∧
      items.toList <+: final.toList ∧
      (Addition.ofCall frames additions).map Addition.position =
        List.range' items.size (min values.length (maxArrayLength - items.size)) ∧
      (NothingLost world.store.heap list items values others final ↔
        values.length ≤ maxArrayLength - items.size ∧
          ∀ addition ∈ additions, addition.position = addition.length) ∧
      (world.FedOnly list named True → items.size < maxArrayLength → values.length ≤ 1 →
        NothingLost world.store.heap list items values others final) := by
  -- There is one run only, so whether every call appends one value at most is decided before it.
  let single := world.FedOnly list named True ∧ values.length ≤ 1
  have feedsOnce : world.FedOnly list named single := by
    by_cases holds : single
    · exact holds.1.mono fun _ => trivial
    · exact feeds.mono holds
  obtain ⟨passed, result, after, final, ends, runs, answer, contentsAfter, fills, row⟩ :=
    push_among call scope bindings frames evaluated held contents unnamed rooted room feedsOnce And.right
  have keeps := nothingLost_iff fills row
  refine ⟨passed, result, after, final, ends, runs, answer, contentsAfter, ?_, ?_, row.positions, keeps,
    ?_⟩
  · exact fills.mono fun _ _ fits => ⟨fits.1, fits.2.1, False.elim⟩
  · exact fills.keeps_front (fun _ _ fits => fits.2.1) (fun _ _ fits => fits.1) (List.prefix_refl _)
  · intro each below few
    exact keeps.mpr ⟨by omega, fun addition listed => (fills.place addition listed).2.2 ⟨each, few⟩⟩

end Push

/-! ## An effect that appends -/

/-- A world with a list and with an effect that has read its first item, and appends to it when this
changes. -/
def feedingList (items : Array Value) (stack : List (Option EffectId)) (runs : Nat) : World Unit :=
  ⟨⟨⟨#[⟨⟨0⟩, .array items .empty⟩], #[], #[]⟩,
      #[⟨.default, Std.HashMap.emptyWithCapacity.insert ⟨⟨0⟩, .index 0⟩ #[⟨0⟩], stack, #[]⟩], #[runs]⟩,
    (),
    #[TaskM.toTask do
      let _ ← TaskM.push ⟨0⟩ .null
      return .undefined]⟩

section Feeding

variable {items : Array Value} {stack : List (Option EffectId)} {runs : Nat}

theorem dependents_feedingList (key : Key) :
    (feedingList items stack runs).store.dependents ⟨⟨0⟩, key⟩ =
      if key = .index 0 then [⟨0⟩] else [] := by
  change (Std.HashMap.getD (Std.HashMap.insert _ _ _) (⟨⟨0⟩, key⟩ : Access) #[]).toList = _
  rw [Std.HashMap.getD_insert]
  by_cases first : key = .index 0
  · simp [first]
  · have differs : ¬(⟨⟨0⟩, .index 0⟩ : Access) = ⟨⟨0⟩, key⟩ :=
      fun same => first (congrArg Access.key same).symm
    simp [first, differs]

/-- The effect only appends, and no two values by one call. -/
theorem fedOnly_feedingList : (feedingList items [] runs).FedOnly ⟨0⟩ .empty True := by
  rintro ⟨container, key⟩ effect rfl listed
  rw [dependents_feedingList] at listed
  split at listed
  · obtain rfl := List.mem_singleton.mp listed
    refine .inr (.push fun result => ?_)
    cases result <;> exact .done _
  · cases listed

theorem rooted_feedingList : (feedingList items [] runs).Rooted where
  owned id := by
    obtain ⟨index⟩ := id
    cases index with
    | zero => exact Nat.zero_lt_one
    | succ index => exact Nat.zero_lt_one
  bodies body listed := by
    obtain rfl := Array.mem_singleton.mp listed
    exact ((TaskM.uses_push _ _).bind fun _ => TaskM.uses_pure _).toTask

theorem unread_feedingList {changed : List Access}
    (other : ∀ access ∈ changed, access.container = ⟨0⟩ ∧ access.key ≠ .index 0) :
    ∀ access ∈ changed, (feedingList items stack runs).store.dependents access = [] := by
  rintro ⟨container, key⟩ listed
  obtain ⟨rfl, differs⟩ := other _ listed
  rw [dependents_feedingList, if_neg differs]

/-- The effect runs once and appends. -/
theorem feedingList_feeds (frames : List Frame) :
    Point.Stores ⟨0⟩ ⟨frames, .tell [⟨⟨0⟩, .index 0⟩, ⟨⟨0⟩, .length⟩], feedingList #[.bool true] [] 0⟩
      [⟨⟨⟨0⟩, some ⟨0⟩⟩ :: frames, 1, .null, 1⟩] (.ok .undefined)
      (feedingList #[.bool true, .null] [] 1) := by
  have first : (feedingList #[.bool true] [] 0).store.dependents ⟨⟨0⟩, .index 0⟩ = [⟨0⟩] :=
    dependents_feedingList _
  have accepted : (feedingList #[.bool true] [some ⟨0⟩] 1).store.put ⟨0⟩ (.index 1) .null =
      (.ok [⟨⟨0⟩, .index 1⟩, ⟨⟨0⟩, .length⟩],
        (feedingList #[.bool true, .null] [some ⟨0⟩] 1).store) := rfl
  have body : Point.Stores ⟨0⟩ ⟨⟨⟨0⟩, some ⟨0⟩⟩ :: frames,
        .task ((feedingList #[.bool true] [] 0).body ⟨0⟩), feedingList #[.bool true] [some ⟨0⟩] 1⟩
      [⟨⟨⟨0⟩, some ⟨0⟩⟩ :: frames, 1, .null, 1⟩] (.ok .undefined)
      (feedingList #[.bool true, .null] [some ⟨0⟩] 1) :=
    .goes .look (.write _ accepted
      (Point.tell_stores_of_unread _ (unread_feedingList (by decide))) (.ends .done))
  have calls : Point.Calls
      ⟨frames, .tell [⟨⟨0⟩, .index 0⟩, ⟨⟨0⟩, .length⟩], feedingList #[.bool true] [] 0⟩ _ _ := .tell
  rw [first] at calls
  exact .calls calls (.calls .attempts (.calls (.begin rfl) body (.ends .done)) (.ends .attempted))
    (Point.tell_stores_of_unread _ (unread_feedingList (by decide)))

/-- One value is appended, and then the effect appends one. -/
theorem push_one_loses_nothing :
    let world := feedingList #[] [] 0
    ∃ passed result after final,
      (evalWith (callFunction callDepthLimit) ⟨⟨0⟩, none⟩ ⟨[("list", .container ⟨0⟩)]⟩
        (.call (.member (.ident "list") "push") ([.bool true].map .literal))).Ends
          (World.runEffect world.store.room) world result after ∧
      Point.Runs ⟨[], .task (callProperty (callFunction callDepthLimit) (.container ⟨0⟩) (.name "push")
        [.bool true]).toTask, world⟩ passed result after ∧
      after.store.heap.contents ⟨0⟩ = .array final .empty ∧
      NothingLost world.store.heap ⟨0⟩ #[] [.bool true]
        ((Addition.ofOthers [] (passed.filterMap (Point.adds? ⟨0⟩))).map Addition.value) final := by
  intro world
  have held : (evalWith (callFunction callDepthLimit) ⟨⟨0⟩, none⟩ ⟨[("list", .container ⟨0⟩)]⟩
      (.ident "list")).Ends (World.runEffect world.store.room) world (.ok (.container ⟨0⟩)) world :=
    .pure (Value.container ⟨0⟩) _
  have feeds : world.FedOnly ⟨0⟩ .empty True := fedOnly_feedingList
  obtain ⟨passed, result, after, final, ends, runs, -, contents, -, -, -, -, keeps⟩ :=
    push_loses_nothing_iff _ _ _ [] (ends_literals [.bool true] _ _) held rfl rfl rooted_feedingList
      (Nat.le_refl _) (feeds.mono fun _ => trivial)
  exact ⟨passed, result, after, final, ends, runs, contents, keeps feeds (by decide) (by decide)⟩

/-- Of two values that are appended while an effect appends one, the second one replaces the value
of the effect. -/
theorem push_pair_loses_one :
    let world := feedingList #[] [] 0
    world.FedOnly ⟨0⟩ .empty True ∧
    ∃ passed result after final,
      Point.Runs ⟨[], .task (callProperty (callFunction callDepthLimit) (.container ⟨0⟩) (.name "push")
        [.bool true, .bool false]).toTask, world⟩ passed result after ∧
      after.store.heap.contents ⟨0⟩ = .array final .empty ∧
      ¬NothingLost world.store.heap ⟨0⟩ #[] [.bool true, .bool false]
        ((Addition.ofOthers [] (passed.filterMap (Point.adds? ⟨0⟩))).map Addition.value) final := by
  intro world
  have first : (feedingList #[] [] 0).store.put ⟨0⟩ (.index 0) (.bool true) =
      (.ok [⟨⟨0⟩, .index 0⟩, ⟨⟨0⟩, .length⟩], (feedingList #[.bool true] [] 0).store) := rfl
  have second : (feedingList #[.bool true, .null] [] 1).store.put ⟨0⟩ (.index 1) (.bool false) =
      (.ok [⟨⟨0⟩, .index 1⟩], (feedingList #[.bool true, .bool false] [] 1).store) := rfl
  have stores : Point.Stores ⟨0⟩ ⟨[], .task (callProperty (callFunction callDepthLimit) (.container ⟨0⟩)
      (.name "push") [.bool true, .bool false]).toTask, world⟩
      [⟨[], 0, .bool true, 0⟩, ⟨[⟨⟨0⟩, some ⟨0⟩⟩], 1, .null, 1⟩, ⟨[], 1, .bool false, 2⟩]
      (.ok (.ofNat 2)) (feedingList #[.bool true, .bool false] [] 1) :=
    .goes .has (.goes .look (.goes .look (.goes .track (.write _ first (feedingList_feeds [])
      (.write _ second (Point.tell_stores_of_unread _ (unread_feedingList (by decide)))
        (.ends .done))))))
  obtain ⟨passed, runs, adds⟩ := stores
  refine ⟨fedOnly_feedingList, passed, _, _, _, runs, rfl, ?_⟩
  have others : Addition.ofOthers [] (passed.filterMap (Point.adds? ⟨0⟩)) =
      [⟨[⟨⟨0⟩, some ⟨0⟩⟩], 1, .null, 1⟩] := by
    rw [adds]
    rfl
  rw [others]
  rintro ⟨taken, tail, all, -, merged, same⟩
  have two : taken.length = 2 := all
  have lengths : tail.length = taken.length + 1 := merged.length_eq
  have size : 2 = 0 + tail.length := (congrArg Array.size same).trans Array.size_append
  omega

end Feeding

end Expr

end LiveMarkup
