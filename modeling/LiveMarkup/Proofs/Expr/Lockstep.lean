import LiveMarkup.Expr.Evaluation
import LiveMarkup.Proofs.Heap.Change
import LiveMarkup.Proofs.Heap.Veil
import LiveMarkup.Proofs.Reactive.Passing

/-!
# Evaluation behind a veil

An expression is evaluated twice, over one data object and over another one, while bindings hide the
property in which the two differ.  The two evaluations run in lockstep: they make the same steps with
the same answers, so they end in the same way, and neither writes to the hidden property.  This holds
up to the first call of a function that was there before, for such a function may have seen anything.
A third evaluation, which raises an alarm at that point, tells whether there is such a call.
-/

namespace LiveMarkup

variable {σ : Type}

namespace Expr

/-- Calls a function that was made since there were so many, and fails with an alarm where one that
was there before is called. -/
def callMade (known : Nat) (alarm : Fault) : Nat → Caller σ
  | 0, _, _ => Value.evalFail .callDepthExceeded
  | depth + 1, id, args =>
      if id.index < known then TaskM.fail alarm
      else do
        match ← TaskM.look fun heap => heap.closures[id.index]? with
        | none => return .undefined
        | some closure =>
            evalWith (callMade known alarm depth) closure.scope
              (bindArguments closure.bindings closure.params args) closure.body

/-- Whether an evaluation calls none of the functions that were there before it: some alarm, raised
at the first such call, is not what it ends with.  Nothing in an expression handles a fault, so an
alarm that is raised is what the evaluation ends with. -/
def CallsOnlyMade (world : World σ) (scope : Scope) (bindings : Bindings) (expr : Expr) : Prop :=
  ∃ alarm, (world.exec (evalWith (callMade world.store.heap.closures.size alarm callDepthLimit) scope
    bindings expr)).1 ≠ .error alarm

end Expr

/-- Whether the worlds of two runs correspond, and all effects that are subscribed are running. -/
structure Veil.Parallel (veil : Veil) (here there : World σ) : Prop where
  /-- The heaps correspond. -/
  heap : veil.Alike here.store.heap there.store.heap
  /-- In the world of the first run nothing is triggered. -/
  still : here.store.Still
  /-- Nor in that of the second. -/
  stillThere : there.store.Still

/-- Whether three computations run in lockstep: the last two of them, over the two data objects, end
with the same good result in worlds that correspond and write only where they may, and so does the
first of them, which watches over the second one, unless it has raised the alarm. -/
def Veil.Lockstep (veil : Veil) (bound : Nat) (alarm : Fault) {α : Type} (good : α → Prop)
    (guarded left right : TaskM σ α) : Prop :=
  ∀ here there : World σ, veil.Parallel here there →
    (∃ after, guarded.Ends (World.runEffect bound) here (.error alarm) after) ∨
      ∃ result after afterThere,
        guarded.Ends (World.runEffect bound) here result after ∧
        left.Passes (veil.Allows veil.first) bound here result after ∧
        right.Passes (veil.Allows veil.second) bound there result afterThere ∧
        veil.Parallel after afterThere ∧ ∀ a, result = .ok a → good a

/-- Whether a computation runs in lockstep with itself. -/
abbrev Veil.Keeps (veil : Veil) (bound : Nat) (alarm : Fault) {α : Type} (good : α → Prop)
    (computation : TaskM σ α) : Prop :=
  veil.Lockstep bound alarm good computation computation computation

namespace Veil.Lockstep

variable {veil : Veil} {bound : Nat} {alarm : Fault} {α β : Type} {good : α → Prop}
  {goodNext : β → Prop}

/-- A step of the code itself. -/
theorem of_passes {left right : TaskM σ α}
    (passes : ∀ here there : World σ, veil.Parallel here there →
      ∃ result after afterThere, left.Passes (veil.Allows veil.first) bound here result after ∧
        right.Passes (veil.Allows veil.second) bound there result afterThere ∧
        veil.Parallel after afterThere ∧ ∀ a, result = .ok a → good a) :
    veil.Lockstep bound alarm good left left right := by
  intro here there parallel
  obtain ⟨result, after, afterThere, leftPasses, rest⟩ := passes here there parallel
  exact .inr ⟨result, after, afterThere, leftPasses.ends, leftPasses, rest⟩

theorem pure {a : α} (holds : good a) : veil.Keeps (σ := σ) bound alarm good (Pure.pure a) :=
  of_passes fun here there parallel => ⟨.ok a, here, there, .pure a here, .pure a there, parallel,
    fun _ same => Except.ok.inj same ▸ holds⟩

theorem fail (fault : Fault) : veil.Keeps (σ := σ) bound alarm good (TaskM.fail fault) :=
  of_passes fun here there parallel => ⟨.error fault, here, there, .fail fault here,
    .fail fault there, parallel, fun _ same => by cases same⟩

theorem raised (left right : TaskM σ α) :
    veil.Lockstep bound alarm good (TaskM.fail alarm) left right :=
  fun here _ _ => .inl ⟨here, fun _ => rfl⟩

theorem bind {guarded left right : TaskM σ α} {guardedNext leftNext rightNext : α → TaskM σ β}
    (steps : veil.Lockstep bound alarm good guarded left right)
    (later : ∀ a, good a →
      veil.Lockstep bound alarm goodNext (guardedNext a) (leftNext a) (rightNext a)) :
    veil.Lockstep bound alarm goodNext (guarded >>= guardedNext) (left >>= leftNext)
      (right >>= rightNext) := by
  intro here there parallel
  rcases steps here there parallel with ⟨after, raises⟩ | ⟨result, between, betweenThere, ends,
    leftPasses, rightPasses, parallelNow, holds⟩
  · exact .inl ⟨after, raises.bind_error⟩
  · cases result with
    | error fault =>
        exact .inr ⟨.error fault, between, betweenThere, ends.bind_error, leftPasses.bind_error,
          rightPasses.bind_error, parallelNow, fun _ same => by cases same⟩
    | ok a =>
        rcases later a (holds a rfl) between betweenThere parallelNow with ⟨after, raises⟩ |
          ⟨result, after, afterThere, endsNext, leftNext, rightNext, rest⟩
        · exact .inl ⟨after, ends.bind raises⟩
        · exact .inr ⟨result, after, afterThere, ends.bind endsNext, leftPasses.bind leftNext,
            rightPasses.bind rightNext, rest⟩

/-- What is looked at need not be the same if the runs go on in lockstep. -/
theorem look_bind {observe other : Heap → α} {guardedNext leftNext rightNext : α → TaskM σ β}
    (later : ∀ here there : Heap, veil.Alike here there →
      veil.Lockstep bound alarm goodNext (guardedNext (observe here)) (leftNext (observe here))
        (rightNext (other there))) :
    veil.Lockstep bound alarm goodNext (TaskM.look observe >>= guardedNext)
      (TaskM.look observe >>= leftNext) (TaskM.look other >>= rightNext) := by
  intro here there parallel
  rcases later _ _ parallel.heap here there parallel with ⟨after, raises⟩ |
    ⟨result, after, afterThere, ends, left, right, rest⟩
  · exact .inl ⟨after, (TaskM.Ends.look observe here).bind raises⟩
  · exact .inr ⟨result, after, afterThere, (TaskM.Ends.look observe here).bind ends,
      (TaskM.Passes.look observe here).bind left, (TaskM.Passes.look other there).bind right, rest⟩

theorem look {observe : Heap → α} (same : ∀ here there : Heap, veil.Alike here there →
      observe there = observe here ∧ good (observe here)) :
    veil.Keeps (σ := σ) bound alarm good (TaskM.look observe) :=
  of_passes fun here there parallel => by
    obtain ⟨equal, holds⟩ := same _ _ parallel.heap
    refine ⟨.ok (observe here.store.heap), here, there, .look observe here, ?_, parallel,
      fun _ same => Except.ok.inj same ▸ holds⟩
    rw [← equal]
    exact .look observe there

theorem has {id other : ContainerId} {key : Key} (same : ∀ here there : Heap, veil.Alike here there →
      there.contains other key = here.contains id key) :
    veil.Lockstep (σ := σ) bound alarm (fun _ => True) (TaskM.has id key) (TaskM.has id key)
      (TaskM.has other key) :=
  of_passes fun here there parallel => by
    refine ⟨.ok (here.store.heap.contains id key), here, there, .has id key here, ?_, parallel,
      fun _ _ => trivial⟩
    rw [← same _ _ parallel.heap]
    exact .has other key there

theorem watch {computation other : Heap → Watch α} (same : ∀ here there : Heap, veil.Alike here there →
      ((other there).run #[]).1 = ((computation here).run #[]).1 ∧
        good ((computation here).run #[]).1) :
    veil.Lockstep (σ := σ) bound alarm good (TaskM.watch computation) (TaskM.watch computation)
      (TaskM.watch other) :=
  of_passes fun here there parallel => by
    obtain ⟨equal, holds⟩ := same _ _ parallel.heap
    let after := here.mapStore fun store => store.track ((computation here.store.heap).run #[]).2
    let afterThere := there.mapStore fun store => store.track ((other there.store.heap).run #[]).2
    have heap : after.store.heap = here.store.heap := Store.heap_track _ _
    have heapThere : afterThere.store.heap = there.store.heap := Store.heap_track _ _
    have stays : veil.Parallel after afterThere :=
      ⟨heap ▸ heapThere ▸ parallel.heap, parallel.still.track _, parallel.stillThere.track _⟩
    have passes : TaskM.Passes (veil.Allows veil.second) bound (TaskM.watch other) there
        (.ok ((computation here.store.heap).run #[]).1) afterThere := by
      rw [← equal]
      exact .watch other there
    exact ⟨_, after, afterThere, .watch computation here, passes, stays,
      fun _ same => Except.ok.inj same ▸ holds⟩

theorem make {request other : Request} {good : Value → Prop}
    (same : ∀ here there : Store, veil.Alike here.heap there.heap →
      (there.perform other).1 = (here.perform request).1 ∧ good (here.perform request).1 ∧
        veil.Alike (here.perform request).2.heap (there.perform other).2.heap) :
    veil.Lockstep (σ := σ) bound alarm good (TaskM.make request) (TaskM.make request)
      (TaskM.make other) :=
  of_passes fun here there parallel => by
    obtain ⟨equal, holds, alike⟩ := same here.store there.store parallel.heap
    have passes : TaskM.Passes (veil.Allows veil.second) bound (TaskM.make other) there
        (.ok (here.store.perform request).1)
        { there with store := (there.store.perform other).2 } := by
      rw [← equal]
      exact .make other there
    have stays : veil.Parallel { here with store := (here.store.perform request).2 }
        { there with store := (there.store.perform other).2 } :=
      ⟨alike, parallel.still.of_trackers rfl, parallel.stillThere.of_trackers rfl⟩
    exact ⟨_, _, _, .make request here, passes, stays, fun _ same => Except.ok.inj same ▸ holds⟩

theorem tryWrite {id other : ContainerId} {key : Key} {value : Value}
    (allowed : veil.Allows veil.first id key) (allowedThere : veil.Allows veil.second other key)
    (same : ∀ here there : Store, veil.Alike here.heap there.heap →
      (there.put other key value).1.map (fun _ => ()) = (here.put id key value).1.map (fun _ => ()) ∧
        veil.Alike (here.put id key value).2.heap (there.put other key value).2.heap) :
    veil.Lockstep (σ := σ) bound alarm (fun _ => True) (TaskM.tryWrite id key value)
      (TaskM.tryWrite id key value) (TaskM.tryWrite other key value) :=
  of_passes fun here there parallel => by
    obtain ⟨equal, alike⟩ := same here.store there.store parallel.heap
    obtain ⟨store, passes, heap, still⟩ := TaskM.Passes.tryWrite parallel.still allowed
    obtain ⟨storeThere, passesThere, heapThere, stillThere⟩ :=
      TaskM.Passes.tryWrite parallel.stillThere allowedThere
    rw [equal] at passesThere
    rw [← heap, ← heapThere] at alike
    exact ⟨_, _, _, passes, passesThere, ⟨alike, still, stillThere⟩, fun _ _ => trivial⟩

theorem pop {id : ContainerId} (member : veil.inside id) :
    veil.Keeps (σ := σ) bound alarm (Value.In veil.inside) (TaskM.pop id) :=
  of_passes fun here there parallel => by
    obtain ⟨equal, within, alike⟩ := Alike.takeLast parallel.heap member
    have allowed (data : ContainerId) (key : Key) : veil.Allows data id key := .inl member
    obtain ⟨store, passes, heap, still⟩ := TaskM.Passes.pop parallel.still (allowed veil.first)
    obtain ⟨storeThere, passesThere, heapThere, stillThere⟩ :=
      TaskM.Passes.pop parallel.stillThere (allowed veil.second)
    rw [equal] at passesThere
    rw [← heap, ← heapThere] at alike
    exact ⟨_, _, _, passes, passesThere, ⟨alike, still, stillThere⟩,
      fun _ same => Except.ok.inj same ▸ within⟩

end Veil.Lockstep

namespace Veil

open Lockstep

variable {veil : Veil} {bound : Nat} {alarm : Fault}

theorem keeps_plain {value : Value} (plain : value.IsPlain) :
    veil.Keeps (σ := σ) bound alarm (Value.In veil.inside) (pure value) :=
  Lockstep.pure plain.inside

/-- A coercion that reads what is in reach. -/
theorem keeps_coerced {α : Type} {good : α → Prop} {computation : Heap → Watch α}
    (same : ∀ here there : Heap, here.Shares veil.inside there →
      computation there = computation here)
    (stays : ∀ heap : Heap, heap.Encloses veil.inside →
      Watch.Stays veil.inside good (computation heap)) :
    veil.Keeps (σ := σ) bound alarm good (TaskM.watch computation) :=
  Lockstep.watch fun here there alike => by
    rw [same here there alike.shares]
    exact ⟨rfl, (stays here alike.shares.encloses).result #[]⟩

theorem keeps_display {value : Value} (within : value.In veil.inside) :
    veil.Keeps (σ := σ) bound alarm (fun _ => True) (TaskM.watch fun heap => heap.display value) :=
  keeps_coerced (fun _ _ shares => shares.display within)
    fun _ encloses => Heap.display_stays encloses within

theorem keeps_keyOf {value : Value} (within : value.In veil.inside) :
    veil.Keeps (σ := σ) bound alarm (fun _ => True) (TaskM.watch fun heap => heap.keyOf value) :=
  keeps_coerced (fun _ _ shares => shares.keyOf within)
    fun _ encloses => Heap.keyOf_stays encloses within

theorem keeps_binary (op : BinaryOp) {left right : Value} (first : left.In veil.inside)
    (second : right.In veil.inside) :
    veil.Keeps (σ := σ) bound alarm (Value.In veil.inside)
      (TaskM.watch fun heap => heap.binary op left right) :=
  keeps_coerced (fun _ _ shares => shares.binary op first second)
    fun _ encloses => (Heap.binary_stays encloses op first second).imp fun _ plain => plain.inside

theorem keeps_unary (op : UnaryOp) {value : Value} (within : value.In veil.inside) :
    veil.Keeps (σ := σ) bound alarm (Value.In veil.inside)
      (TaskM.watch fun heap => heap.unary op value) :=
  keeps_coerced (fun _ _ shares => shares.unary op within)
    fun _ encloses => (Heap.unary_stays encloses op within).imp fun _ plain => plain.inside

theorem keeps_typeName {value : Value} (within : value.In veil.inside) :
    veil.Keeps (σ := σ) bound alarm (fun _ => True)
      (TaskM.look fun heap => heap.typeName value) :=
  Lockstep.look fun _ _ alike => ⟨alike.shares.typeName within, trivial⟩

theorem keeps_get {id : ContainerId} (member : veil.inside id) (key : Key) :
    veil.Keeps (σ := σ) bound alarm (Value.In veil.inside)
      (TaskM.watch fun heap => heap.get id key) :=
  keeps_coerced (fun _ _ shares => shares.get member key)
    fun _ encloses => Heap.get_stays encloses member key

theorem keeps_has {id : ContainerId} (member : veil.inside id) (key : Key) :
    veil.Keeps (σ := σ) bound alarm (fun _ => True) (TaskM.has id key) :=
  Lockstep.has fun _ _ alike => by
    rw [Heap.contains, alike.shares.contents member, Heap.contains]

/-! ## Members -/

theorem keeps_getProperty {base : Value} (within : base.In veil.inside) (key : Key) :
    veil.Keeps (σ := σ) bound alarm (Value.In veil.inside) (base.getProperty key) := by
  cases base with
  | undefined => exact Lockstep.fail _
  | null => exact Lockstep.fail _
  | container id => exact keeps_get (within id rfl) key
  | text content =>
      refine keeps_plain ?_
      simp only [Value.textProperty]
      repeat' split
      all_goals trivial
  | event id =>
      have read : veil.Keeps (σ := σ) bound alarm (Value.In veil.inside)
          (TaskM.look fun heap => (heap.event id).property key) :=
        Lockstep.look fun here _ alike => by
          refine ⟨by rw [alike.shares.event], Value.IsPlain.inside ?_⟩
          simp only [Event.property]
          repeat' split
          all_goals trivial
      exact read
  | function id =>
      simp only [Value.getProperty]
      split
      · exact Lockstep.look fun here _ alike => ⟨by rw [alike.arity], Value.IsPlain.inside trivial⟩
      · exact keeps_plain trivial
  | bool value => exact keeps_plain trivial
  | number value => exact keeps_plain trivial

theorem keeps_writeContainer {id : ContainerId} (member : veil.inside id) (key : Key) {value : Value}
    (within : value.In veil.inside) :
    veil.Keeps (σ := σ) bound alarm (fun _ => True) (Value.writeContainer id key value) := by
  have written : veil.Keeps (σ := σ) bound alarm (fun _ => True) (TaskM.tryWrite id key value) :=
    Lockstep.tryWrite (.inl member) (.inl member) fun _ _ alike => by
      obtain ⟨same, stays⟩ := Alike.put alike member key within
      exact ⟨congrArg (Except.map fun _ => ()) same, stays⟩
  refine written.bind fun result _ => ?_
  cases result with
  | ok done => exact Lockstep.pure trivial
  | error fault => exact Lockstep.fail _

theorem keeps_setProperty {base : Value} (there : base.In veil.inside) (key : Key) {value : Value}
    (within : value.In veil.inside) :
    veil.Keeps (σ := σ) bound alarm (fun _ => True) (base.setProperty key value) := by
  cases base with
  | undefined => exact Lockstep.fail _
  | null => exact Lockstep.fail _
  | container id => exact keeps_writeContainer (there id rfl) key within
  | _ => exact Lockstep.pure trivial

/-! ## Methods -/

theorem in_argument {args : List Value} (within : ∀ arg ∈ args, arg.In veil.inside)
    (position : Nat) : (Value.argument args position).In veil.inside := by
  rw [Value.argument]
  cases given : args[position]? with
  | none => exact Value.IsPlain.inside trivial
  | some value => exact within value (List.mem_of_getElem? given)

theorem keeps_appendAll {id : ContainerId} (member : veil.inside id) (values : List Value)
    (within : ∀ value ∈ values, value.In veil.inside) (length : Nat) :
    veil.Keeps (σ := σ) bound alarm (fun _ => True) (Value.appendAll id length values) := by
  induction values generalizing length with
  | nil => exact Lockstep.pure trivial
  | cons value rest ih =>
      rw [List.forall_mem_cons] at within
      exact (keeps_writeContainer member _ within.1).bind fun _ _ => ih within.2 _

theorem keeps_arrayMethod {id : ContainerId} (member : veil.inside id) {name : String}
    {args : List Value} (within : ∀ arg ∈ args, arg.In veil.inside) {method : TaskM σ Value}
    (found : Value.arrayMethod? id name args = some method) :
    veil.Keeps bound alarm (Value.In veil.inside) method := by
  unfold Value.arrayMethod? at found
  split at found
  · cases found
    have length : veil.Keeps (σ := σ) bound alarm (fun _ => True)
        (TaskM.watch fun heap => heap.length id) :=
      keeps_coerced (fun _ _ shares => shares.length member) fun _ _ => Heap.length_stays member
    exact length.bind fun length _ =>
      (keeps_appendAll member args within length).bind fun _ _ => keeps_plain trivial
  split at found
  · cases found
    exact Lockstep.pop member
  split at found
  · cases found
    have items : veil.Keeps (σ := σ) bound alarm (fun items => ∀ item ∈ items, item.In veil.inside)
        (TaskM.watch fun heap => heap.items id) :=
      keeps_coerced (fun _ _ shares => shares.items member)
        fun _ encloses => Heap.items_stays encloses member
    exact items.bind fun _ _ => keeps_plain trivial
  split at found
  · cases found
    have joined (separator : String) : veil.Keeps (σ := σ) bound alarm (Value.In veil.inside)
        (do return .text (← TaskM.watch fun heap => heap.join separator id)) := by
      have shown : veil.Keeps (σ := σ) bound alarm (fun _ => True)
          (TaskM.watch fun heap => heap.join separator id) :=
        keeps_coerced (fun _ _ shares => shares.join separator member) fun heap encloses =>
          Heap.joinWith_stays encloses
            (fun path item => Heap.displayWithin_stays encloses _ path item) separator [] member
      exact shown.bind fun _ _ => keeps_plain trivial
    split
    · have comma : veil.Keeps (σ := σ) bound alarm (fun _ => True) (pure ",") :=
        Lockstep.pure trivial
      exact comma.bind fun separator _ => joined separator
    · exact (keeps_display (in_argument within 0)).bind fun separator _ => joined separator
  · contradiction

theorem keeps_textMethod {text name : String} {args : List Value}
    (within : ∀ arg ∈ args, arg.In veil.inside) {method : TaskM σ Value}
    (found : Value.textMethod? text name args = some method) :
    veil.Keeps bound alarm (Value.In veil.inside) method := by
  unfold Value.textMethod? at found
  split at found
  · cases found
    exact keeps_plain trivial
  split at found
  · cases found
    exact keeps_plain trivial
  split at found
  · cases found
    exact keeps_plain trivial
  split at found
  · cases found
    exact (keeps_display (in_argument within 0)).bind fun _ _ => keeps_plain trivial
  · contradiction

theorem keeps_amend (id : EventId) (change : Event → Event) :
    veil.Keeps (σ := σ) bound alarm (Value.In veil.inside) (TaskM.make (.amend id change)) :=
  Lockstep.make fun _ _ alike => ⟨rfl, Value.IsPlain.inside trivial, alike.modifyEvent id change⟩

theorem keeps_eventMethod {id : EventId} {name : String} {method : TaskM σ Value}
    (found : Value.eventMethod? id name = some method) :
    veil.Keeps bound alarm (Value.In veil.inside) method := by
  unfold Value.eventMethod? at found
  split at found
  · cases found
    exact (keeps_amend id _).bind fun _ _ => keeps_plain trivial
  split at found
  · cases found
    exact (keeps_amend id _).bind fun _ _ => keeps_plain trivial
  · contradiction

theorem keeps_callMethod {receiver : Value} (there : receiver.In veil.inside) (key : Key)
    {args : List Value} (within : ∀ arg ∈ args, arg.In veil.inside) :
    veil.Keeps (σ := σ) bound alarm (Value.In veil.inside) (receiver.callMethod key args) := by
  cases key with
  | index position => exact Lockstep.fail _
  | name name =>
      refine (keeps_typeName there).bind fun type _ => ?_
      split
      case h_1 method found =>
        cases receiver with
        | container id =>
            simp only [Value.ownMethod?] at found
            split at found
            · exact keeps_arrayMethod (there id rfl) within found
            · contradiction
        | text content => exact keeps_textMethod within found
        | event id => exact keeps_eventMethod found
        | _ => contradiction
      case h_2 =>
        split
        · exact (keeps_display there).bind fun _ _ => keeps_plain trivial
        · exact Lockstep.fail _

end Veil

end LiveMarkup
