import LiveMarkup.Proofs.Heap.Keyed

/-!
# Work that writes under obtained keys

Work is keyed if whatever it writes, it writes under a key that was obtained or at a position of an
array, and if whatever objects it makes have obtained keys.  It may do so however the heap changes
until it is its turn, as containers stay and keep their kinds.  Keyed work keeps the tables of all
containers keyed at all points of its run.
-/

namespace LiveMarkup

namespace Heap

/-- Whether a container may be written to under a key. -/
def Accepts (heap : Heap) (id : ContainerId) (key : Key) : Prop := (heap.contents id).Accepts key

variable {heap more : Heap}

theorem isArray_of_keeps (keeps : heap.Keeps more) {id : ContainerId} (isArray : heap.isArray id = true) :
    more.isArray id = true :=
  (keeps.isArray id (isArray_known isArray)).trans isArray

theorem Accepts.mono {id : ContainerId} {key : Key} (accepts : heap.Accepts id key)
    (keeps : heap.Keeps more) : more.Accepts id key :=
  accepts.imp_right fun position => ⟨isArray_of_keeps keeps position.1, position.2⟩

end Heap

/-! ## Tasks -/

/-- Whether a task uses obtained keys from a heap on, whatever answers it gets and whatever becomes
of the heap. -/
def Task.Keyed {σ : Type} : Task σ → Heap → Prop
  | .done _, _ => True
  | .look next, heap => ∀ store : Store, heap.Keeps store.heap → (next store).Keyed store.heap
  | .has _ _ next, heap => ∀ present, (next present).Keyed heap
  | .track _ next, heap => next.Keyed heap
  | .make request next, heap => request.Keyed ∧
      ∀ more value, heap.Keeps more → (next value).Keyed more
  | .write target key _ next, heap => heap.Accepts target key ∧
      ∀ more result, heap.Keeps more → (next result).Keyed more
  | .pop _ next, heap => ∀ more value, heap.Keeps more → (next value).Keyed more
  | .define body next, heap => body.Keyed heap ∧ ∀ effect, (next effect).Keyed heap
  | .run _ _ next, heap => ∀ more result, heap.Keeps more → (next result).Keyed more
  | .untracked _ block next, heap => block.Keyed heap ∧
      ∀ more outcome, heap.Keeps more → (next outcome).Keyed more
  | .report _ _ next, heap => next.Keyed heap
  | .drain _ next, heap => ∀ faults, (next faults).Keyed heap
  | .survey next, heap => ∀ surroundings, (next surroundings).Keyed heap
  | .alter _ next, heap => next.Keyed heap

variable {σ : Type} {heap more : Heap}

/-- What is keyed goes on being so. -/
theorem Task.Keyed.mono {task : Task σ} (keyed : task.Keyed heap) (keeps : heap.Keeps more) :
    task.Keyed more := by
  induction task generalizing heap more with
  | done result => trivial
  | look next ih => exact fun store later => keyed store (keeps.trans later)
  | has target key next ih => exact fun present => ih present (keyed present) keeps
  | track reads next ih => exact ih keyed keeps
  | make request next ih =>
      exact ⟨keyed.1, fun most value later => keyed.2 most value (keeps.trans later)⟩
  | write target key value next ih =>
      exact ⟨keyed.1.mono keeps, fun most result later => keyed.2 most result (keeps.trans later)⟩
  | pop target next ih => exact fun most value later => keyed most value (keeps.trans later)
  | define body next ihBody ih =>
      exact ⟨ihBody keyed.1 keeps, fun effect => ih effect (keyed.2 effect) keeps⟩
  | run tracker effect next ih =>
      exact fun most result later => keyed most result (keeps.trans later)
  | untracked tracker block next ihBlock ih =>
      exact ⟨ihBlock keyed.1 keeps,
        fun most outcome later => keyed.2 most outcome (keeps.trans later)⟩
  | report tracker fault next ih => exact ih keyed keeps
  | drain tracker next ih => exact fun faults => ih faults (keyed faults) keeps
  | survey next ih => exact fun surroundings => ih surroundings (keyed surroundings) keeps
  | alter change next ih => exact ih keyed keeps

/-- Whether work uses obtained keys from a heap on. -/
def Work.Keyed (heap : Heap) : Work σ → Prop
  | .task code => code.Keyed heap
  | .attempt _ _ | .attempts _ _ | .tell _ => True

/-! ## Computations -/

/-- Whether a computation uses obtained keys from a heap on and yields something good, if what comes
after it goes on with such. -/
def TaskM.Keyed {α : Type} (heap : Heap) (good : Heap → α → Prop) (computation : TaskM σ α) : Prop :=
  ∀ next : Except Fault α → Task σ,
    (∀ more result, heap.Keeps more → (∀ a, result = .ok a → good more a) →
      (next result).Keyed more) → (computation next).Keyed heap

namespace TaskM

variable {α β : Type} {good : Heap → α → Prop} {goodNext : Heap → β → Prop}

theorem Keyed.toTask {body : TaskM σ Value} {good : Heap → Value → Prop}
    (keyed : body.Keyed heap good) : body.toTask.Keyed heap :=
  keyed .done fun _ _ _ _ => trivial

theorem Keyed.bind {computation : TaskM σ α} {next : α → TaskM σ β}
    (keyed : computation.Keyed heap good)
    (later : ∀ more a, heap.Keeps more → good more a → (next a).Keyed more goodNext) :
    (computation >>= next).Keyed heap goodNext := by
  intro finish closed
  refine keyed _ fun more result keeps holds => ?_
  cases result with
  | error fault => exact closed more _ keeps fun _ same => nomatch same
  | ok a =>
      exact later more a keeps (holds a rfl) finish
        fun most result enough => closed most result (keeps.trans enough)

theorem Keyed.imp {better : Heap → α → Prop} {computation : TaskM σ α}
    (keyed : computation.Keyed heap good) (implies : ∀ more a, good more a → better more a) :
    computation.Keyed heap better :=
  fun next closed => keyed next fun more result keeps holds =>
    closed more result keeps fun a same => implies more a (holds a same)

theorem keyed_pure {a : α} (holds : good heap a) : (Pure.pure a : TaskM σ α).Keyed heap good :=
  fun _ closed => closed heap _ (.refl heap) fun _ same => Except.ok.inj same ▸ holds

theorem keyed_fail (fault : Fault) : (fail fault : TaskM σ α).Keyed heap good :=
  fun _ closed => closed heap _ (.refl heap) fun _ same => nomatch same

theorem keyed_ofExcept {result : Except Fault α} (holds : ∀ a, result = .ok a → good heap a) :
    (ofExcept result : TaskM σ α).Keyed heap good :=
  fun _ closed => closed heap _ (.refl heap) holds

theorem keyed_look {observe : Heap → α} (holds : ∀ more, heap.Keeps more → good more (observe more)) :
    (look observe : TaskM σ α).Keyed heap good :=
  fun _ closed store keeps =>
    closed _ _ keeps fun _ same => Except.ok.inj same ▸ holds store.heap keeps

theorem keyed_watch {computation : Heap → Watch α}
    (holds : ∀ more, heap.Keeps more → good more ((computation more).run #[]).1) :
    (watch computation : TaskM σ α).Keyed heap good :=
  fun _ closed store keeps =>
    closed store.heap _ keeps fun _ same => Except.ok.inj same ▸ holds store.heap keeps

theorem keyed_has (target : ContainerId) (key : Key) :
    (has target key : TaskM σ Bool).Keyed heap fun _ _ => True :=
  fun _ closed _ => closed heap _ (.refl heap) fun _ _ => trivial

theorem keyed_make {request : Request} (keyed : request.Keyed) :
    (make request : TaskM σ Value).Keyed heap fun _ _ => True :=
  fun _ closed => ⟨keyed, fun more _ keeps => closed more _ keeps fun _ _ => trivial⟩

theorem keyed_tryWrite {target : ContainerId} {key : Key} (accepts : heap.Accepts target key)
    (value : Value) : (tryWrite target key value : TaskM σ _).Keyed heap fun _ _ => True :=
  fun _ closed => ⟨accepts, fun more _ keeps => closed more _ keeps fun _ _ => trivial⟩

theorem keyed_pop (target : ContainerId) :
    (pop target : TaskM σ Value).Keyed heap fun _ _ => True :=
  fun _ closed more _ keeps => closed more _ keeps fun _ _ => trivial

theorem keyed_report (tracker : TrackerId) (fault : Fault) :
    (report tracker fault : TaskM σ Unit).Keyed heap fun _ _ => True :=
  fun _ closed => closed heap _ (.refl heap) fun _ _ => trivial

theorem keyed_tryRun (tracker : TrackerId) (effect : EffectId) :
    (tryRun tracker effect : TaskM σ _).Keyed heap fun _ _ => True :=
  fun _ closed more _ keeps => closed more _ keeps fun _ _ => trivial

theorem Keyed.createEffect {body : TaskM σ Value} {good : Heap → Value → Prop}
    (keyed : body.Keyed heap good) (tracker : TrackerId) :
    (createEffect tracker body).Keyed heap fun _ _ => True := by
  have defined : (define body).Keyed heap fun _ _ => True := fun _ closed =>
    ⟨keyed.toTask, fun _ => closed heap _ (.refl heap) fun _ _ => trivial⟩
  refine defined.bind fun more effect _ _ => ?_
  refine (keyed_tryRun tracker effect).bind fun most result _ _ => ?_
  cases result with
  | ok done => exact keyed_pure trivial
  | error fault => exact (keyed_report tracker fault).bind fun _ _ _ _ => keyed_pure trivial

theorem keyed_set {target : ContainerId} {key : Key} (accepts : heap.Accepts target key)
    (value : Value) : (set target key value : TaskM σ Unit).Keyed heap fun _ _ => True := by
  refine (keyed_tryWrite accepts value).bind fun more result _ _ => ?_
  cases result with
  | ok done => exact keyed_pure trivial
  | error fault =>
      have owner : (look fun heap => heap.owner target : TaskM σ TrackerId).Keyed more
          fun _ _ => True := keyed_look fun _ _ => trivial
      exact owner.bind fun _ owner _ _ => keyed_report owner _

/-- An array is pushed to at a position. -/
theorem keyed_push (target : ContainerId) (value : Value) :
    (push target value : TaskM σ Nat).Keyed heap fun _ _ => True := by
  have seen : (look fun heap => heap.contents target : TaskM σ Contents).Keyed heap
      fun more contents => more.contents target = contents := keyed_look fun _ _ => rfl
  refine seen.bind fun more contents _ same => ?_
  cases contents with
  | object properties => exact keyed_pure trivial
  | array items named =>
      have accepts : more.Accepts target (.index items.size) :=
        .inr ⟨congrArg Contents.isArray same, items.size, rfl⟩
      exact (keyed_set accepts value).bind fun _ _ _ _ => keyed_pure trivial

end TaskM

/-! ## Writes -/

namespace Store

variable {store : Store}

theorem keyed_put (keyed : store.heap.Keyed) {id : ContainerId} {key : Key}
    (accepts : store.heap.Accepts id key) (value : Value) : (store.put id key value).2.heap.Keyed := by
  have adopted : (Heap.adopt (store.heap.owner id) value store.heap).2.Keyed :=
    (Heap.Fills.adopt value store.heap keyed).1
  have keeps := (Heap.adopt_allocates (store.heap.owner id) value store.heap).keeps
  obtain ⟨taken, heap, adoption, refused | ⟨contents, written, stored⟩⟩ :=
    heap_put_cases store id key value
  · rw [refused]
    rwa [adoption] at adopted
  · rw [stored]
    rw [adoption] at adopted keeps
    exact adopted.setContents id ((adopted id).written (accepts.mono keeps) written)

theorem keyed_takeLast (keyed : store.heap.Keyed) (id : ContainerId) :
    (store.takeLast id).2.2.heap.Keyed := by
  rcases takeLast_cases store id with nothing | ⟨position, last, rest, popped, taken⟩
  · rw [nothing]
    exact keyed
  · rw [taken]
    exact keyed.setContents id ((keyed id).pop popped)

end Store

/-! ## Runs -/

/-- Whether tables have obtained keys only, and effects use no others. -/
structure World.Keyed (world : World σ) : Prop where
  /-- The tables. -/
  heap : world.store.heap.Keyed
  /-- What the effects do. -/
  bodies : ∀ body ∈ world.bodies, body.Keyed world.store.heap

namespace World

theorem Keyed.of_keeps {world after : World σ} (keyed : world.Keyed)
    (keeps : world.store.heap.Keeps after.store.heap) (heap : after.store.heap.Keyed)
    (bodies : after.bodies = world.bodies) : after.Keyed :=
  ⟨heap, fun body member => (keyed.bodies body (bodies ▸ member)).mono keeps⟩

theorem Keyed.body {world : World σ} (keyed : world.Keyed) (effect : EffectId) :
    (world.body effect).Keyed world.store.heap := by
  rw [World.body]
  cases given : world.bodies[effect.index]? with
  | none => trivial
  | some body => exact keyed.bodies body (Array.mem_of_getElem? given)

end World

namespace Point

/-- Whether tables have obtained keys only, and what is to be done uses no others. -/
structure Keyed (point : Point σ) : Prop where
  /-- What there is. -/
  world : point.world.Keyed
  /-- What is to be done. -/
  work : point.work.Keyed point.world.store.heap

theorem Keyed.goes {point next : Point σ} (keyed : point.Keyed) (goes : point.Goes next) :
    next.Keyed := by
  have keeps := goes.extends_.store.heap
  obtain ⟨world, work⟩ := keyed
  cases goes with
  | look => exact ⟨world, work _ keeps⟩
  | has => exact ⟨world, work _⟩
  | @track _ reads _ before =>
      have heap : (before.mapStore fun store => store.track reads).store.heap = before.store.heap :=
        Store.heap_track _ _
      exact ⟨world.of_keeps keeps (heap ▸ world.heap) rfl, Task.Keyed.mono work keeps⟩
  | make => exact ⟨world.of_keeps keeps (world.heap.perform work.1) rfl, work.2 _ _ keeps⟩
  | @refuse _ target key value _ _ _ _ refused =>
      have heap := Store.keyed_put world.heap work.1 value
      rw [refused] at heap
      exact ⟨world.of_keeps keeps heap rfl, work.2 _ _ keeps⟩
  | define =>
      refine ⟨⟨world.heap, fun body member => ?_⟩, work.2 _⟩
      rcases Array.mem_push.mp member with old | rfl
      · exact world.bodies body old
      · exact work.1
  | report => exact ⟨world.of_keeps keeps world.heap rfl, work⟩
  | drain => exact ⟨world.of_keeps keeps world.heap rfl, work _⟩
  | survey => exact ⟨world, work _⟩
  | alter => exact ⟨world.of_keeps keeps world.heap rfl, work⟩

theorem Keyed.calls {point callee : Point σ} {resume : Except Fault Value → World σ → Point σ}
    (keyed : point.Keyed) (calls : point.Calls callee resume) : callee.Keyed := by
  have keeps := calls.grows.heap
  obtain ⟨world, work⟩ := keyed
  cases calls with
  | @write _ target key value _ before _ store accepted =>
      have heap := Store.keyed_put world.heap work.1 value
      rw [accepted] at heap
      exact ⟨world.of_keeps keeps heap rfl, trivial⟩
  | @pop _ target _ before =>
      exact ⟨world.of_keeps keeps (Store.keyed_takeLast world.heap target) rfl, trivial⟩
  | run => exact ⟨world, trivial⟩
  | untracked => exact ⟨world.of_keeps keeps world.heap rfl, work.1⟩
  | @begin _ _ effect before => exact ⟨world.of_keeps keeps world.heap rfl, world.body effect⟩
  | attempts => exact ⟨world, trivial⟩
  | tell => exact ⟨world, trivial⟩

theorem Keyed.resumes {point callee : Point σ} {resume : Except Fault Value → World σ → Point σ}
    {between : World σ} (keyed : point.Keyed) (calls : point.Calls callee resume)
    (inside : callee.world.Extends between) (last : between.Keyed) (outcome : Except Fault Value) :
    (resume outcome between).Keyed := by
  have keeps := calls.grows.heap.trans inside.store.heap
  have work := keyed.work
  have left (tracker : TrackerId) : (between.leave tracker).Keyed := ⟨last.heap, last.bodies⟩
  cases calls with
  | write => exact ⟨last, work.2 _ _ keeps⟩
  | pop => exact ⟨last, work _ _ keeps⟩
  | run => exact ⟨last, work _ _ keeps⟩
  | untracked => exact ⟨left _, work.2 _ _ keeps⟩
  | begin => exact ⟨left _, trivial⟩
  | attempts =>
      cases outcome with
      | ok value => exact ⟨⟨last.heap, last.bodies⟩, trivial⟩
      | error fault => exact ⟨⟨last.heap, last.bodies⟩, trivial⟩
  | tell => exact ⟨last, trivial⟩

/-- Keyed work keeps everything keyed, at all points of its run. -/
theorem Runs.keyed {point : Point σ} {passed : List (Point σ)} {result : Except Fault Value}
    {after : World σ} (runs : point.Runs passed result after) (start : point.Keyed) :
    (∀ inner ∈ passed, inner.Keyed) ∧ after.Keyed :=
  runs.keeps Keyed World.Keyed (fun ends keyed => ends.world_eq ▸ keyed.world)
    (fun goes keyed => keyed.goes goes) (fun calls keyed => keyed.calls calls)
    (fun calls keyed inside last => keyed.resumes calls inside last _) start

end Point

end LiveMarkup
