import LiveMarkup.Proofs.Expr.Grammar
import LiveMarkup.Proofs.Reactive.Grounded

/-!
# Where functions come from

A function is made when an arrow is evaluated, and arrows stand in programs that have been read.  If
that holds of all functions there are and of all that tasks make, it goes on to hold: no write, no
copy and no run of an effect makes a function of another kind.
-/

namespace LiveMarkup

/-- Whether an expression stands in a program that has been read from some text. -/
def Expr.FromText (expr : Expr) : Prop :=
  ∃ source program, parse source = .ok program ∧ program.Occurs expr

/-- What stands in such an expression comes from the same text. -/
theorem Expr.FromText.part {outer inner : Expr} (read : outer.FromText) (direct : inner ∈ outer.parts) :
    inner.FromText := by
  obtain ⟨source, program, parsed, stands⟩ := read
  exact ⟨source, program, parsed, stands.part direct⟩

/-- Whether all functions have been written in texts. -/
def Heap.FromTexts (heap : Heap) : Prop := ∀ closure ∈ heap.closures, closure.body.FromText

/-- Whether a request makes no function but one that has been written in a text. -/
def Request.FromTexts : Request → Prop
  | .closure code => code.body.FromText
  | .object _ _ | .array _ _ | .adopt _ _ | .data _ _ | .event _ | .amend _ _ => True

/-- Whether a task makes only functions that have been written in texts, and ends well, if it finds
only such functions. -/
def Task.FromTexts {σ : Type} (ends : Except Fault Value → Prop) : Task σ → Prop
  | .done result => ends result
  | .look next => ∀ store : Store, store.heap.FromTexts → (next store).FromTexts ends
  | .has _ _ next => ∀ present, (next present).FromTexts ends
  | .track _ next => next.FromTexts ends
  | .make request next => request.FromTexts ∧ ∀ value, (next value).FromTexts ends
  | .write _ _ _ next => ∀ result, (next result).FromTexts ends
  | .pop _ next => ∀ value, (next value).FromTexts ends
  | .define body next => body.FromTexts (fun _ => True) ∧ ∀ effect, (next effect).FromTexts ends
  | .run _ _ next => ∀ result, (next result).FromTexts ends
  | .untracked _ block next => block.FromTexts (fun _ => True) ∧
      ∀ result, (next result).FromTexts ends
  | .report _ _ next => next.FromTexts ends
  | .drain _ next => ∀ faults, (next faults).FromTexts ends
  | .survey next => ∀ surroundings, (next surroundings).FromTexts ends
  | .alter _ next => next.FromTexts ends

/-! ## Heaps -/

namespace Heap

theorem FromTexts.of_closures {before after : Heap} (read : before.FromTexts)
    (same : after.closures = before.closures) : after.FromTexts :=
  fun closure member => read closure (same ▸ member)

theorem FromTexts.perform {heap : Heap} {request : Request} (read : heap.FromTexts)
    (made : request.FromTexts) : (request.perform heap).2.FromTexts := by
  have stays (tracker : TrackerId) :
      StaysWithNew tracker fun after => after.closures = heap.closures := fun _ _ _ same => same
  cases request with
  | object tracker entries => exact read.of_closures (Preserves.newObject (stays tracker) entries heap rfl)
  | array tracker items => exact read.of_closures (Preserves.newArray (stays tracker) items heap rfl)
  | adopt tracker value => exact read.of_closures (closures_adopt tracker value heap)
  | data tracker json => exact read.of_closures (Preserves.ofJson (stays tracker) json heap rfl)
  | closure code =>
      intro closure member
      rcases Array.mem_push.mp member with old | rfl
      · exact read closure old
      · exact made
  | event fresh => exact read
  | amend id change => exact read

end Heap

namespace Store

variable {store : Store}

/-- A write adopts a value and stores it, and neither makes a function. -/
theorem fromTexts_put (read : store.heap.FromTexts) (id : ContainerId) (key : Key) (value : Value) :
    (store.put id key value).2.heap.FromTexts := by
  have adopted := Heap.closures_adopt (store.heap.owner id) value store.heap
  refine read.of_closures ?_
  obtain ⟨taken, heap, adoption, refused | ⟨contents, -, stored⟩⟩ := heap_put_cases store id key value
  · rw [refused]
    rwa [adoption] at adopted
  · rw [stored]
    rwa [adoption] at adopted

theorem fromTexts_takeLast (read : store.heap.FromTexts) (id : ContainerId) :
    (store.takeLast id).2.2.heap.FromTexts := by
  rcases takeLast_cases store id with nothing | ⟨position, last, rest, popped, taken⟩
  · rw [nothing]
    exact read
  · rw [taken]
    exact read.of_closures rfl

end Store

/-! ## Runs -/

variable {σ : Type} {ends : Except Fault Value → Prop}

/-- Whether all functions of a world, and all that its effects make, have been written in texts. -/
structure World.FromTexts (world : World σ) : Prop where
  /-- The functions. -/
  heap : world.store.heap.FromTexts
  /-- What the effects do. -/
  bodies : ∀ body ∈ world.bodies, body.FromTexts fun _ => True

namespace World

theorem FromTexts.of_heap {world after : World σ} (read : world.FromTexts)
    (heap : after.store.heap.FromTexts) (bodies : after.bodies = world.bodies) : after.FromTexts :=
  ⟨heap, fun body member => read.bodies body (bodies ▸ member)⟩

theorem FromTexts.body {world : World σ} (read : world.FromTexts) (effect : EffectId) :
    (world.body effect).FromTexts fun _ => True := by
  rw [World.body]
  cases given : world.bodies[effect.index]? with
  | none => trivial
  | some body => exact read.bodies body (Array.mem_of_getElem? given)

/-- A way to run effects that makes only functions written in texts. -/
def Runner.FromTexts (runner : Runner σ) : Prop :=
  ∀ tracker effect world, World.FromTexts world → World.FromTexts (runner tracker effect world).2

section Runner

variable {runner : Runner σ}

theorem FromTexts.fanOut (runs : runner.FromTexts) (tracker : TrackerId) (effects : List EffectId)
    {world : World σ} (read : world.FromTexts) : (world.fanOut runner tracker effects).FromTexts := by
  induction effects generalizing world with
  | nil => exact read
  | cons effect rest ih =>
      have ran := runs tracker effect world read
      rw [World.fanOut, List.foldl_cons]
      split
      next after result =>
        rw [result] at ran
        exact ih ran
      next fault after result =>
        rw [result] at ran
        exact ih (ran.of_heap ran.heap rfl)

theorem FromTexts.triggerAll (runs : runner.FromTexts) (changed : List Access) {world : World σ}
    (read : world.FromTexts) : (changed.foldl (trigger runner) world).FromTexts := by
  induction changed generalizing world with
  | nil => exact read
  | cons access rest ih => exact ih (read.fanOut runs _ _)

theorem FromTexts.write (runs : runner.FromTexts) (id : ContainerId) (key : Key) (value : Value)
    {world : World σ} (read : world.FromTexts) : (world.write runner id key value).2.FromTexts := by
  have stored := Store.fromTexts_put read.heap id key value
  rw [World.write]
  split
  next fault store result =>
    rw [result] at stored
    exact read.of_heap stored rfl
  next changed store result =>
    rw [result] at stored
    have wrote : World.FromTexts { world with store := store } := read.of_heap stored rfl
    exact wrote.triggerAll runs changed

theorem FromTexts.pop (runs : runner.FromTexts) (id : ContainerId) {world : World σ}
    (read : world.FromTexts) : (world.pop runner id).2.FromTexts := by
  have taken := Store.fromTexts_takeLast read.heap id
  rw [World.pop]
  have took : World.FromTexts { world with store := (world.store.takeLast id).2.2 } :=
    read.of_heap taken rfl
  exact took.triggerAll runs _

/-- A task that makes only functions written in texts ends as it should. -/
theorem FromTexts.interpret (runs : runner.FromTexts) {task : Task σ} {world : World σ}
    (written : task.FromTexts ends) (read : world.FromTexts) :
    ends (interpret runner task world).1 ∧ (interpret runner task world).2.FromTexts := by
  induction task generalizing ends world with
  | done result => exact ⟨written, read⟩
  | look next ih => exact ih _ (written _ read.heap) read
  | has target key next ih => exact ih _ (written _) read
  | track reads next ih =>
      refine ih written (read.of_heap ?_ rfl)
      exact read.heap.of_closures (congrArg Heap.closures (Store.heap_track _ reads))
  | make request next ih => exact ih _ (written.2 _) (read.of_heap (read.heap.perform written.1) rfl)
  | write target key value next ih => exact ih _ (written _) (read.write runs target key value)
  | pop target next ih => exact ih _ (written _) (read.pop runs target)
  | define body next _ ih =>
      refine ih _ (written.2 _) ⟨read.heap, fun other member => ?_⟩
      rcases Array.mem_push.mp member with old | rfl
      · exact read.bodies other old
      · exact written.1
  | run tracker effect next ih => exact ih _ (written _) (runs tracker effect world read)
  | untracked tracker block next inside ih =>
      have entered : (world.enter tracker none).FromTexts := read.of_heap read.heap rfl
      have left := (inside written.1 entered).2
      exact ih _ (written.2 _) (left.of_heap left.heap rfl)
  | report tracker fault next ih => exact ih written (read.of_heap read.heap rfl)
  | drain tracker next ih => exact ih _ (written _) (read.of_heap read.heap rfl)
  | survey next ih => exact ih _ (written _) read
  | alter change next ih => exact ih written (read.of_heap read.heap rfl)

end Runner

/-- Running an effect makes only functions written in texts, however many effects may be nested in
it. -/
theorem fromTexts_runEffect (bound : Nat) : Runner.FromTexts (runEffect (σ := σ) bound) := by
  induction bound with
  | zero =>
      intro tracker effect world read
      rw [runEffect]
      split <;> exact read
  | succ bound ih =>
      intro tracker effect world read
      rw [runEffect]
      split
      · exact read
      · have begun : (world.begin tracker effect).FromTexts := read.of_heap read.heap rfl
        have ran := (begun.interpret ih (read.body effect)).2
        exact ran.of_heap ran.heap rfl

end World

end LiveMarkup
