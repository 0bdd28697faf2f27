import LiveMarkup.Proofs.Reactive.Adequacy
import LiveMarkup.Proofs.Reactive.Yield
import LiveMarkup.Expr.Evaluation

/-!
# What short assignments stand for

A compound assignment and an update find the place that they write to, read it, and write to it.
What they stand for, an ordinary assignment of a sum, finds its place and then evaluates its target
once more as an operand.  If what the target is made of only reads, this second evaluation comes to
the same place, and the reads that it counts are counted already.
-/

namespace LiveMarkup

namespace TaskM

variable {σ α β : Type}

/-! ## Computations that do the same -/

/-- Whether two computations do the same in every world, whoever runs the effects that they trigger and
whatever comes after them. -/
def Agrees (first second : TaskM σ α) : Prop :=
  ∀ (runner : World.Runner σ) (world : World σ) (next : Except Fault α → Task σ),
    World.interpret runner (first next) world = World.interpret runner (second next) world

namespace Ends

variable {runner : World.Runner σ} {world after : World σ} {head : TaskM σ α} {a : α} {fault : Fault}
  {later : α → TaskM σ β}

/-- What comes after a computation that ends goes on where it has ended. -/
theorem interpret_bind (ends : head.Ends runner world (.ok a) after)
    (next : Except Fault β → Task σ) :
    World.interpret runner ((head >>= later) next) world =
      World.interpret runner (later a next) after :=
  ends _

/-- Nothing comes after a computation that fails. -/
theorem interpret_bind_error (ends : head.Ends runner world (.error fault) after)
    (next : Except Fault β → Task σ) :
    World.interpret runner ((head >>= later) next) world =
      World.interpret runner (next (.error fault)) after :=
  ends _

end Ends

/-! ## Computations that only read -/

/-- Whether a computation does nothing but count some reads over a heap, and then has a result. -/
def Consults (computation : TaskM σ α) (heap : Heap) (result : Except Fault α) (reads : Array Access) :
    Prop :=
  ∀ (runner : World.Runner σ) (world : World σ), world.store.heap = heap →
    computation.Ends runner world result (world.mapStore fun store => store.track reads)

/-- A second time nothing is new. -/
theorem Consults.again {computation : TaskM σ α} {heap : Heap} {result : Except Fault α}
    {reads : Array Access} (consults : Consults computation heap result reads)
    (runner : World.Runner σ) {world : World σ} (same : world.store.heap = heap) :
    computation.Ends runner (world.mapStore fun store => store.track reads) result
      (world.mapStore fun store => store.track reads) := by
  have ends := consults runner (world.mapStore fun store => store.track reads)
    ((Store.heap_track _ _).trans same)
  simp only [World.mapStore, Store.track_twice] at ends
  exact ends

/-- Whether a computation only reads. -/
def OnlyReads (computation : TaskM σ α) : Prop :=
  ∀ heap, ∃ result reads, computation.Consults heap result reads

namespace OnlyReads

variable {computation : TaskM σ α} {next : α → TaskM σ β}

theorem ofExcept (result : Except Fault α) : OnlyReads (σ := σ) (TaskM.ofExcept result) :=
  fun _ => ⟨result, #[], fun _ world _ => .ofExcept result world⟩

theorem pure (a : α) : OnlyReads (σ := σ) (Pure.pure a) := ofExcept (.ok a)

theorem fail (fault : Fault) : OnlyReads (σ := σ) (α := α) (TaskM.fail fault) :=
  ofExcept (.error fault)

theorem look (observe : Heap → α) : OnlyReads (σ := σ) (TaskM.look observe) :=
  fun heap => ⟨.ok (observe heap), #[], fun _ world same => same ▸ .look observe world⟩

theorem has (target : ContainerId) (key : Key) : OnlyReads (σ := σ) (TaskM.has target key) :=
  fun heap => ⟨.ok (heap.contains target key), #[], fun _ _ same => same ▸ fun _ => rfl⟩

theorem watch (computation : Heap → Watch α) : OnlyReads (σ := σ) (TaskM.watch computation) :=
  fun heap => ⟨.ok ((computation heap).run #[]).1, ((computation heap).run #[]).2,
    fun _ _ same => same ▸ fun _ => rfl⟩

theorem bind (reads : OnlyReads computation) (later : ∀ a, OnlyReads (next a)) :
    OnlyReads (computation >>= next) := by
  intro heap
  obtain ⟨result, first, consults⟩ := reads heap
  cases result with
  | error fault => exact ⟨_, first, fun runner world same => (consults runner world same).bind_error⟩
  | ok a =>
      obtain ⟨result, second, consultsLater⟩ := later a heap
      refine ⟨result, first ++ second, fun runner world same => ?_⟩
      have behind := consultsLater runner (world.mapStore fun store => store.track first)
        ((Store.heap_track _ _).trans same)
      refine (consults runner world same).bind ?_
      simp only [World.mapStore, ← Store.track_append] at behind
      exact behind

end OnlyReads

end TaskM

namespace Expr

variable {σ : Type}

/-! ## Expressions that only read -/

/-- Whether an expression is made of names, literals, members, operators and conditionals. -/
def isReading : Expr → Bool
  | .literal _ | .ident _ => true
  | .member holder _ => isReading holder
  | .index holder position => isReading holder && isReading position
  | .unary _ operand => isReading operand
  | .binary _ left right => isReading left && isReading right
  | .logical _ left right => isReading left && isReading right
  | .conditional test consequent alternate =>
      isReading test && isReading consequent && isReading alternate
  | .array _ | .object _ | .call _ _ | .assign _ _ _ | .update _ _ _ | .arrow _ _ | .sequence _ => false

theorem onlyReads_getProperty (base : Value) (key : Key) :
    (base.getProperty (σ := σ) key).OnlyReads := by
  cases base with
  | undefined => exact .fail _
  | null => exact .fail _
  | container id => exact .watch fun heap => heap.get id key
  | text content => exact .pure _
  | event id => exact .look fun heap => (heap.event id).property key
  | function id =>
      simp only [Value.getProperty]
      split
      · exact .look _
      · exact .pure _
  | bool value => exact .pure _
  | number value => exact .pure _

section Evaluation

variable (call : Caller σ) (scope : Scope) (bindings : Bindings)

theorem onlyReads_lookup (name : String) : (lookup (σ := σ) scope bindings name).OnlyReads := by
  unfold lookup
  cases bindings.get? name with
  | some value => exact .pure value
  | none =>
      cases scope.data with
      | none => exact .fail _
      | some data =>
          refine .bind (.has data _) fun present => .bind (.watch _) fun value => ?_
          cases present with
          | true => exact .pure value
          | false => exact .fail _

theorem onlyReads_evalWith : (expr : Expr) → expr.isReading = true →
    (evalWith call scope bindings expr).OnlyReads
  | .literal value, _ => .pure _
  | .ident name, _ => onlyReads_lookup scope bindings name
  | .member holder property, reading =>
      (onlyReads_evalWith holder reading).bind fun base => onlyReads_getProperty base _
  | .index holder position, reading => by
      obtain ⟨readingHolder, readingPosition⟩ := Bool.and_eq_true_iff.mp reading
      exact (onlyReads_evalWith holder readingHolder).bind fun base =>
        (onlyReads_evalWith position readingPosition).bind fun place =>
          .bind (.watch _) fun key => onlyReads_getProperty base key
  | .unary op operand, reading => (onlyReads_evalWith operand reading).bind fun _ => .watch _
  | .binary op left right, reading => by
      obtain ⟨readingLeft, readingRight⟩ := Bool.and_eq_true_iff.mp reading
      exact (onlyReads_evalWith left readingLeft).bind fun first =>
        (onlyReads_evalWith right readingRight).bind fun second => .watch _
  | .logical op left right, reading => by
      obtain ⟨readingLeft, readingRight⟩ := Bool.and_eq_true_iff.mp reading
      have later := onlyReads_evalWith right readingRight
      refine (onlyReads_evalWith left readingLeft).bind fun first => ?_
      cases op with
      | and =>
          cases first.isTruthy with
          | false => exact .pure first
          | true => exact later
      | or =>
          cases first.isTruthy with
          | false => exact later
          | true => exact .pure first
  | .conditional test consequent alternate, reading => by
      obtain ⟨readingTest, readingAlternate⟩ := Bool.and_eq_true_iff.mp reading
      obtain ⟨readingTest, readingConsequent⟩ := Bool.and_eq_true_iff.mp readingTest
      refine (onlyReads_evalWith test readingTest).bind fun value => ?_
      split
      · exact onlyReads_evalWith consequent readingConsequent
      · exact onlyReads_evalWith alternate readingAlternate
  | .array _, reading | .object _, reading | .call _ _, reading | .assign _ _ _, reading
  | .update _ _ _, reading | .arrow _ _, reading | .sequence _, reading => nomatch reading

/-- Finding the place of a target that only reads only reads. -/
theorem onlyReads_evalPlace (target : Expr) (reading : target.isReading = true) :
    (evalPlace call scope bindings target).OnlyReads := by
  cases target with
  | ident name =>
      rw [evalPlace]
      split
      · exact .fail _
      · exact .pure _
  | member holder property =>
      exact (onlyReads_evalWith call scope bindings holder reading).bind fun base => .pure _
  | index holder position =>
      obtain ⟨readingHolder, readingPosition⟩ := Bool.and_eq_true_iff.mp reading
      exact (onlyReads_evalWith call scope bindings holder readingHolder).bind fun base =>
        (onlyReads_evalWith call scope bindings position readingPosition).bind fun place =>
          .bind (.watch _) fun key => .pure _
  | _ => exact .fail _

theorem onlyReads_readPlace (place : Place) : (readPlace (σ := σ) scope bindings place).OnlyReads := by
  cases place with
  | binding name => exact onlyReads_lookup scope bindings name
  | property base key => exact onlyReads_getProperty base key

/-- A target whose place is found is evaluated by reading that place. -/
theorem evalWith_of_place {target : Expr} {runner : World.Runner σ} {world after : World σ}
    {place : Place} (found : (evalPlace call scope bindings target).Ends runner world (.ok place) after) :
    evalWith call scope bindings target =
      (do readPlace scope bindings (← evalPlace call scope bindings target)) := by
  have missed (fault : EvalFault)
      (fails : evalPlace call scope bindings target = Value.evalFail fault) : False := by
    rw [fails] at found
    exact nomatch (found.unique (.ofExcept (.error _) world)).1
  cases target with
  | ident name =>
      rw [evalPlace] at missed ⊢
      split at missed
      next => exact (missed _ rfl).elim
      next free =>
        rw [if_neg free]
        rfl
  | member holder property =>
      rw [evalWith, evalPlace, bind_assoc]
      rfl
  | index holder position =>
      rw [evalWith, evalPlace]
      simp only [bind_assoc]
      rfl
  | _ => exact (missed _ rfl).elim

/-! ## Assignments -/

/-- What an update adds, as an expression. -/
def stepOperand : Step → Expr
  | .up => .literal (.number 1)
  | .down => .unary .neg (.literal (.number 1))

/-- What an update stands for: the assignment of a sum. -/
def updateSum (step : Step) (target : Expr) : Expr :=
  .assign .set target (.binary .add (.unary .plus target) (stepOperand step))

theorem ends_stepOperand (step : Step) (runner : World.Runner σ) (world : World σ) :
    (evalWith call scope bindings (stepOperand step)).Ends runner world
      (.ok (.number step.amount)) world := by
  cases step with
  | up => exact .pure _ world
  | down => exact .bind (.pure _ world) fun _ => rfl

theorem exists_ends_writePlace (place : Place) (value : Value) (runner : World.Runner σ)
    (world : World σ) :
    ∃ result after, (writePlace scope place value).Ends runner world result after := by
  have refused (fault : EvalFault) : (Value.evalFail fault : TaskM σ Unit).Ends runner world
      (.error (.eval fault)) world := .ofExcept _ world
  have container (id : ContainerId) (key : Key) :
      ∃ result after, (Value.writeContainer id key value).Ends runner world result after := by
    cases written : world.write runner id key value with
    | mk result after =>
        have tries : (TaskM.tryWrite id key value).Ends runner world (.ok result) after := by
          intro next
          simp only [TaskM.tryWrite, World.interpret, written]
        cases result with
        | ok done => exact ⟨_, after, tries.bind (.pure () after)⟩
        | error fault => exact ⟨_, after, tries.bind (.ofExcept (.error _) after)⟩
  cases place with
  | binding name =>
      unfold writePlace
      cases scope.data with
      | some data => exact container data _
      | none => exact ⟨_, world, refused _⟩
  | property base key =>
      cases base with
      | container id => exact container id key
      | undefined => exact ⟨_, world, refused _⟩
      | null => exact ⟨_, world, refused _⟩
      | _ => exact ⟨_, world, .pure () world⟩

section Expansion

variable {target : Expr} (reading : target.isReading = true)

include reading

/-- A compound assignment does what the assignment of its operation does. -/
theorem compound_agrees (op : BinaryOp) (value : Expr) :
    (evalWith call scope bindings (.assign (.compound op) target value)).Agrees
      (evalWith call scope bindings (.assign .set target (.binary op target value))) := by
  intro runner world next
  obtain ⟨result, reads, consults⟩ :=
    onlyReads_evalPlace call scope bindings target reading world.store.heap
  have found := consults runner world rfl
  have again := consults.again runner rfl
  simp only [evalWith]
  cases result with
  | error fault => rw [found.interpret_bind_error, found.interpret_bind_error]
  | ok place =>
      rw [found.interpret_bind, found.interpret_bind, evalWith_of_place call scope bindings found]
      simp only [bind_assoc]
      rw [again.interpret_bind]

/-- An update fails as the assignment of its sum does, or it reads a number, and writes the sum as that
assignment does. -/
theorem update_ends (step : Step) (runner : World.Runner σ) (world : World σ) :
    (∃ fault after,
      (∀ before, (evalWith call scope bindings (.update step before target)).Ends runner world
        (.error fault) after) ∧
      (evalWith call scope bindings (updateSum step target)).Ends runner world (.error fault) after) ∨
    ∃ old between after,
      (evalWith call scope bindings (.unary .plus target)).Ends runner world (.ok (.number old)) between ∧
      (∀ before, (evalWith call scope bindings (.update step before target)).Ends runner world
        (.ok (.number (if before then old + step.amount else old))) after) ∧
      (evalWith call scope bindings (updateSum step target)).Ends runner world
        (.ok (.number (old + step.amount))) after := by
  obtain ⟨result, reads, consults⟩ :=
    onlyReads_evalPlace call scope bindings target reading world.store.heap
  have found := consults runner world rfl
  have again := consults.again runner rfl
  simp only [evalWith, updateSum]
  cases result with
  | error fault => exact .inl ⟨fault, _, fun before => found.bind_error, found.bind_error⟩
  | ok place =>
      rw [evalWith_of_place call scope bindings found]
      generalize world.mapStore (fun store => store.track reads) = reached at found again
      obtain ⟨current, more, looks⟩ := onlyReads_readPlace scope bindings place reached.store.heap
      have read := looks runner reached rfl
      generalize reached.mapStore (fun store => store.track more) = seen at read
      cases current with
      | error fault =>
          exact .inl ⟨fault, seen, fun before => found.bind read.bind_error,
            found.bind (.bind_error (.bind_error (.bind_error (again.bind read))))⟩
      | ok current =>
          let numbered := (seen.store.heap.toNumber current).run #[]
          let counted := seen.mapStore fun store => store.track numbered.2
          have number : (TaskM.watch fun heap => heap.toNumber current).Ends runner seen
              (.ok numbered.1) counted := fun _ => rfl
          have plus : (TaskM.watch fun heap => heap.unary .plus current).Ends runner seen
              (.ok (.number numbered.1)) counted := fun _ => rfl
          have sum : (TaskM.watch fun heap => heap.binary .add (.number numbered.1)
              (.number step.amount)).Ends runner counted
                (.ok (.number (numbered.1 + step.amount))) counted := fun _ => rfl
          have operand := ends_stepOperand call scope bindings step runner counted
          obtain ⟨outcome, after, writes⟩ :=
            exists_ends_writePlace scope place (.number (numbered.1 + step.amount)) runner counted
          cases outcome with
          | error fault =>
              exact .inl ⟨fault, after, fun before => found.bind (read.bind (number.bind writes.bind_error)),
                found.bind (.bind (.bind (.bind (again.bind read) plus) (operand.bind sum))
                  writes.bind_error)⟩
          | ok done =>
              exact .inr ⟨numbered.1, counted, after, (found.bind read).bind plus,
                fun before => found.bind (read.bind (number.bind (writes.bind (.pure _ after)))),
                found.bind (.bind (.bind (.bind (again.bind read) plus) (operand.bind sum))
                  (writes.bind (.pure _ after)))⟩

/-- A compound assignment to a target that only reads is the assignment of its operation, and an update
is the assignment of a sum to it.  An update whose operator stands behind the target ends where the
other one does, with the number that was read there before. -/
theorem short_assignments_expand (op : BinaryOp) (value : Expr) (step : Step) :
    (evalWith call scope bindings (.assign (.compound op) target value)).Agrees
        (evalWith call scope bindings (.assign .set target (.binary op target value))) ∧
      (evalWith call scope bindings (.update step true target)).Agrees
        (evalWith call scope bindings (updateSum step target)) ∧
      ∀ (runner : World.Runner σ) (world : World σ),
        (∃ fault after,
          (evalWith call scope bindings (.update step true target)).Ends runner world
            (.error fault) after ∧
          (evalWith call scope bindings (.update step false target)).Ends runner world
            (.error fault) after) ∨
        ∃ old between after,
          (evalWith call scope bindings (.unary .plus target)).Ends runner world
            (.ok (.number old)) between ∧
          (evalWith call scope bindings (.update step true target)).Ends runner world
            (.ok (.number (old + step.amount))) after ∧
          (evalWith call scope bindings (.update step false target)).Ends runner world
            (.ok (.number old)) after := by
  refine ⟨compound_agrees call scope bindings reading op value, fun runner world next => ?_,
    fun runner world => ?_⟩
  · rcases update_ends call scope bindings reading step runner world with
      ⟨fault, after, fails, failsSum⟩ | ⟨old, between, after, -, ends, endsSum⟩
    · exact (fails true next).trans (failsSum next).symm
    · exact (ends true next).trans (endsSum next).symm
  · rcases update_ends call scope bindings reading step runner world with
      ⟨fault, after, fails, -⟩ | ⟨old, between, after, plus, ends, -⟩
    · exact .inl ⟨fault, after, fails true, fails false⟩
    · exact .inr ⟨old, between, after, plus, ends true, ends false⟩

end Expansion

end Evaluation

/-- The cell behind the current one. -/
def nextCell : Expr := .index (.ident "cells") (.binary .add (.ident "row") (.literal (.number 1)))

theorem nextCell_assignments_expand :
    let world := ((World.blank .default ()).exec (TaskM.make (.data ⟨0⟩ (.object
      [("cells", .array [.integer 5, .integer 7]), ("row", .integer 0)])))).2
    let evaluates (expr : Expr) := world.exec (Expr.eval ⟨⟨0⟩, some ⟨1⟩⟩ .empty expr)
    evaluates (.assign (.compound .mul) nextCell (.ident "row")) =
        evaluates (.assign .set nextCell (.binary .mul nextCell (.ident "row"))) ∧
      evaluates (.update .down true nextCell) =
        evaluates (.assign .set nextCell
          (.binary .add (.unary .plus nextCell) (.unary .neg (.literal (.number 1))))) := by
  have expands := short_assignments_expand (callFunction (σ := Unit) callDepthLimit)
    ⟨⟨0⟩, some ⟨1⟩⟩ .empty (show nextCell.isReading = true from rfl) .mul (.ident "row") .down
  exact ⟨expands.1 _ _ Task.done, expands.2.1 _ _ Task.done⟩

end Expr

end LiveMarkup
