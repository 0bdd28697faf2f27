import LiveMarkup.Proofs.Reactive.History

/-!
# Where a computation ends in a history

A computation is given what comes after it, so in a history there is no mark where it ends.  Still
every history of a computation divides: at some point the computation has an outcome, and what comes
after it begins there.  This is so for each request, and binding keeps it so.
-/

namespace LiveMarkup

namespace Point

variable {σ : Type} {point next callee : Point σ} {passed : List (Point σ)}
  {result : Except Fault Value} {after : World σ}

theorem Runs.goes_on (runs : point.Runs passed result after) (goes : point.Goes next) :
    ∃ rest, next.Runs rest result after := by
  cases runs with
  | ends ends => exact absurd goes ends.not_goes
  | goes went later =>
      obtain rfl := goes.unique went
      exact ⟨_, later⟩
  | calls calls _ _ => exact absurd calls goes.not_calls

theorem Runs.calls_on {resume : Except Fault Value → World σ → Point σ}
    (runs : point.Runs passed result after) (calls : point.Calls callee resume) :
    ∃ inside outcome between rest, callee.Runs inside outcome between ∧
      (resume outcome between).Runs rest result after := by
  cases runs with
  | ends ends => exact absurd calls ends.not_calls
  | goes went _ => exact absurd calls went.not_calls
  | calls called inside later =>
      obtain ⟨rfl, rfl⟩ := calls.unique called
      exact ⟨_, _, _, _, inside, later⟩

end Point

namespace TaskM

variable {σ α β : Type} {frames : List Frame} {world between after : World σ}
  {computation : TaskM σ α} {outcome : Except Fault α}

/-! ## The end of a computation -/

/-- Whether a computation that begins in a world has an outcome in another one: the history of
whatever comes after it is the end of the history of both. -/
def Leads (frames : List Frame) (computation : TaskM σ α) (world : World σ)
    (outcome : Except Fault α) (after : World σ) : Prop :=
  ∀ (next : Except Fault α → Task σ) {passed : List (Point σ)} {result : Except Fault Value}
    {last : World σ}, Point.Runs ⟨frames, .task (next outcome), after⟩ passed result last →
      ∃ inside, Point.Runs ⟨frames, .task (computation next), world⟩ (inside ++ passed) result last

/-- A computation has one outcome in one world. -/
theorem Leads.unique {other : Except Fault α} {otherAfter : World σ}
    (leads : computation.Leads frames world outcome after)
    (again : computation.Leads frames world other otherAfter) :
    other = outcome ∧ otherAfter = after := by
  classical
  let next (found : Except Fault α) : Task σ :=
    .done (.ok (if found = outcome then .undefined else .null))
  obtain ⟨_, runs⟩ := leads next (.ends .done)
  obtain ⟨_, runsAgain⟩ := again next (.ends .done)
  obtain ⟨-, result, world⟩ := runs.unique runsAgain
  refine ⟨Classical.byContradiction fun differs => ?_, world⟩
  simp [differs] at result

theorem Leads.ofExcept (outcome : Except Fault α) (frames : List Frame) (world : World σ) :
    (ofExcept outcome).Leads frames world outcome world :=
  fun _ _ _ _ runs => ⟨[], runs⟩

/-- A request that is answered at once. -/
theorem Leads.of_goes (goes : ∀ next, Point.Goes ⟨frames, .task (computation next), world⟩
      ⟨frames, .task (next outcome), after⟩) : computation.Leads frames world outcome after :=
  fun next _ _ _ runs => ⟨[_], .goes (goes next) runs⟩

/-- A request that is answered after a run of its own. -/
theorem Leads.of_calls {callee : Point σ} (answer : Except Fault Value → Except Fault α)
    (leave : World σ → World σ)
    (calls : ∀ next, Point.Calls ⟨frames, .task (computation next), world⟩ callee
      fun result between => ⟨frames, .task (next (answer result)), leave between⟩)
    {inside : List (Point σ)} {result : Except Fault Value}
    (called : callee.Runs inside result between) :
    computation.Leads frames world (answer result) (leave between) :=
  fun next _ _ _ runs => ⟨_ :: inside, .calls (calls next) called runs⟩

theorem Leads.bind {next : α → TaskM σ β} {a : α} {last : Except Fault β}
    (leads : computation.Leads frames world (.ok a) between)
    (later : (next a).Leads frames between last after) :
    (computation >>= next).Leads frames world last after := by
  intro finish passed result final runs
  obtain ⟨inside, runs⟩ := later finish runs
  have whole : ∃ before, Point.Runs ⟨frames, .task ((computation >>= next) finish), world⟩
      (before ++ (inside ++ passed)) result final := leads _ runs
  obtain ⟨before, runs⟩ := whole
  exact ⟨before ++ inside, List.append_assoc _ _ _ ▸ runs⟩

theorem Leads.bind_error {next : α → TaskM σ β} {fault : Fault}
    (leads : computation.Leads frames world (.error fault) after) :
    (computation >>= next).Leads frames world (.error fault) after :=
  fun _ _ _ _ runs => leads _ runs

theorem Leads.attempt (leads : computation.Leads frames world outcome after) :
    (attempt computation).Leads frames world (.ok outcome) after :=
  fun _ _ _ _ runs => leads _ runs

/-! ## Computations that end in every history -/

/-- Whether in every history of a computation with what comes after it, the computation has an
outcome, and yields something good if that is not a fault. -/
def Divides (computation : TaskM σ α) (good : α → Prop) : Prop :=
  ∀ (frames : List Frame) (world : World σ) (next : Except Fault α → Task σ)
    {passed : List (Point σ)} {result : Except Fault Value} {last : World σ},
    Point.Runs ⟨frames, .task (computation next), world⟩ passed result last →
      ∃ outcome after rest, computation.Leads frames world outcome after ∧
        (∀ a, outcome = .ok a → good a) ∧
        Point.Runs ⟨frames, .task (next outcome), after⟩ rest result last

variable {good better : α → Prop} {goodNext : β → Prop}

theorem divides_ofExcept (holds : ∀ a, outcome = .ok a → good a) :
    (ofExcept outcome : TaskM σ α).Divides good :=
  fun _ _ _ _ _ _ runs => ⟨outcome, _, _, .ofExcept outcome _ _, holds, runs⟩

theorem divides_pure {a : α} (holds : good a) : (Pure.pure a : TaskM σ α).Divides good :=
  divides_ofExcept fun _ same => Except.ok.inj same ▸ holds

theorem divides_fail (fault : Fault) : (fail fault : TaskM σ α).Divides good :=
  divides_ofExcept fun _ same => by cases same

theorem Divides.imp (divides : computation.Divides good) (implies : ∀ a, good a → better a) :
    computation.Divides better := by
  intro frames world next passed result last runs
  obtain ⟨outcome, after, rest, leads, holds, runs⟩ := divides _ _ _ runs
  exact ⟨outcome, after, rest, leads, fun a same => implies a (holds a same), runs⟩

theorem Divides.bind {next : α → TaskM σ β} (divides : computation.Divides good)
    (later : ∀ a, good a → (next a).Divides goodNext) :
    (computation >>= next).Divides goodNext := by
  intro frames world finish passed result last runs
  obtain ⟨outcome, between, rest, leads, holds, runs⟩ := divides _ _ _ runs
  cases outcome with
  | error fault =>
      have none (b : β) (same : Except.error fault = .ok b) : goodNext b := by cases same
      exact ⟨.error fault, between, rest, leads.bind_error, none, runs⟩
  | ok a =>
      obtain ⟨outcome, after, rest, leadsLater, holds, runs⟩ := later a (holds a rfl) _ _ _ runs
      exact ⟨outcome, after, rest, leads.bind leadsLater, holds, runs⟩

theorem Divides.attempt (divides : computation.Divides good) :
    (attempt computation).Divides fun outcome => ∀ a, outcome = .ok a → good a := by
  intro frames world next passed result last runs
  obtain ⟨outcome, after, rest, leads, holds, runs⟩ := divides _ _ _ runs
  exact ⟨.ok outcome, after, rest, leads.attempt, fun _ same => Except.ok.inj same ▸ holds, runs⟩

/-! ## Requests -/

section Requests

variable {next : Except Fault α → Task σ} {passed : List (Point σ)} {result : Except Fault Value}
  {last : World σ}

theorem divides_of_goes (goes : ∀ next, Point.Goes ⟨frames, .task (computation next), world⟩
      ⟨frames, .task (next outcome), after⟩) (holds : ∀ a, outcome = .ok a → good a)
    (runs : Point.Runs ⟨frames, .task (computation next), world⟩ passed result last) :
    ∃ outcome after rest, computation.Leads frames world outcome after ∧
      (∀ a, outcome = .ok a → good a) ∧
      Point.Runs ⟨frames, .task (next outcome), after⟩ rest result last := by
  obtain ⟨rest, later⟩ := runs.goes_on (goes next)
  exact ⟨outcome, after, rest, .of_goes goes, holds, later⟩

theorem divides_of_calls {callee : Point σ} (answer : Except Fault Value → Except Fault α)
    (leave : World σ → World σ)
    (calls : ∀ next, Point.Calls ⟨frames, .task (computation next), world⟩ callee
      fun result between => ⟨frames, .task (next (answer result)), leave between⟩)
    (runs : Point.Runs ⟨frames, .task (computation next), world⟩ passed result last) :
    ∃ outcome after rest, computation.Leads frames world outcome after ∧
      (∀ a, outcome = .ok a → True) ∧
      Point.Runs ⟨frames, .task (next outcome), after⟩ rest result last := by
  obtain ⟨inside, outcome, between, rest, called, later⟩ := runs.calls_on (calls next)
  exact ⟨_, _, rest, .of_calls answer leave calls called, fun _ _ => trivial, later⟩

end Requests

theorem divides_look {observe : Heap → α} (holds : ∀ heap, good (observe heap)) :
    (look observe : TaskM σ α).Divides good :=
  fun _ world _ _ _ _ runs => divides_of_goes (fun _ => .look)
    (fun _ same => Except.ok.inj same ▸ holds world.store.heap) runs

theorem divides_has (target : ContainerId) (key : Key) :
    (has target key : TaskM σ Bool).Divides fun _ => True :=
  fun _ _ _ _ _ _ runs => divides_of_goes (fun _ => .has) (fun _ _ => trivial) runs

/-- The heap is looked at, and then the reads are counted. -/
theorem divides_watch {computation : Heap → Watch α}
    (holds : ∀ heap, good ((computation heap).run #[]).1) :
    (watch computation : TaskM σ α).Divides good := by
  intro frames world next passed result last runs
  let answer := (computation world.store.heap).run #[]
  have leads : (watch computation : TaskM σ α).Leads frames world (.ok answer.1)
      (world.mapStore fun store => store.track answer.2) :=
    fun _ _ _ _ runs => ⟨[_, _], .goes .look (.goes .track runs)⟩
  obtain ⟨_, counting⟩ := runs.goes_on .look
  obtain ⟨rest, later⟩ := counting.goes_on .track
  exact ⟨_, _, rest, leads, fun _ same => Except.ok.inj same ▸ holds world.store.heap, later⟩

theorem divides_make (request : Request) : (make request : TaskM σ Value).Divides fun _ => True :=
  fun _ _ _ _ _ _ runs => divides_of_goes (fun _ => .make) (fun _ _ => trivial) runs

theorem divides_tryWrite (target : ContainerId) (key : Key) (value : Value) :
    (tryWrite target key value : TaskM σ _).Divides fun _ => True := by
  intro frames world next passed result last runs
  cases stored : world.store.put target key value with
  | mk outcome store =>
  cases outcome with
  | error fault => exact divides_of_goes (fun _ => .refuse stored) (fun _ _ => trivial) runs
  | ok changed =>
      exact divides_of_calls (fun _ => .ok (.ok ())) id (fun _ => .write stored) runs

theorem divides_pop (target : ContainerId) :
    (pop target : TaskM σ Value).Divides fun _ => True := by
  intro frames world next passed result last runs
  exact divides_of_calls (fun _ => .ok (world.store.takeLast target).1) id (fun _ => .pop) runs

theorem divides_define (body : TaskM σ Value) : (define body).Divides fun _ => True :=
  fun _ _ _ _ _ _ runs => divides_of_goes (fun _ => .define) (fun _ _ => trivial) runs

theorem divides_tryRun (tracker : TrackerId) (effect : EffectId) :
    (tryRun tracker effect : TaskM σ _).Divides fun _ => True := by
  intro frames world next passed result last runs
  exact divides_of_calls (fun outcome => .ok (outcome.map fun _ => ())) id (fun _ => .run) runs

theorem divides_report (tracker : TrackerId) (fault : Fault) :
    (report tracker fault : TaskM σ Unit).Divides fun _ => True :=
  fun _ _ _ _ _ _ runs => divides_of_goes (fun _ => .report) (fun _ _ => trivial) runs

theorem divides_survey (observe : σ → α) :
    (survey observe : TaskM σ α).Divides fun _ => True :=
  fun _ _ _ _ _ _ runs => divides_of_goes (fun _ => .survey) (fun _ _ => trivial) runs

theorem divides_alter (change : σ → σ) : (alter change : TaskM σ Unit).Divides fun _ => True :=
  fun _ _ _ _ _ _ runs => divides_of_goes (fun _ => .alter) (fun _ _ => trivial) runs

theorem divides_createEffect (tracker : TrackerId) (body : TaskM σ Value) :
    (createEffect tracker body).Divides fun _ => True := by
  refine (divides_define body).bind fun effect _ => ?_
  refine (divides_tryRun tracker effect).bind fun result _ => ?_
  cases result with
  | ok done => exact divides_pure trivial
  | error fault => exact (divides_report tracker fault).bind fun _ _ => divides_pure trivial

/-! ## Computations that do not fail -/

/-- Whether a computation comes without a fault: it does not matter what would come after one. -/
def Succeeds (computation : TaskM σ α) : Prop :=
  ∀ next other : Except Fault α → Task σ, (∀ a, next (.ok a) = other (.ok a)) →
    computation next = computation other

theorem succeeds_pure (a : α) : (Pure.pure a : TaskM σ α).Succeeds := fun _ _ same => same a

theorem Succeeds.bind {next : α → TaskM σ β} (succeeds : computation.Succeeds)
    (later : ∀ a, (next a).Succeeds) : (computation >>= next).Succeeds :=
  fun _ _ same => succeeds _ _ fun a => later a _ _ same

/-- Whoever looks at the fault of a computation goes on without it. -/
theorem succeeds_attempt (computation : TaskM σ α) : (attempt computation).Succeeds :=
  fun _ _ same => congrArg computation (funext fun outcome => same outcome)

theorem succeeds_report (tracker : TrackerId) (fault : Fault) :
    (report tracker fault : TaskM σ Unit).Succeeds :=
  fun _ _ same => congrArg (Task.report tracker fault) (same ())

theorem succeeds_survey (observe : σ → α) : (survey observe : TaskM σ α).Succeeds :=
  fun _ _ same => congrArg Task.survey (funext fun _ => same _)

/-- Of two ways to go on that differ in a fault only, the history is the same. -/
theorem Succeeds.of_leads (succeeds : computation.Succeeds)
    (leads : computation.Leads frames world outcome after) : ∃ a, outcome = .ok a := by
  cases outcome with
  | ok a => exact ⟨a, rfl⟩
  | error fault =>
      let next (value : Value) (outcome : Except Fault α) : Task σ :=
        .done (.ok (outcome.toOption.elim value fun _ => .undefined))
      have same := succeeds (next .undefined) (next .null) fun _ => rfl
      obtain ⟨_, runs⟩ := leads (next .undefined) (.ends .done)
      obtain ⟨_, other⟩ := leads (next .null) (.ends .done)
      rw [same] at runs
      obtain ⟨-, result, -⟩ := runs.unique other
      cases result

end TaskM

/-! ## What comes after a point -/

namespace Point

variable {σ : Type} {point : Point σ} {passed : List (Point σ)} {result : Except Fault Value}
  {after : World σ}

/-- The points that are passed from a point on: its own run, and then the runs of those that wait
for it, the next one first, each of which goes on with the outcome of the one before it. -/
inductive Onward : Point σ → List (Except Fault Value → World σ → Point σ) → List (Point σ) →
    Except Fault Value → World σ → Prop
  /-- Nobody waits. -/
  | last {point : Point σ} {passed : List (Point σ)} {result : Except Fault Value} {after : World σ}
      (runs : point.Runs passed result after) : Onward point [] passed result after
  /-- The next one goes on. -/
  | back {point : Point σ} {resume : Except Fault Value → World σ → Point σ}
      {waiting : List (Except Fault Value → World σ → Point σ)} {passed later : List (Point σ)}
      {outcome result : Except Fault Value} {between after : World σ}
      (runs : point.Runs passed outcome between)
      (onward : Onward (resume outcome between) waiting later result after) :
      Onward point (resume :: waiting) (passed ++ later) result after

theorem Onward.runs {waiting : List (Except Fault Value → World σ → Point σ)}
    (onward : point.Onward waiting passed result after) :
    ∃ inside outcome between, point.Runs inside outcome between := by
  cases onward with
  | last runs => exact ⟨_, _, _, runs⟩
  | back runs _ => exact ⟨_, _, _, runs⟩

/-- One more that waits for all others. -/
theorem Onward.append {waiting : List (Except Fault Value → World σ → Point σ)}
    {resume : Except Fault Value → World σ → Point σ} {later : List (Point σ)}
    {outcome : Except Fault Value} {between : World σ}
    (onward : point.Onward waiting passed outcome between)
    (runs : (resume outcome between).Runs later result after) :
    point.Onward (waiting ++ [resume]) (passed ++ later) result after := by
  induction onward with
  | last first => exact .back first (.last runs)
  | back first _ ih =>
      rw [List.append_assoc]
      exact .back first (ih runs)

/-- Nobody waits at the beginning of a history. -/
theorem Runs.onward_first (runs : point.Runs passed result after) {inner : Point σ}
    {later : List (Point σ)} (split : passed = inner :: later) :
    inner.Onward [] (inner :: later) result after := by
  obtain ⟨rest, rfl⟩ := runs.eq_cons
  obtain ⟨rfl, rfl⟩ := List.cons.inj split
  exact .last runs

/-- At every point of a history some callers wait, and the rest of the history is what is passed
from the point on. -/
theorem Runs.onward (runs : point.Runs passed result after) :
    ∀ before inner later, passed = before ++ inner :: later →
      ∃ waiting, inner.Onward waiting (inner :: later) result after ∧
        ∀ resume ∈ waiting, ∃ caller ∈ before, ∃ callee, caller.Calls callee resume := by
  induction runs with
  | ends ends =>
      intro before inner later split
      cases before with
      | nil => exact ⟨[], onward_first (.ends ends) split, by simp⟩
      | cons first before => simp at split
  | goes goes runs ih =>
      intro before inner later split
      cases before with
      | nil => exact ⟨[], onward_first (.goes goes runs) split, by simp⟩
      | cons _ before =>
          obtain ⟨rfl, tail⟩ := List.cons.inj split
          obtain ⟨waiting, onward, pending⟩ := ih before inner later tail
          refine ⟨waiting, onward, fun resume member => ?_⟩
          obtain ⟨caller, passed, called⟩ := pending resume member
          exact ⟨caller, List.mem_cons_of_mem _ passed, called⟩
  | @calls point callee resume inside passed outcome result between after calls called runs ihCalled
      ihLater =>
      intro before inner later split
      cases before with
      | nil => exact ⟨[], onward_first (.calls calls called runs) split, by simp⟩
      | cons _ before =>
          obtain ⟨rfl, tail⟩ := List.cons.inj split
          rcases List.append_eq_append_iff.mp tail with ⟨middle, rfl, rest⟩ | ⟨middle, same, rest⟩
          · -- The point is passed after the call.
            obtain ⟨waiting, onward, pending⟩ := ihLater middle inner later rest
            refine ⟨waiting, onward, fun resume member => ?_⟩
            obtain ⟨caller, passed, called⟩ := pending resume member
            exact ⟨caller, List.mem_cons_of_mem _ (List.mem_append_right _ passed), called⟩
          · cases middle with
            | nil =>
                -- It is the first one after the call.
                obtain ⟨waiting, onward, pending⟩ := ihLater [] inner later rest.symm
                exact ⟨waiting, onward, fun resume member => by
                  obtain ⟨caller, none, _⟩ := pending resume member
                  exact absurd none List.not_mem_nil⟩
            | cons first inner =>
                -- The point is passed inside the call.
                obtain ⟨rfl, rfl⟩ := List.cons.inj rest
                obtain ⟨waiting, onward, pending⟩ := ihCalled before _ _ same
                refine ⟨waiting ++ [resume], onward.append runs, fun other member => ?_⟩
                rcases List.mem_append.mp member with old | new
                · obtain ⟨caller, passed, called⟩ := pending other old
                  exact ⟨caller, List.mem_cons_of_mem _ passed, called⟩
                · obtain rfl := List.mem_singleton.mp new
                  exact ⟨_, List.mem_cons_self, callee, calls⟩

/-- Every point of a history has a run of its own. -/
theorem Runs.of_mem (runs : point.Runs passed result after) {inner : Point σ}
    (member : inner ∈ passed) :
    ∃ inside outcome between, inner.Runs inside outcome between := by
  obtain ⟨before, later, split⟩ := List.append_of_mem member
  obtain ⟨_, onward, -⟩ := runs.onward before inner later split
  exact onward.runs

theorem Onward.of_mem {waiting : List (Except Fault Value → World σ → Point σ)}
    (onward : point.Onward waiting passed result after) {inner : Point σ}
    (member : inner ∈ passed) :
    ∃ inside outcome between, inner.Runs inside outcome between := by
  induction onward with
  | last runs => exact runs.of_mem member
  | back runs _ ih => exact (List.mem_append.mp member).elim runs.of_mem ih

theorem Onward.goes_on {waiting : List (Except Fault Value → World σ → Point σ)} {next : Point σ}
    (onward : point.Onward waiting passed result after) (goes : point.Goes next) :
    ∃ rest, passed = point :: rest ∧ next.Onward waiting rest result after := by
  have first {passed : List (Point σ)} {result : Except Fault Value} {after : World σ}
      (runs : point.Runs passed result after) :
      ∃ rest, passed = point :: rest ∧ next.Runs rest result after := by
    obtain ⟨rest, later⟩ := runs.goes_on goes
    exact ⟨rest, (Runs.goes goes later).unique runs |>.1, later⟩
  cases onward with
  | last runs =>
      obtain ⟨rest, passed, later⟩ := first runs
      exact ⟨rest, passed, .last later⟩
  | back runs onward =>
      obtain ⟨rest, rfl, later⟩ := first runs
      exact ⟨_, rfl, .back later onward⟩

/-- A call is passed next. -/
theorem Onward.callee_mem {waiting : List (Except Fault Value → World σ → Point σ)}
    {callee : Point σ} {resume : Except Fault Value → World σ → Point σ}
    (onward : point.Onward waiting passed result after) (calls : point.Calls callee resume) :
    callee ∈ passed := by
  have here {passed : List (Point σ)} {result : Except Fault Value} {after : World σ}
      (runs : point.Runs passed result after) : callee ∈ passed := by
    obtain ⟨inside, _, _, _, called, later⟩ := runs.calls_on calls
    obtain ⟨_, rfl⟩ := called.eq_cons
    rw [((Runs.calls calls called later).unique runs).1]
    exact List.mem_cons_of_mem _ List.mem_cons_self
  cases onward with
  | last runs => exact here runs
  | back runs _ => exact List.mem_append_left _ (here runs)

end Point

end LiveMarkup
