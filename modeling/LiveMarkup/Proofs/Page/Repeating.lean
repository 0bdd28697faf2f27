import LiveMarkup.Proofs.Page.Casting
import LiveMarkup.Proofs.Reactive.Territory

/-!
# A repeat always shows its list

Once a `for` directive is bound, every run of its effect leaves a copy of the template for every
item of its list in the host, and nothing else, whatever the runs before it and the code in between
have done, as long as nobody else touches the children of the host or the template.
-/

namespace LiveMarkup

namespace Casting

open World

variable {casting : Casting} {inventory : Inventory} {row : List Child} {point : Point Page}
  {passed : List (Point Page)} {result : Except Fault Value} {after : World Page}

/-! ## Runs of the effect in a history -/

/-- The row and the template are intact in the end, and so they are where a run of the effect
begins. -/
theorem tends_at_attempts (runs : point.Runs passed result after)
    (tended : point.Tended casting.tender inventory row) :
    (∃ more shown, inventory.Le more ∧ casting.tender.Tends more shown after) ∧
      ∀ frames world, ⟨frames, .attempt casting.binder.tracker casting.effect, world⟩ ∈ passed →
        world.refusal? casting.binder.tracker casting.effect = none →
        ∃ more shown, casting.tender.Tends more shown world := by
  induction runs generalizing inventory row with
  | @ends point _ _ ends =>
      refine ⟨⟨inventory, row, .refl inventory, ends.world_eq ▸ tended.world⟩, ?_⟩
      intro frames world member free
      obtain rfl := List.mem_singleton.mp member
      exact ⟨inventory, row, tended.world⟩
  | goes goes _ ih =>
      obtain ⟨more, le, next⟩ := tended.goes goes
      obtain ⟨⟨most, shown, later, tends⟩, attempts⟩ := ih next
      refine ⟨⟨most, shown, le.trans later, tends⟩, fun frames world member free => ?_⟩
      rcases List.mem_cons.mp member with rfl | inside
      · exact ⟨inventory, row, tended.world⟩
      · exact attempts frames world inside free
  | @calls point callee resume inside passed outcome result between after calls called later
      ihCalled ihLater =>
      -- What the call leaves, and the runs of the effect that begin in it.
      have within : (∃ more shown, inventory.Le more ∧ casting.tender.Tends more shown between) ∧
          ∀ frames world, ⟨frames, .attempt casting.binder.tracker casting.effect, world⟩ ∈ inside →
            world.refusal? casting.binder.tracker casting.effect = none →
            ∃ more shown, casting.tender.Tends more shown world := by
        by_cases own : ∃ tracker, point.work = .attempt tracker casting.effect
        · obtain ⟨tracker, same⟩ := own
          cases calls with
          | begin free =>
              obtain ⟨rfl, rfl⟩ := Work.attempt.inj same
              obtain rfl := tended.work rfl
              obtain ⟨begun, busy⟩ := tends_begin tended.world free
              obtain ⟨copies, more, -, le, filled⟩ := fills begun busy called
              refine ⟨⟨more, copies, le, filled⟩, fun frames world member free => ?_⟩
              exact absurd free (called.busy busy _ member).refused
          | _ => cases same
        · exact ihCalled (tended.calls calls fun tracker same => own ⟨tracker, same⟩)
      obtain ⟨⟨more, shown, le, last⟩, attempts⟩ := within
      have onward := calls.heeded tended.work outcome between more shown le last
      obtain ⟨⟨most, final, enough, tends⟩, attemptsLater⟩ := ihLater onward
      refine ⟨⟨most, final, le.trans enough, tends⟩, fun frames world member free => ?_⟩
      rcases List.mem_cons.mp member with rfl | member
      · exact ⟨inventory, row, tended.world⟩
      · rcases List.mem_append.mp member with inside | beyond
        · exact attempts frames world inside free
        · exact attemptsLater frames world beyond free

/-- So it is when those who wait for a run go on. -/
theorem tends_at_later_attempts {waiting : List (Except Fault Value → World Page → Point Page)}
    (onward : point.Onward waiting passed result after)
    (tended : point.Tended casting.tender inventory row)
    (heeded : ∀ resume ∈ waiting, casting.tender.HeededBy inventory resume) {frames : List Frame}
    {world : World Page}
    (member : ⟨frames, .attempt casting.binder.tracker casting.effect, world⟩ ∈ passed)
    (free : world.refusal? casting.binder.tracker casting.effect = none) :
    ∃ more shown, casting.tender.Tends more shown world := by
  induction onward generalizing inventory row with
  | last runs => exact (tends_at_attempts runs tended).2 frames world member free
  | @back _ resume _ _ _ outcome _ between _ runs _ ih =>
      obtain ⟨⟨more, shown, le, last⟩, attempts⟩ := tends_at_attempts runs tended
      rcases List.mem_append.mp member with inside | later
      · exact attempts frames world inside free
      · refine ih (heeded resume List.mem_cons_self outcome between more shown le last) ?_ later
        intro other waits outcome between most row enough
        exact heeded other (List.mem_cons_of_mem resume waits) outcome between most row
          (le.trans enough)

/-! ## Binding -/

/-- Whether an element with a `for` directive is about to be bound: its first child becomes the
template, and the next effect is the one that fills it. -/
structure Binds (casting : Casting) (directive : Directive) (start : World Page) : Prop where
  /-- The directive names the loop variable and the source. -/
  parts : ∃ text, Directive.splitRepeat directive.expression = .ok (casting.name, text) ∧
    Expr.parse text = .ok casting.source
  /-- The document is a forest. -/
  forest : start.dom.Forest
  /-- The first child of the host is taken as the template. -/
  taken : start.dom.takeFirst casting.mold.host =
    (some casting.mold.template, casting.mold.origin)
  /-- The effect is the next one. -/
  next : casting.effect = ⟨start.bodies.size⟩
  /-- The tracker is there. -/
  tracker : start.store.HasTracker casting.binder.tracker
  /-- The effect is not known to any tracker. -/
  fresh : ∀ id, ¬(start.store.tracker id).Knows casting.effect
  /-- No effect that is there touches the children of the host or the template. -/
  others : ∀ body ∈ start.bodies, ∀ more, casting.mold.inventory.Le more →
    body.Minds casting.tender more

/-- Binds the element with the directive. -/
def bind (casting : Casting) (directive : Directive) : TaskM Page Descent :=
  casting.binder.bindRepeat (casting.binder.bindWithin casting.depth) casting.mold.host directive
    casting.scope casting.bindings

/-- What is done with the first child of the host, if it has one. -/
def take (casting : Casting) : Option Child → TaskM Page Descent
  | none => return .claimed
  | some template => do
      Page.edit fun dom => (dom.takeFirst casting.mold.host).2
      let _ ← TaskM.createEffect casting.binder.tracker
        (Binder.stamp (casting.binder.bindWithin casting.depth) casting.mold.host template
          casting.name casting.source casting.scope casting.bindings)
      return .claimed

/-- What is done after the template has been taken. -/
def create (casting : Casting) : TaskM Page Descent := do
  let _ ← TaskM.createEffect casting.binder.tracker
    (Binder.stamp (casting.binder.bindWithin casting.depth) casting.mold.host
      casting.mold.template casting.name casting.source casting.scope casting.bindings)
  return .claimed

variable {directive : Directive} {start : World Page} {frames : List Frame}
  {next : Except Fault Descent → Task Page}
  {waiting : List (Except Fault Value → World Page → Point Page)}

theorem Binds.onward_create (binds : casting.Binds directive start)
    (onward : Point.Onward ⟨frames, .task (casting.bind directive next), start⟩ waiting passed
      result after) :
    ∃ first second rest,
      passed = ⟨frames, .task first, start⟩ :: ⟨frames, .task second, start⟩ :: rest ∧
      Point.Onward ⟨frames, .task (casting.create next),
        start.editDom fun dom => (dom.takeFirst casting.mold.host).2⟩ waiting rest result
        after := by
  obtain ⟨text, split, parsed⟩ := binds.parts
  have first : (start.dom.takeFirst casting.mold.host).1 = some casting.mold.template :=
    congrArg Prod.fst binds.taken
  have bind : casting.bind directive next =
      .survey fun page => casting.take (page.dom.takeFirst casting.mold.host).1 next := by
    rw [Casting.bind, Binder.bindRepeat, split]
    change (TaskM.ofEval (Expr.parse text) >>= _ : TaskM Page Descent) next = _
    rw [parsed]
    rfl
  rw [bind] at onward
  obtain ⟨_, rfl, surveyed⟩ := onward.goes_on .survey
  change Point.Onward ⟨frames, .task (casting.take (start.dom.takeFirst casting.mold.host).1 next),
    start⟩ _ _ _ _ at surveyed
  rw [first] at surveyed
  obtain ⟨_, rfl, taken⟩ := surveyed.goes_on .alter
  exact ⟨_, _, _, rfl, taken⟩

/-- The world in which the effect is defined. -/
def bound (casting : Casting) (start : World Page) : World Page :=
  ((start.editDom fun dom => (dom.takeFirst casting.mold.host).2).define casting.tender.body).2

/-- When the effect is defined, the host shows what is left of its children. -/
theorem Binds.tends (binds : casting.Binds directive start) :
    casting.tender.Tends casting.mold.inventory
      (casting.mold.origin.face casting.mold.host).children (casting.bound start) where
  page := by
    have origin : (start.dom.takeFirst casting.mold.host).2 = casting.mold.origin :=
      congrArg Prod.snd binds.taken
    change casting.mold.Holds _ _ (start.dom.takeFirst casting.mold.host).2
    rw [origin]
    exact casting.mold.holds_origin
  tracker := binds.tracker
  own := by
    change (start.bodies.push casting.tender.body)[casting.effect.index]? = _
    rw [binds.next, Array.getElem?_push_size]
  others effect body other given := by
    change (start.bodies.push casting.tender.body)[effect.index]? = _ at given
    rw [Array.getElem?_push] at given
    split at given
    next last => exact absurd ((congrArg EffectId.mk last).trans binds.next.symm) other
    next => exact binds.others body (Array.mem_of_getElem? given)
  homes id knows := absurd knows (binds.fresh id)

/-- The template is the tree of the first child. -/
theorem Binds.tree_eq (binds : casting.Binds directive start) :
    casting.tree = start.dom.childTree casting.mold.template := by
  have first : (start.dom.takeFirst casting.mold.host).1 = some casting.mold.template :=
    congrArg Prod.fst binds.taken
  have origin : (start.dom.takeFirst casting.mold.host).2 = casting.mold.origin :=
    congrArg Prod.snd binds.taken
  have known := casting.mold.outer_known _ casting.mold.outer_host
  cases children : (start.dom.face casting.mold.host).children with
  | nil =>
      rw [Dom.takeFirst_of_empty children] at first
      cases first
  | cons child rest =>
      have taken := Dom.takeFirst_eq children
      have same : child = casting.mold.template := by
        rw [taken] at first
        exact Option.some.inj first
      rw [← origin, taken, Dom.size_setParent, Dom.size_modify] at known
      have turns := Dom.Turns.takeFirst binds.forest known children
      rw [tree, ← origin]
      refine turns.childTree_eq binds.forest ?_
      rw [children, same]
      exact List.mem_cons_self

/-- Once the effect is defined, what comes next leaves the host alone. -/
theorem Binds.exists_tended (binds : casting.Binds directive start)
    (minds : ∀ more, casting.mold.inventory.Le more →
      (next (.ok .claimed)).Minds casting.tender more)
    (onward : Point.Onward ⟨frames, .task (casting.bind directive next), start⟩ waiting passed
      result after) :
    ∃ (binding : List (Point Page)) (point : Point Page) (rest : List (Point Page)),
      passed = binding ++ rest ∧ (∀ earlier ∈ binding, ∃ task, earlier.work = .task task) ∧
      point.Onward waiting rest result after ∧
      point.Tended casting.tender casting.mold.inventory
        (casting.mold.origin.face casting.mold.host).children := by
  obtain ⟨first, second, _, rfl, creating⟩ := binds.onward_create onward
  obtain ⟨_, rfl, defined⟩ := creating.goes_on .define
  refine ⟨[_, _, _], _, _, rfl, fun earlier member => ?_, defined, binds.tends, ?_⟩
  · simp only [List.mem_cons, List.not_mem_nil, or_false] at member
    rcases member with rfl | rfl | rfl <;> exact ⟨_, rfl⟩
  · refine ⟨fun _ => rfl, fun more result le => ?_⟩
    cases result with
    | ok done => exact minds more le
    | error fault => exact minds more le

/-- The effect is run as soon as it is defined. -/
theorem Binds.attempted (binds : casting.Binds directive start)
    (onward : Point.Onward ⟨frames, .task (casting.bind directive next), start⟩ waiting passed
      result after) :
    ⟨frames, .attempt casting.binder.tracker casting.effect, casting.bound start⟩ ∈ passed := by
  obtain ⟨first, second, _, rfl, creating⟩ := binds.onward_create onward
  obtain ⟨_, rfl, defined⟩ := creating.goes_on .define
  have called := defined.callee_mem .run
  rw [binds.next]
  exact List.mem_cons_of_mem _ (List.mem_cons_of_mem _ (List.mem_cons_of_mem _ called))

/-! ## Where a binding comes from -/

/-- How the binding of the host goes on after its directives. -/
def closing (casting : Casting) (finish : Except Fault Unit → Task Page) :
    Except Fault Descent → Task Page
  | .ok .claimed => finish (.ok ())
  | .ok .children => .survey fun page =>
      casting.binder.bindChildren (casting.binder.bindWithin casting.depth) casting.scope
        casting.bindings (page.dom.childElements casting.mold.host) finish
  | .error fault => finish (.error fault)

/-- How the binding of the host goes on after its `for` directive, which other attributes follow. -/
@[irreducible]
def afterwards (casting : Casting) (directive : Directive) (others : List (String × String))
    (finish : Except Fault Unit → Task Page) : Except Fault Descent → Task Page :=
  casting.binder.following (casting.binder.bindWithin casting.depth) casting.mold.host casting.scope
    casting.bindings .children directive others (casting.closing finish)

variable {others : List (String × String)} {finish : Except Fault Unit → Task Page}

/-- An element whose first directive is a `for` directive is bound with it first. -/
theorem onward_bind {name value : String}
    (attributes :
      (start.dom.element casting.mold.host).attributes.entries = (name, value) :: others)
    (found : Directive.ofAttribute? casting.binder.attributePrefix name value = some directive)
    (repeats : directive.kind = .repeated)
    (onward : Point.Onward ⟨frames, .task (casting.binder.bindWithin (casting.depth + 1)
      casting.mold.host casting.scope casting.bindings finish), start⟩ waiting passed result
      after) :
    ∃ rest, Point.Onward ⟨frames, .task (casting.bind directive
      (casting.afterwards directive others finish)), start⟩ waiting rest result after := by
  have within : casting.binder.bindWithin (casting.depth + 1) casting.mold.host casting.scope
      casting.bindings finish = .survey fun page => casting.binder.bindDirectives
        (casting.binder.bindWithin casting.depth) casting.mold.host casting.scope casting.bindings
        .children (page.dom.element casting.mold.host).attributes.entries
        (casting.closing finish) := by
    refine congrArg Task.survey (funext fun page => ?_)
    refine congrArg (casting.binder.bindDirectives _ _ _ _ _ _) (funext fun outcome => ?_)
    rcases outcome with fault | descent
    · rfl
    · cases descent <;> rfl
  rw [within] at onward
  obtain ⟨rest, -, surveyed⟩ := onward.goes_on .survey
  change Point.Onward ⟨frames, .task (casting.binder.bindDirectives _ _ _ _ _
    (start.dom.element casting.mold.host).attributes.entries _), start⟩ _ _ _ _ at surveyed
  rw [attributes, Binder.bindDirectives_following found, Binder.bindDirective, repeats] at surveyed
  rw [afterwards]
  exact ⟨rest, surveyed⟩

/-- What follows the `for` directive leaves the host alone, unless another directive changes the
children of the host too. -/
theorem minds_afterwards (known : casting.mold.host.index < inventory.size)
    (harmless : ∀ entry ∈ others, ∀ other,
      Directive.ofAttribute? casting.binder.attributePrefix entry.1 entry.2 = some other →
        other.kind ≠ .text ∧ other.kind ≠ .repeated)
    (closed : ∀ outcome more, inventory.Le more → (finish outcome).Minds casting.tender more) :
    (casting.afterwards directive others finish (.ok .claimed)).Minds casting.tender inventory := by
  rw [afterwards]
  have hosted : casting.tender.mold.host.index < inventory.size := known
  refine minds_following hosted harmless ?_
  intro outcome more le last
  rcases outcome with fault | descent
  · exact closed _ more le
  · cases descent with
    | children => exact absurd rfl last
    | claimed => exact closed _ more le

/-- What runs from the outside has a history. -/
theorem exists_runs {computation : TaskM Page Value} (grounded : start.Grounded)
    (supplied : computation.Grounded start.store.HasTracker start.store.heap.containers.size
      Value.Fits) :
    ∃ passed result after, Point.Runs ⟨[], .task computation.toTask, start⟩ passed result after ∧
      after.Grounded := by
  have begins : Point.Grounded ⟨[], .task computation.toTask, start⟩ := ⟨grounded, supplied.toTask⟩
  obtain ⟨passed, runs⟩ := exec_runs_of_kept Point.grounded_kept begins
  exact ⟨passed, _, _, runs, (Point.grounded_kept.along runs begins).2.1⟩

/-! ## Every run -/

/-- A repeat always shows its list.  However the element has come to be bound and whatever happens
afterwards, as long as nobody else touches its children or the template: a run of its effect that is
not refused ends, and then the element shows what the run has made of an empty element, a copy of
the original first child for every item in order or nothing; and the template is the same as ever.
-/
theorem repeat_shows_list (binds : casting.Binds directive start)
    (minds : ∀ more, casting.mold.inventory.Le more →
      (next (.ok .claimed)).Minds casting.tender more)
    (heeded : ∀ resume ∈ waiting, casting.tender.HeededBy casting.mold.inventory resume)
    (onward : Point.Onward ⟨frames, .task (casting.bind directive next), start⟩ waiting passed
      result after) {within : List Frame} {world : World Page}
    (attempt : ⟨within, .attempt casting.binder.tracker casting.effect, world⟩ ∈ passed)
    (free : world.refusal? casting.binder.tracker casting.effect = none) :
    ∃ inside outcome filled shown copies,
      Point.Runs ⟨within, .attempt casting.binder.tracker casting.effect, world⟩ inside outcome
        shown ∧
      casting.Fills (⟨casting.binder.tracker, some casting.effect⟩ :: within)
        (casting.cleared (world.begin casting.binder.tracker casting.effect)) copies filled ∧
      shown = filled.leave casting.binder.tracker ∧
      (shown.dom.face casting.mold.host).children = copies ∧
      shown.dom.childTree casting.mold.template = casting.tree ∧
      casting.tree = start.dom.childTree casting.mold.template := by
  obtain ⟨binding, point, rest, rfl, early, later, tended⟩ := binds.exists_tended minds onward
  have member : ⟨within, .attempt casting.binder.tracker casting.effect, world⟩ ∈ rest := by
    rcases List.mem_append.mp attempt with before | behind
    · obtain ⟨task, same⟩ := early _ before
      cases same
    · exact behind
  obtain ⟨inventory, row, tends⟩ := tends_at_later_attempts later tended heeded member free
  obtain ⟨inside, outcome, last, runs⟩ := later.of_mem member
  obtain ⟨_, _, filled, _, called, ends⟩ := runs.calls_on (.begin free)
  obtain ⟨-, -, rfl⟩ := Point.Runs.unique (.ends .done) ends
  obtain ⟨begun, busy⟩ := tends_begin tends free
  obtain ⟨copies, more, fills, -, shown⟩ := fills begun busy called
  exact ⟨inside, outcome, filled, _, copies, runs, fills, rfl, shown.page.shows,
    shown.page.template_eq, binds.tree_eq⟩

/-- A list that is shown item by item as long as there is one. -/
def itemList : Tree :=
  .element "ul" ⟨[("a-for", "x in xs"), ("a-show", "xs")]⟩ Assoc.empty
    [.element "li" ⟨[("a-text", "x")]⟩ Assoc.empty []]

/-- The list in a page with an array of two items. -/
def itemWorld : World Page :=
  ((blank .default ⟨((Dom.empty : Dom Handler).build itemList).2, []⟩).exec
    (Operation.array ⟨0⟩ [.number 1, .number 2]).computation).2

theorem itemWorld_forest : itemWorld.dom.Forest :=
  (Dom.Forest.build itemList Dom.empty Dom.empty_forest).1.forest

theorem itemWorld_attained : itemWorld.Attained := by
  refine .run (.start (by simp) _) ⟨by decide, fun item member => ?_⟩
  simp at member
  rcases member with rfl | rfl <;> exact Value.in_of_plain (by simp)

/-- The directive of the list. -/
def itemDirective : Directive := ⟨"for", none, [], "x in xs"⟩

/-- The list as it is bound. -/
def itemCasting : Casting where
  mold := .ofFirst itemWorld_forest (by decide)
    (rfl : (itemWorld.dom.face ⟨0⟩).children = [.element ⟨1⟩])
  binder := .ofConfig ⟨0⟩ .default
  depth := 1
  name := "x"
  source := .ident "xs"
  scope := ⟨⟨0⟩, none⟩
  bindings := Assoc.empty.insert "xs" (.container ⟨0⟩)
  effect := ⟨0⟩

theorem itemCasting_binds : itemCasting.Binds itemDirective itemWorld where
  parts := ⟨"xs", rfl, rfl⟩
  forest := itemWorld_forest
  taken := rfl
  next := rfl
  tracker := by decide
  fresh id := by
    have new : itemWorld.store.tracker id = .new .default := by
      rcases id with ⟨_ | index⟩ <;> rfl
    rw [new]
    exact Tracker.not_knows_new _ _
  others _ member := absurd member (Array.not_mem_empty _)

theorem itemCasting_sees {size : Nat} (some : 0 < size) :
    Expr.Sees itemWorld.store.HasTracker itemCasting.scope itemCasting.bindings size := by
  refine ⟨⟨by decide, fun _ same => by cases same⟩, fun entry member => ?_⟩
  rcases Assoc.mem_put member with old | rfl
  · cases old
  · exact Value.in_container.mpr some

/-- Binds the list. -/
def bindItems : TaskM Page Value := do
  itemCasting.binder.bindWithin (itemCasting.depth + 1) itemCasting.mold.host itemCasting.scope
    itemCasting.bindings
  return .undefined

/-- Evaluates a source where the list is. -/
@[irreducible]
def evaluateItems (source : String) : Task Page :=
  (evaluate source itemCasting.scope itemCasting.bindings).toTask

theorem evaluateItems_minds (source : String) (tender : Tender) (inventory : Inventory) :
    (evaluateItems source).Minds tender inventory := by
  rw [evaluateItems]
  exact (minds_evaluate source _ _).toTask

/-- The list is bound, and some time afterwards a source is evaluated. -/
theorem bindItems_onward (source : String) : ∃ passed result after,
    Point.Onward ⟨[], .task bindItems.toTask, itemWorld⟩
      [fun _ world => ⟨[], .task (evaluateItems source), world⟩] passed result after := by
  have bound : bindItems.Grounded itemWorld.store.HasTracker
      itemWorld.store.heap.containers.size Value.Fits :=
    (Binder.grounded_bindWithin (itemCasting_sees (by decide)) (by decide) _ _).bind fun _ _ _ _ =>
      TaskM.grounded_pure (Value.in_of_plain (by simp))
  obtain ⟨_, _, between, runs, grounded⟩ := exists_runs itemWorld_attained.grounded bound
  have some : 0 < between.store.heap.containers.size :=
    Nat.lt_of_lt_of_le (by decide) runs.extends_.store.heap.size_le
  have sees := itemCasting_sees some
  rw [← runs.extends_.hasTracker] at sees
  obtain ⟨_, _, _, later, -⟩ := exists_runs grounded (grounded_evaluate sees source)
  rw [← evaluateItems] at later
  exact ⟨_, _, _, .back runs (.last later)⟩

theorem itemCasting_shows_list : ∃ inside outcome filled shown copies,
    Point.Runs ⟨[], .attempt itemCasting.binder.tracker itemCasting.effect,
      itemCasting.bound itemWorld⟩ inside outcome shown ∧
    itemCasting.Fills [⟨itemCasting.binder.tracker, some itemCasting.effect⟩]
      (itemCasting.cleared
        ((itemCasting.bound itemWorld).begin itemCasting.binder.tracker itemCasting.effect))
      copies filled ∧
    shown = filled.leave itemCasting.binder.tracker ∧
    (shown.dom.face itemCasting.mold.host).children = copies ∧
    shown.dom.childTree itemCasting.mold.template = itemCasting.tree ∧
    itemCasting.tree = itemWorld.dom.childTree itemCasting.mold.template := by
  obtain ⟨_, _, _, onward⟩ := bindItems_onward "xs.push(3)"
  have attributes : (itemWorld.dom.element itemCasting.mold.host).attributes.entries =
      [("a-for", "x in xs"), ("a-show", "xs")] := rfl
  have found : Directive.ofAttribute? itemCasting.binder.attributePrefix "a-for" "x in xs" =
      some itemDirective := rfl
  obtain ⟨_, repeating⟩ := onward_bind attributes found rfl onward
  refine repeat_shows_list itemCasting_binds ?_ ?_ repeating
    (itemCasting_binds.attempted repeating) (by decide)
  · intro more le
    refine minds_afterwards (Nat.lt_of_lt_of_le (by decide) le.size) ?_ ?_
    · intro entry member other shows
      rw [List.mem_singleton.mp member] at shows
      cases shows
      exact ⟨by decide, by decide⟩
    · intro outcome _ _
      cases outcome <;> trivial
  · intro resume waits outcome between more row le tends
    rw [List.mem_singleton.mp waits]
    exact ⟨tends, evaluateItems_minds _ _ _⟩

end Casting

end LiveMarkup
