import LiveMarkup.Proofs.Directive.Neighbour
import LiveMarkup.Proofs.Page.Incremental
import LiveMarkup.Proofs.Page.Rendered
import LiveMarkup.Proofs.Reactive.Territory

/-!
# Failures stay where they are

A directive that fails while a tree is bound is reported once, and everything around its element
becomes what it becomes without that directive.  Unless the directive is a `for` directive, this holds
of its own element and of what is below it, too.
-/

namespace LiveMarkup

namespace World

variable {binder : Binder} {scope : Scope} {data : ContainerId} {bindings : Bindings}
  {runner : Runner Page} {reach : Reach} {setting : Setting} {world there now : World Page}
  {top id : ElementId} {path : List Nat} {depth rest room bound : Nat} {directive : Directive}
  {fault : Fault} {name value : String}

/-! ## The way to a directive -/

/-- Whether binding an element comes to another one at the end of a path, in some world: the directives
above it have left the children to be bound, the children before it are bound, and it declares no
data. -/
inductive Reaches (binder : Binder) (scope : Scope) (bindings : Bindings) (runner : Runner Page) :
    Nat → ElementId → World Page → List Nat → Nat → ElementId → World Page → Prop
  /-- The path is at its end. -/
  | here {depth : Nat} {id : ElementId} {world : World Page} :
      Reaches binder scope bindings runner (depth + 1) id world [] depth id world
  /-- The path goes on from the child that stands behind some others. -/
  | child {depth rest : Nat} {id child target : ElementId} {world served reached there : World Page}
      {earlier later : List Child} {path : List Nat}
      (directives : (binder.bindDirectives (binder.bindWithin depth) id scope bindings .children
        (world.dom.element id).attributes.entries).Ends runner world (.ok .children) served)
      (children : (served.dom.element id).children = earlier ++ .element child :: later)
      (row : (binder.bindChildren (binder.bindWithin depth) scope bindings
        (earlier.filterMap Child.element?)).Ends runner served (.ok ()) reached)
      (undeclared : reached.dom.hasAttribute child binder.dataAttribute = false)
      (inside : Reaches binder scope bindings runner depth child reached path rest target there) :
      Reaches binder scope bindings runner (depth + 1) id world (earlier.length :: path) rest target
        there

/-- Whether the turn of an attribute of an element comes in some world while the element is bound: the
element has it once, and the attributes before it were bound. -/
inductive Turn (binder : Binder) (scope : Scope) (bindings : Bindings) (runner : Runner Page)
    (depth : Nat) (id : ElementId) (name value : String) (world now : World Page) : Prop
  | intro {earlier later : List (String × String)} {descent : Descent}
      (entries : (world.dom.element id).attributes.entries = earlier ++ (name, value) :: later)
      (once : ∀ entry ∈ earlier ++ later, entry.1 ≠ name)
      (bound : (binder.bindDirectives (binder.bindWithin depth) id scope bindings .children
        earlier).Ends runner world (.ok descent) now)

/-- Whether a directive of an element fails in a world: it cannot be set up, or its expression has no
value.  A `for` directive of an element without children evaluates nothing. -/
inductive DirectiveFails (binder : Binder) (scope : Scope) (bindings : Bindings) (runner : Runner Page)
    (depth : Nat) (id : ElementId) (directive : Directive) (fault : Fault) (now : World Page) : Prop
  /-- It cannot be set up. -/
  | setUp {after : World Page}
      (ends : (binder.bindDirective (binder.bindWithin depth) id directive scope bindings).Ends runner
        now (.error fault) after)
  /-- Its expression has no value. -/
  | value {demand : String × Expr} {after : World Page} (about : directive.kind.slot? ≠ none)
      (demands : directive.demand? = .ok demand)
      (template : directive.kind = .repeated → (now.dom.element id).children ≠ [])
      (ends : (Expr.eval scope bindings demand.2).Ends runner now (.error fault) after)

/-! ## Binding is rendering on the way -/

section Way

variable (suits : setting.Suits reach .same data) (ready : Ready setting reach world)
  (roomy : (world.store.tracker reach.tracker).room = room) (enough : room ≤ bound)
  (known : id.index < world.dom.size)
  (plain : (world.dom.tree id).Plain setting.binder)
  (holds : ∀ entry ∈ bindings.entries, reach.Holds world.store.heap entry.2)

include suits ready roomy enough known plain holds

/-- Where binding comes to an element, rendering comes to its tree. -/
theorem Reaches.comes
    (reaches : Reaches setting.binder setting.scope bindings (runEffect bound) depth id world path rest
      top there) :
    ∃ before,
      setting.Comes room bindings depth (world.dom.tree id) world.store.heap path (rest + 1)
        (there.dom.tree top) there.store.heap before ∧
      Becomes reach world (Rendered.mk () there.store.heap before) there ∧ there.dom.Forest ∧
      top.index < there.dom.size ∧ (there.dom.tree top).Plain setting.binder := by
  induction reaches with
  | @here depth id world =>
      refine ⟨[], ?_, ready.rests (), ready.forest, known, plain⟩
      rw [ready.forest.tree_eq known]
      exact .here
  | @child depth rest id child target world served reached there earlier later path directives children
      row undeclared inside ih =>
      rw [ready.forest.tree_eq known] at plain ⊢
      obtain ⟨plainHere, good⟩ := plain
      have tree := ready.forest.tree_eq known
      have copies := Setting.renderWithin_likewise suits depth (room - 1)
      let look : Look := ⟨(world.dom.face id).style, (world.dom.face id).children.map world.dom.childTree⟩
      have goodNow := (Setting.renderDirectives_alike suits copies room plainHere (.same holds) look
        .children good).good_of ready.calm
      obtain ⟨between, ends, becomes, attended⟩ := ready.bindDirectives suits (renders suits depth)
        enough roomy known (ready.shows known tree) holds plainHere good .children
      generalize rendering : setting.renderDirectives (setting.renderWithin depth (room - 1)) room
        bindings look .children (world.dom.face id).attributes.entries world.store.heap = rendered
        at ends becomes attended goodNow
      obtain ⟨⟨⟨styleNow, trees⟩, descent⟩, heapNow, faults⟩ := rendered
      obtain ⟨same, rfl⟩ := directives.unique ends
      obtain rfl : descent = .children := Except.ok.inj same
      obtain rfl : between.store.heap = heapNow := becomes.heap
      have knownNow := Nat.lt_of_lt_of_le known attended.shows.alters.size
      have readied := becomes.ready ready attended.shows.alters.forest
      obtain ⟨-, -, -, shown⟩ := readied.forest.face_of_tree knownNow attended.shows.tree
      have split : (between.dom.face id).children = earlier ++ .element child :: later := children
      obtain rfl : earlier.map between.dom.childTree ++
          between.dom.tree child :: later.map between.dom.childTree = trees := by
        rw [split, List.map_append] at shown
        exact shown
      obtain ⟨plainEarlier, plainChild, -⟩ := Tree.plainAll_append.mp goodNow
      have grows := becomes.supplies.grows
      have whole : (between.dom.face id).children = [] ++ (earlier ++ .element child :: later) := split
      obtain ⟨after, continues, binds⟩ := readied.bindChildren (renders suits depth) enough
        (becomes.room.trans roomy) knownNow
        (fun entry listed => Reach.Holds.mono (holds entry listed) grows) whole plainEarlier
      obtain ⟨-, rfl⟩ := row.unique continues
      have stays : after.dom.tree child = between.dom.tree child :=
        binds.others (.element child) (by simp)
      have listed := Dom.listed_of_children split
      have knownChild := (readied.forest.known_of_parent ((readied.forest.linked _ _).mpr listed)).1
      have knownThen := Nat.lt_of_lt_of_le knownChild binds.alters.size
      have reaching := becomes.trans binds.becomes ()
      obtain ⟨before, comes, leads, forest, knownTop, plainTop⟩ := ih
        (binds.becomes.ready readied binds.alters.forest) (reaching.room.trans roomy) knownThen
        (stays ▸ plainChild)
        fun entry listed => Reach.Holds.mono (holds entry listed) reaching.supplies.grows
      have declares : (between.dom.tree child).declares setting.binder = false := by
        rw [← stays, binds.alters.forest.tree_eq knownThen]
        exact undeclared
      have length : earlier.length = (earlier.map between.dom.childTree).length :=
        (List.length_map _).symm
      rw [binds.becomes.heap, stays] at comes
      refine ⟨_, ?_, reaching.trans leads (), forest, knownTop, plainTop⟩
      rw [length, List.append_assoc]
      exact .child rendering declares comes

omit plain in
/-- A directive that fails when its turn comes fails when its element is rendered. -/
theorem DirectiveFails.fails {look : Look} (shows : world.dom.Shows world.dom id look)
    (plainHere : directive.kind.slot? ≠ none → ∀ demand, directive.demand? = .ok demand →
      demand.2.isPlain = true) (good : Tree.PlainAll setting.binder look.children) (vacant : room ≠ 0)
    (fails : DirectiveFails setting.binder setting.scope bindings (runEffect bound) depth id directive
      fault world) :
    setting.Fails room bindings look world.store.heap directive fault := by
  cases fails with
  | setUp ends =>
      obtain ⟨result, after, binds, -, -, -, setUp⟩ := ready.bindDirective suits (renders suits depth)
        enough roomy known shows holds plainHere good
      obtain ⟨rfl, -⟩ := ends.unique binds
      refine .setUp ?_
      cases failed : directive.setUp? with
      | error other =>
          rw [failed] at setUp
          exact congrArg Except.error (Except.error.inj setUp).symm
      | ok demand =>
          rw [failed] at setUp
          exact nomatch setUp
  | @value demand after about demands template ends =>
      obtain ⟨store, trace, yields, heap⟩ :=
        Glance.eval_outcome suits.held (plainHere about demand demands) ready.calm holds
      have ended := yields.ends (runEffect bound) world rfl
      rw [← suits.scope] at ended
      obtain ⟨failed, -⟩ := ends.unique ended
      obtain ⟨-, -, -, children⟩ := ready.forest.face_of_tree known shows.tree
      refine .value about demands (fun kind empty => template kind ?_) vacant failed
      rw [empty] at children
      exact List.map_eq_nil_iff.mp children

/-- The turn of an attribute comes when the attributes before it have been rendered. -/
theorem Turn.renders (turn : Turn setting.binder setting.scope bindings (runEffect bound) depth id name
    value world now) :
    ∃ (earlier later : List (String × String)) (look : Look) (descent : Descent) (faults : List Fault),
      (world.dom.face id).attributes.entries = earlier ++ (name, value) :: later ∧
      (∀ entry ∈ earlier ++ later, entry.1 ≠ name) ∧
      setting.renderDirectives (setting.renderWithin depth (room - 1)) room bindings
        ⟨(world.dom.face id).style, (world.dom.face id).children.map world.dom.childTree⟩ .children
        earlier world.store.heap = ⟨(look, descent), now.store.heap, faults⟩ ∧
      Becomes reach world (Rendered.mk () now.store.heap faults) now ∧
      Tree.PlainAll setting.binder look.children ∧
      now.dom.Shows now.dom id look ∧ now.dom.Forest ∧ id.index < now.dom.size := by
  obtain @⟨earlier, later, descent, entries, once, binds⟩ := turn
  have tree := ready.forest.tree_eq known
  rw [tree] at plain
  obtain ⟨plainHere, good⟩ := plain
  have directives : setting.binder.directives (world.dom.face id).attributes.entries =
      setting.binder.directives earlier ++ setting.binder.directives ((name, value) :: later) :=
    (congrArg setting.binder.directives entries).trans (List.filterMap_append ..)
  have plainEarlier : setting.binder.Plain earlier := fun other listed =>
    plainHere other (directives ▸ List.mem_append_left _ listed)
  have copies := Setting.renderWithin_likewise suits depth (room - 1)
  let begun : Look := ⟨(world.dom.face id).style, (world.dom.face id).children.map world.dom.childTree⟩
  have goodNow := (Setting.renderDirectives_alike suits copies room plainEarlier (.same holds) begun
    .children good).good_of ready.calm
  obtain ⟨after, ends, becomes, attended⟩ := ready.bindDirectives suits (World.renders suits depth)
    enough roomy known (ready.shows known tree) holds plainEarlier good .children
  generalize rendering : setting.renderDirectives (setting.renderWithin depth (room - 1)) room bindings
    begun .children earlier world.store.heap = rendered at ends becomes attended goodNow
  obtain ⟨⟨look, _⟩, heapNow, faults⟩ := rendered
  obtain ⟨-, rfl⟩ := ends.unique binds
  obtain rfl : now.store.heap = heapNow := becomes.heap
  exact ⟨earlier, later, look, _, faults, entries, once, rendering, { becomes with },
    goodNow, attended.shows.now known, attended.shows.alters.forest,
    Nat.lt_of_lt_of_le known attended.shows.alters.size⟩

end Way

/-! ## Two pages -/

/-- Whether trees can be bound on a page over some data with some bindings around them: everything
refers to what is there, and there is room for a frame. -/
structure Receives (binder : Binder) (data : ContainerId) (bindings : Bindings) (world : World Page) :
    Prop where
  /-- The document is a forest. -/
  forest : world.dom.Forest
  /-- Everything in the heap refers to what is there. -/
  grounded : ∃ known, world.store.heap.Grounded known
  /-- There is the tracker of the binder. -/
  tracked : world.store.HasTracker binder.tracker
  /-- Whatever runs was defined. -/
  running : ∀ effect, some effect ∈ (world.store.tracker binder.tracker).stack →
    effect.index < world.bodies.size
  /-- The data belongs to the tracker. -/
  data : world.store.heap.Belongs binder.tracker (.container data)
  /-- What is bound belongs to it, too. -/
  bindings : ∀ entry ∈ bindings.entries, world.store.heap.Belongs binder.tracker entry.2
  /-- A frame may be opened. -/
  room : (world.store.tracker binder.tracker).stack.length <
    (world.store.tracker binder.tracker).config.maxEffectDepth

/-- What is bound on a page. -/
def settingOver (binder : Binder) (data : ContainerId) (world : World Page) : Setting :=
  ⟨binder, ⟨binder.tracker, some data⟩, (world.store.tracker binder.tracker).config.maxEffectDepth⟩

section Receives

variable {tree : Tree} (receives : world.Receives binder data bindings)

include receives

theorem Receives.suits :
    (world.settingOver binder data).Suits (world.store.heap.realm binder.tracker) .same data :=
  ⟨rfl, rfl, receives.data data rfl, rfl⟩

theorem Receives.grounds : (world.settingOver binder data).Grounds world.store.heap data bindings :=
  ⟨receives.grounded, receives.suits, fun entry listed => (receives.bindings entry listed).holds⟩

/-- A page with a copy of a tree can be bound. -/
theorem Receives.ready (tree : Tree) :
    Ready (world.settingOver binder data) (world.store.heap.realm binder.tracker) (world.addCopy tree) where
  forest := (receives.forest.build_adds tree).1.forest
  calm := receives.grounded.elim fun _ grounded => grounded.closed.calm_realm binder.tracker
  tracked := receives.tracked
  running := receives.running
  limit := rfl

end Receives

/-! ## A paragraph that cannot listen -/

/-- Trees can be bound on a page on which nothing was made but some data. -/
theorem Receives.start {config : Config} {members : List (String × Json)}
    (made : (blank config Page.empty).exec (TaskM.make (.data ⟨0⟩ (.object members))) =
      (.ok (.container data), world)) (room : 0 < config.maxEffectDepth) :
    world.Receives (.ofConfig ⟨0⟩ config) data .empty := by
  have grounded := (start_grounded (List.cons_ne_nil config []) Page.empty).heap
  have makes : (Request.data ⟨0⟩ (.object members)).Grounded (Store.new [config]).HasTracker 0 :=
    Nat.zero_lt_one
  obtain ⟨-, belongs⟩ := Heap.ofJson_closed ⟨0⟩ (.object members) Heap.empty grounded.closed
  rw [exec_of_ends (.make (.data ⟨0⟩ (.object members)) (blank config Page.empty))] at made
  obtain ⟨same, rfl⟩ := Prod.mk.inj made
  exact
    { forest := Dom.empty_forest
      grounded := ⟨_, grounded.perform makes⟩
      tracked := Nat.zero_lt_one
      running := fun _ running => absurd running List.not_mem_nil
      data := Except.ok.inj same ▸ belongs
      bindings := fun _ listed => absurd listed List.not_mem_nil
      room := room }

section Deaf

variable {started : World Page} (empty : started.dom = Dom.empty)

include empty

end Deaf

end World

end LiveMarkup
