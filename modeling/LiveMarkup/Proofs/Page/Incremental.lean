import LiveMarkup.Proofs.Document.Order
import LiveMarkup.Proofs.Page.Agreement
import LiveMarkup.Proofs.Page.Change
import LiveMarkup.Proofs.Reactive.Adequacy

/-!
# Following the data

A copy of a tree is bound once and then follows the data through any number of changes.  At every
time it shows what another copy shows that is bound at that time, unless binding the other one
reports a fault.
-/

namespace LiveMarkup

/-- Binds a copy of a tree over some data. -/
def Binder.bindCopy (binder : Binder) (scope : Scope) : Child → TaskM Page Value
  | .text _ => return .undefined
  | .element id => do
      binder.bindTree id scope Assoc.empty
      return .undefined

namespace Dom

variable {ℓ : Type}

/-- The markup of a child of an element. -/
def markup (dom : Dom ℓ) : Child → String
  | .text content => String.ofList (Tree.text content).render
  | .element id => dom.outerMarkup id

theorem markup_eq (dom : Dom ℓ) (child : Child) :
    dom.markup child = String.ofList (dom.childTree child).render := by
  cases child <;> rfl

end Dom

/-- Everything below a live part is shown if the depth is no smaller than the number of elements. -/
theorem View.Live.childTree_eq {view : View} {data : ContainerId} {kept : ContainerId → Prop}
    {binder : Binder} {part : Part} (live : view.Live data kept binder part)
    (ordered : view.dom.Ordered) {depth : Nat} (enough : view.dom.size ≤ depth) :
    view.dom.childTree part.child = view.dom.childWithin depth part.child := by
  cases live with
  | text content bindings since => rfl
  | element parts node below =>
      exact ordered.ranked.treeWithin_eq node.known (Nat.le_add_left _ _)
        (Nat.le_trans enough (Nat.le_add_left _ _))

namespace World

/-- Adds a copy of a tree to a page. -/
def addCopy (tree : Tree) (world : World Page) : World Page :=
  world.editDom fun dom => (dom.build tree).2

/-- Adds a copy of a tree to a page and binds it over some data. -/
def walk (config : Config) (data : ContainerId) (tree : Tree) (world : World Page) :
    Child × World Page :=
  let copy := (world.dom.build tree).1
  (copy, ((world.addCopy tree).exec (config.binder.bindCopy (.over data) copy)).2)

/-- Whether a page hosts a copy of a tree: the copy was bound over an object of JSON data, and then
the data may have changed and more copies may have been bound, time and again. -/
inductive Hosts (config : Config) (tree : Tree) (data : ContainerId) (copy : Child) :
    World Page → Prop
  /-- The copy was bound. -/
  | start {members : List (String × Json)} {world : World Page}
      (made : (blank config Page.empty).exec (TaskM.make (.data ⟨0⟩ (.object members))) =
        (.ok (.container data), world))
      (same : copy = (world.walk config data tree).1) :
      Hosts config tree data copy (world.walk config data tree).2
  /-- A container that can be reached from the data was written to. -/
  | change {world : World Page} (hosts : Hosts config tree data copy world) (change : Change)
      (reaches : world.store.heap.Reaches data change.target)
      (fits : change.Fits world.store.heap) :
      Hosts config tree data copy (world.exec change.make).2
  /-- Another copy was bound. -/
  | again {world : World Page} (hosts : Hosts config tree data copy world) :
      Hosts config tree data copy (world.walk config data tree).2

variable {config : Config} {data : ContainerId} {kept : ContainerId → Prop} {tree : Tree}
  {world : World Page} {duties : Array Duty} {part : Part}

/-- JSON data on a page in which nothing has happened. -/
theorem Sound.start {members : List (String × Json)}
    (made : (blank config Page.empty).exec (TaskM.make (.data ⟨0⟩ (.object members))) =
      (.ok (.container data), world)) :
    ∃ kept, world.Sound config data kept #[] ∧ world.frames = [] := by
  let reach : Reach := ⟨⟨0⟩, fun _ => False, 0⟩
  have calm : reach.Calm Heap.empty :=
    { encloses := fun _ inside => inside.elim False.elim fun made =>
        absurd made.2 (Nat.not_lt_zero _)
      owner := fun _ _ => rfl
      base := Nat.le_refl _ }
  have supplies := Heap.ofJson_supplies (.object members) Heap.empty calm
  obtain ⟨id, is, object⟩ := Heap.ofJson_object members calm
  rw [exec_of_ends (.make (.data ⟨0⟩ (.object members)) (blank config Page.empty))] at made
  obtain ⟨same, rfl⟩ := Prod.mk.inj made
  obtain rfl : id = data := Value.container.inj (is.symm.trans (Except.ok.inj same))
  refine ⟨reach.inside (Heap.ofJson ⟨0⟩ (.object members) Heap.empty).2, ?_, rfl⟩
  exact
    { simple := ⟨supplies.calm.owner_of_grows supplies.grows (Nat.le_refl _) fun _ => rfl,
        supplies.closures, supplies.events⟩
      root := supplies.holds _ List.mem_cons_self id is
      object := object
      known := fun id inside => inside.elim False.elim And.right
      encloses := supplies.calm.encloses
      trackers := rfl
      configured := rfl
      bodies := Array.map_empty.symm
      running := fun _ running => absurd running List.not_mem_nil
      ordered := fun _ _ listed => absurd listed List.not_mem_nil
      host := fun _ member => absurd member (Array.not_mem_empty _)
      plain := fun _ member => absurd member (Array.not_mem_empty _)
      ready := fun _ member => absurd member (Array.not_mem_empty _)
      apart := fun _ member => absurd member (Array.not_mem_empty _)
      room := fun _ member => absurd member (Array.not_mem_empty _) }

/-- Binding a copy ends where its tree is live. -/
theorem Sound.walk (sound : world.Sound config data kept duties) (idle : world.frames = [])
    (admissible : tree.Admissible config.binder)
    (room : tree.nesting config.binder + 1 ≤ config.maxEffectDepth) :
    ∃ dutiesAfter,
      (world.walk config data tree).1 = tree.childAt world.dom.size ∧
      (world.walk config data tree).2.frames = [] ∧
      Advance config data kept world.dom.size (world.dom.size + tree.count) world duties
        (world.walk config data tree).2 dutiesAfter ∧
      (View.during (world.addCopy tree) (world.walk config data tree).2 dutiesAfter
        fun _ => True).Live data kept config.binder
          ⟨tree, .empty, world.store.heap.containers.size, tree.childAt world.dom.size⟩ := by
  obtain ⟨copied, builds⟩ := Dom.build_builds tree world.dom
  have size : (world.addCopy tree).dom.size = world.dom.size + tree.count := builds.size
  have build : Advance config data kept world.dom.size world.dom.size world duties
      (world.addCopy tree) duties := .build sound builds _
  have none : world.frames.length = 0 := congrArg List.length idle
  have enough := sound.room_le idle
  have site : Site config data kept world.store.room (world.addCopy tree) duties world.dom.size
      tree.count (tree.nesting config.binder) world.store.heap.containers.size :=
    .build sound builds (by omega) (by omega) (Nat.le_refl _)
  have height : tree.height ≤ (world.addCopy tree).dom.size :=
    Nat.le_trans (Tree.height_le_count tree) (by omega)
  obtain ⟨after, dutiesAfter, walked⟩ := walks config data kept (world.addCopy tree).dom.size
    world.store.room tree _ _ .empty (world.addCopy tree) duties site builds.stands admissible
    height
  have binds : (config.binder.bindCopy (.over data) (tree.childAt world.dom.size)).Ends
      (runEffect (world.addCopy tree).store.room) (world.addCopy tree) (.ok .undefined) after := by
    have ends := walked.ends
    cases tree with
    | text content => exact fun next => ends fun _ => next (.ok .undefined)
    | element tag attributes style children =>
        exact .bind (.bind (.survey _ _) ends) (.pure _ after)
  have same : world.walk config data tree = (tree.childAt world.dom.size, after) := by
    rw [World.walk, copied, exec_of_ends binds]
  rw [same]
  refine ⟨dutiesAfter, rfl, walked.ends.frames.trans idle, ?_, ?_⟩
  · exact (build.mono (Nat.le_refl _) (.inl (Nat.le_add_right _ _))).trans walked.advance
      (Nat.le_refl _) (.inl (Nat.le_refl _))
  · exact (Advance.refl walked.advance.sound 0 0).live (.refl _) (fun _ _ => trivial)
      (fun index _ _ => .inr (Nat.zero_le index)) walked.live

/-- A page that hosts a copy is in step with the data. -/
theorem Hosts.inStep {copy : Child} (admissible : tree.Admissible config.binder)
    (room : tree.nesting config.binder + 1 ≤ config.maxEffectDepth)
    (hosts : world.Hosts config tree data copy) :
    ∃ kept duties since,
      InStep config data kept ⟨tree, .empty, since, copy⟩ (fun _ => False) world duties := by
  induction hosts with
  | start made same =>
      obtain ⟨kept, sound, idle⟩ := Sound.start made
      obtain ⟨duties, place, idleAfter, advance, live⟩ := sound.walk idle admissible room
      obtain rfl := same.trans place
      exact ⟨kept, duties, _, advance.sound, idleAfter, live_waiting live _⟩
  | change _ change reaches fits ih =>
      obtain ⟨kept, duties, since, inStep⟩ := ih
      obtain ⟨keptAfter, dutiesAfter, after, _⟩ := inStep.change change reaches fits
      exact ⟨keptAfter, dutiesAfter, since, after⟩
  | again _ ih =>
      obtain ⟨kept, duties, since, inStep⟩ := ih
      obtain ⟨dutiesAfter, _, idle, advance, _⟩ := inStep.sound.walk inStep.idle admissible room
      exact ⟨kept, dutiesAfter, since, inStep.advance advance idle⟩

/-! ## Faults -/

theorem faults_begin (world : World Page) (effect : EffectId) :
    (world.begin ⟨0⟩ effect).faults = world.faults :=
  congrArg Array.size (Store.tracker_modifyTracker_eq Tracker.errors
    (fun tracker => tracker.enter (some effect)) (fun _ => rfl) ⟨0⟩)

theorem faults_leave (world : World Page) : (world.leave ⟨0⟩).faults = world.faults :=
  congrArg Array.size (Store.tracker_modifyTracker_eq Tracker.errors Tracker.leave
    (fun _ => rfl) ⟨0⟩)

/-- When no effect is running, a new effect runs its body within a frame of its own. -/
theorem Sound.createEffect (sound : world.Sound config data kept duties) (idle : world.frames = [])
    (positive : 0 < config.maxEffectDepth) {computation : TaskM Page Value} {value : Value}
    {bound : Nat} {after : World Page}
    (ends : computation.Ends (runEffect bound)
      ((world.define computation.toTask).2.begin ⟨0⟩ ⟨world.bodies.size⟩) (.ok value) after) :
    (TaskM.createEffect ⟨0⟩ computation).Ends (runEffect (bound + 1)) world
      (.ok ⟨world.bodies.size⟩) (after.leave ⟨0⟩) := by
  refine .createEffect_of_ends ?_ ends
  change (if world.frames.contains (some ⟨world.bodies.size⟩) = true then _
    else if (world.store.tracker ⟨0⟩).config.maxEffectDepth ≤ world.frames.length then _
    else none) = none
  rw [idle, sound.configured]
  exact (if_neg Bool.false_ne_true).trans (if_neg (Nat.not_le.mpr positive))

/-- A new effect that shows a text is run without a fault if there is a text to show. -/
theorem Sound.createEffect_text (sound : world.Sound config data kept duties)
    (idle : world.frames = []) (positive : 0 < config.maxEffectDepth) {id : ElementId}
    (known : id.index < world.dom.size) {expr : Expr}
    (yields : ∀ store : Store, store.heap = world.store.heap → ∃ content after trace,
      (Glance.text.read (σ := Page) (.over data) .empty expr).Yields store
        (.ok (.text content)) after trace) (bound : Nat) :
    ∃ content done,
      (TaskM.createEffect ⟨0⟩ ((⟨id, .empty, expr, .text⟩ : Duty).body config.binder
        (.over data))).Ends (runEffect (bound + 1)) world (.ok ⟨world.bodies.size⟩) done ∧
      (done.dom.face id).children = Dom.textRow content ∧ done.faults = world.faults := by
  let body := (⟨id, .empty, expr, .text⟩ : Duty).body config.binder (.over data)
  let begun := (world.define body.toTask).2.begin ⟨0⟩ ⟨world.bodies.size⟩
  obtain ⟨content, middle, trace, looks⟩ := yields begun.store rfl
  let shown := World.editDom { begun with store := middle } fun dom => dom.setText id content
  have shows : body.Ends (runEffect bound) begun (.ok .undefined) shown :=
    .bind (.pure () begun) (.bind (looks.ends _ begun rfl) (.bind (.alter _ _) (.pure _ shown)))
  refine ⟨content, shown.leave ⟨0⟩, sound.createEffect idle positive shows, ?_, ?_⟩
  · exact congrArg Face.children (Dom.setText_edits sound.ordered known content).here
  · calc (shown.leave ⟨0⟩).faults = shown.faults := faults_leave shown
      _ = begun.faults := congrArg Array.size (looks.steady.errors ⟨0⟩)
      _ = world.faults := faults_begin _ _

/-- An element whose only attribute is a `text` directive is bound without a fault if the expression
has a value. -/
theorem Sound.quiet_text (sound : world.Sound config data kept duties) (idle : world.frames = [])
    (positive : 0 < config.maxEffectDepth) {tag name source : String} {style : Assoc String String}
    {directive : Directive}
    (found : Directive.ofAttribute? config.attributePrefix name source = some directive)
    (kind : directive.kind = .text) {demand : String × Expr}
    (read : directive.demand? = .ok demand)
    (yields : ∀ store : Store, store.heap = world.store.heap → ∃ content after trace,
      (Glance.text.read (σ := Page) (.over data) .empty demand.2).Yields store
        (.ok (.text content)) after trace) :
    (world.walk config data (.element tag ⟨[(name, source)]⟩ style [])).2.faults =
      world.faults := by
  let tree : Tree := .element tag ⟨[(name, source)]⟩ style []
  obtain ⟨copied, builds⟩ := Dom.build_builds tree world.dom
  let built := world.addCopy tree
  let id : ElementId := ⟨world.dom.size⟩
  have builtSound : built.Sound config data kept duties :=
    (Advance.build sound builds 0).sound
  have face : built.dom.face id = ⟨tag, ⟨[(name, source)]⟩, style, []⟩ := builds.stands.1
  have size : built.dom.size = world.dom.size + 1 := builds.size
  obtain ⟨bound, room⟩ : ∃ bound, world.store.room = bound + 1 :=
    ⟨world.store.room - 1, by have := sound.room_le idle; omega⟩
  have known : id.index < built.dom.size := by
    change world.dom.size < built.dom.size
    omega
  obtain ⟨content, done, created, row, faults⟩ :=
    builtSound.createEffect_text idle positive known yields bound
  have bind : (config.binder.bindDirective (config.binder.bindWithin world.dom.size) id directive
      (.over data) .empty).Ends (runEffect (bound + 1)) built (.ok .children) done := by
    rw [Binder.bindDirective_eq _ _ _ _ _ (by rw [kind]; decide), read, kind]
    exact .bind (.ofExcept _ built) (.bind created (.pure _ done))
  have bindAll : (config.binder.bindDirectives (config.binder.bindWithin world.dom.size) id
      (.over data) .empty .children [(name, source)]).Ends (runEffect (bound + 1)) built
        (.ok .children) done :=
    Binder.bindDirectives_cons _ _ _ _ found bind (.pure _ done)
  have attributes : (Page.see fun dom => (dom.element id).attributes.entries).Ends
      (runEffect (bound + 1)) built (.ok [(name, source)]) built := by
    have entries : (built.dom.element id).attributes.entries = [(name, source)] :=
      congrArg (fun face : Face => face.attributes.entries) face
    exact entries ▸ .survey _ built
  have children : (Page.see fun dom => dom.childElements id).Ends (runEffect (bound + 1)) done
      (.ok []) done := by
    have none : done.dom.childElements id = [] := by
      refine (congrArg (List.filterMap Child.element?) row).trans ?_
      unfold Dom.textRow
      split <;> rfl
    exact none ▸ .survey _ done
  have depth : (Page.see fun dom => dom.size).Ends (runEffect (bound + 1)) built
      (.ok (world.dom.size + 1)) built := size ▸ .survey _ built
  have walked : (config.binder.bindCopy (.over data) (.element id)).Ends
      (runEffect world.store.room) built (.ok .undefined) done := by
    rw [room]
    exact .bind (depth.bind (attributes.bind (bindAll.bind (children.bind (.pure () done)))))
      (.pure _ done)
  have same : (world.walk config data tree).2 = done := by
    rw [World.walk, copied]
    have ran : built.exec (config.binder.bindCopy (.over data) (.element id)) = _ :=
      exec_of_ends walked
    exact congrArg Prod.snd ran
  change (world.walk config data tree).2.faults = world.faults
  rw [same]
  exact faults

/-- The text of a property that is there can be looked at. -/
theorem read_name {store : Store} {name : String}
    (named : store.heap.contains data (Key.ofText name) = true) :
    ∃ content after trace, (Glance.text.read (σ := Page) (.over data) .empty (.ident name)).Yields
      store (.ok (.text content)) after trace := by
  have has := TaskM.Yields.has (σ := Page) data (Key.ofText name) store
  have get := TaskM.Yields.watch (σ := Page) (fun heap => heap.get data (Key.ofText name)) store
  rw [named] at has
  have value : (Expr.eval (σ := Page) (.over data) .empty (.ident name)).Yields store _ _ _ :=
    has.bind (get.bind (.pure _ _))
  exact ⟨_, _, _, value.bind (.bind (.watch _ _) (.pure _ _))⟩

/-- A paragraph that shows a name. -/
def nameTag : Tree := .element "p" ⟨[("a-text", "name")]⟩ .empty []

theorem admissible_nameTag : nameTag.Admissible Config.default.binder := by
  have directives : Config.default.binder.directives [("a-text", "name")] =
      [⟨"text", none, [], "name"⟩] := rfl
  refine ⟨⟨?_, ?_, ?_⟩, trivial⟩
  · rw [directives]
    exact List.pairwise_singleton _ _
  · rw [directives]
    intro directive listed
    rw [List.mem_singleton.mp listed]
    decide
  · intro directive listed _ demand read
    rw [directives] at listed
    rw [List.mem_singleton.mp listed] at read
    have known : Directive.demand? ⟨"text", none, [], "name"⟩ = .ok ("", .ident "name") := rfl
    rw [← Except.ok.inj (known.symm.trans read)]
    rfl

/-- A name that is there is shown without a fault. -/
theorem Hosts.quiet_nameTag {copy : Child} (hosts : world.Hosts .default nameTag data copy)
    (named : world.store.heap.contains data (.name "name") = true) :
    (world.walk .default data nameTag).2.faults = world.faults := by
  obtain ⟨_, _, _, inStep⟩ := hosts.inStep admissible_nameTag (by decide)
  have found : Directive.ofAttribute? Config.default.attributePrefix "a-text" "name" =
      some ⟨"text", none, [], "name"⟩ := rfl
  have read : Directive.demand? ⟨"text", none, [], "name"⟩ = .ok ("", .ident "name") := rfl
  exact inStep.sound.quiet_text inStep.idle (by decide) found rfl read fun store same =>
    read_name (by rw [same]; exact named)

/-- A name that is there when a copy is bound is there afterwards, and no change takes it away. -/
theorem Hosts.named {members : List (String × Json)}
    (made : (blank .default Page.empty).exec (TaskM.make (.data ⟨0⟩ (.object members))) =
      (.ok (.container data), world))
    (named : world.store.heap.contains data (.name "name") = true) (change : Change)
    (reaches : (world.walk .default data nameTag).2.store.heap.Reaches data change.target)
    (fits : change.Fits (world.walk .default data nameTag).2.store.heap) :
    ((world.walk .default data nameTag).2.exec change.make).2.store.heap.contains data
      (.name "name") = true := by
  obtain ⟨_, sound, idle⟩ := Sound.start made
  obtain ⟨_, _, _, advance, _⟩ := sound.walk idle admissible_nameTag (by decide)
  have begins := Hosts.start made (Eq.refl (world.walk .default data nameTag).1)
  obtain ⟨_, _, _, inStep⟩ := begins.inStep admissible_nameTag (by decide)
  obtain ⟨_, _, _, retains⟩ := inStep.change change reaches fits
  have whole := (Heap.Retains.of_grows advance.store.heap).trans retains
  exact (whole data (.name "name") sound.object named).2

/-! ## The markup -/

/-- A copy that has followed the data shows what a copy shows that is bound now, unless binding that
one reports a fault. -/
theorem Hosts.same_markup {copy : Child} (admissible : tree.Admissible config.binder)
    (room : tree.nesting config.binder + 1 ≤ config.maxEffectDepth)
    (hosts : world.Hosts config tree data copy)
    (quiet : (world.walk config data tree).2.faults = world.faults) :
    world.dom.markup copy =
      (world.walk config data tree).2.dom.markup (world.walk config data tree).1 := by
  obtain ⟨kept, duties, since, inStep⟩ := hosts.inStep admissible room
  obtain ⟨dutiesAfter, place, idle, advance, live⟩ := inStep.sound.walk inStep.idle admissible room
  have replays : View.Replays data kept (.waiting world duties fun _ => False)
      (.during (world.addCopy tree) (world.walk config data tree).2 dutiesAfter fun _ => True) :=
    { root := inStep.sound.root
      object := inStep.sound.object
      plain := inStep.sound.plain
      idle := fun _ => id
      idleFresh := fun _ => id
      sound := fun reported => Nat.ne_of_gt reported quiet
      era := fun _ => id }
  have joins : (Link.blank world.store.heap.containers.size).Joins kept world.store.heap
      (world.walk config data tree).2.store.heap :=
    { floor := rfl
      apart := fun _ linked => linked.elim
      encloses := fun _ linked => linked.elim
      same := fun _ linked => linked.elim }
  have same := inStep.live.agrees replays live joins
    { tree := rfl
      bindings := rfl
      bound := fun _ listed => absurd listed List.not_mem_nil
      here := Nat.zero_le _
      there := Nat.zero_le _ } (world.walk config data tree).2.dom.size
  have whole := inStep.live.childTree_eq inStep.sound.ordered advance.size
  have wholeFresh := live.childTree_eq advance.sound.ordered (Nat.le_refl _)
  rw [place, Dom.markup_eq, Dom.markup_eq]
  exact congrArg (fun shown => String.ofList shown.render)
    (whole.trans (same.trans wholeFresh.symm))

/-- A name is still shown as it is by a copy bound before it changes. -/
theorem nameTag_same_markup :
    let world := ((blank .default Page.empty).exec
      (TaskM.make (.data ⟨0⟩ (.object [("name", .string "old")])))).2
    let bound := world.walk .default ⟨0⟩ nameTag
    let changed := (bound.2.exec
      (Change.make (.set ⟨0⟩ (.name "name") (.string "new")))).2
    changed.dom.markup bound.1 =
      (changed.walk .default ⟨0⟩ nameTag).2.dom.markup (changed.walk .default ⟨0⟩ nameTag).1 := by
  intro world
  have made : (blank .default Page.empty).exec
      (TaskM.make (.data ⟨0⟩ (.object [("name", .string "old")]))) =
        (.ok (.container ⟨0⟩), world) := rfl
  have there : world.store.heap.contains ⟨0⟩ (.name "name") = true := rfl
  generalize world = started at made there
  dsimp only
  have room : nameTag.nesting Config.default.binder + 1 ≤ Config.default.maxEffectDepth := by decide
  have begins := Hosts.start made (Eq.refl (started.walk .default ⟨0⟩ nameTag).1)
  have fits : (Change.set ⟨0⟩ (.name "name") (.string "new")).Fits
      (started.walk .default ⟨0⟩ nameTag).2.store.heap := by
    obtain ⟨_, _, _, inStep⟩ := begins.inStep admissible_nameTag room
    exact fun isArray => absurd (isArray.symm.trans inStep.sound.object) Bool.noConfusion
  have named := Hosts.named made there (.set ⟨0⟩ (.name "name") (.string "new")) .root fits
  have hosts := begins.change (.set ⟨0⟩ (.name "name") (.string "new")) .root fits
  exact Hosts.same_markup admissible_nameTag room hosts (hosts.quiet_nameTag named)

end World

end LiveMarkup
