import LiveMarkup.Proofs.Page.Live
import LiveMarkup.Reactive.Engine

/-!
# Sound pages

While directives are bound and effects run, a page stays sound: every effect has its duty, templates
stand unchanged, and the data holds nothing but data.  Every step of binding and of running effects
is an advance from one sound page to another one, in which only some elements differ.
-/

namespace LiveMarkup

/-- The binder of a page with one tracker. -/
abbrev Config.binder (config : Config) : Binder := .ofConfig ⟨0⟩ config

/-- The scope over some data of a page with one tracker. -/
abbrev Scope.over (data : ContainerId) : Scope := ⟨⟨0⟩, some data⟩

/-! ## Stores -/

/-- Nothing has happened between two stores but reads that were counted, containers that were made
and faults that were reported. -/
structure Store.Advances (before after : Store) : Prop where
  /-- Containers are only added. -/
  heap : before.heap.Grows after.heap
  /-- No function was made. -/
  closures : after.heap.closures = before.heap.closures
  /-- No event was made. -/
  events : after.heap.events = before.heap.events
  /-- There are the same trackers. -/
  trackers : after.trackers.size = before.trackers.size
  /-- Trackers keep their configurations. -/
  config : ∀ id, (after.tracker id).config = (before.tracker id).config
  /-- Trackers keep their faults. -/
  errors : ∀ id, (before.tracker id).errors.size ≤ (after.tracker id).errors.size
  /-- No subscription is lost. -/
  dependents : ∀ id access, ∀ effect ∈ (before.tracker id).dependents access,
    effect ∈ (after.tracker id).dependents access

namespace Store.Advances

theorem refl (store : Store) : store.Advances store :=
  ⟨.refl _, rfl, rfl, rfl, fun _ => rfl, fun _ => Nat.le_refl _, fun _ _ _ member => member⟩

theorem trans {first second third : Store} (before : first.Advances second)
    (after : second.Advances third) : first.Advances third where
  heap := before.heap.trans after.heap
  closures := after.closures.trans before.closures
  events := after.events.trans before.events
  trackers := after.trackers.trans before.trackers
  config id := (after.config id).trans (before.config id)
  errors id := Nat.le_trans (before.errors id) (after.errors id)
  dependents id access effect member :=
    after.dependents id access effect (before.dependents id access effect member)

theorem of_steady {before after : Store} (steady : before.Steady after)
    (closures : after.heap.closures = before.heap.closures)
    (events : after.heap.events = before.heap.events) : before.Advances after :=
  ⟨steady.heap, closures, events, steady.trackers, steady.config,
    fun id => Nat.le_of_eq (congrArg Array.size (steady.errors id)).symm, steady.dependents⟩

/-- A change of a tracker that keeps its configuration, its faults and its subscriptions. -/
theorem modifyTracker (store : Store) (id : TrackerId) {change : Tracker → Tracker}
    (config : ∀ tracker, (change tracker).config = tracker.config)
    (errors : ∀ tracker, Array.size tracker.errors ≤ (change tracker).errors.size)
    (dependents : ∀ tracker access effect, effect ∈ Tracker.dependents tracker access →
      effect ∈ (change tracker).dependents access) :
    store.Advances (store.modifyTracker id change) where
  heap := .refl _
  closures := rfl
  events := rfl
  trackers := size_modifyTracker store id change
  config := tracker_modifyTracker_eq Tracker.config change config
  errors other := by
    rw [tracker_modifyTracker]
    split
    · exact errors _
    · exact Nat.le_refl _
  dependents := (Grows.modifyTracker store id config dependents).dependents

theorem report (store : Store) (tracker : TrackerId) (fault : Fault) :
    store.Advances (store.report tracker fault) :=
  .modifyTracker store tracker (fun _ => rfl) (fun _ => by simp [Tracker.report])
    fun _ _ _ member => member

theorem simple {before after : Store} (advances : before.Advances after)
    (simple : before.heap.Simple) (owner : ∀ id, after.heap.owner id = ⟨0⟩) : after.heap.Simple :=
  ⟨owner, advances.closures.trans simple.closures, advances.events.trans simple.events⟩

/-- Who was subscribed to a container that was there still is. -/
theorem mem_dependents {before after : Store} (advances : before.Advances after) {access : Access}
    {effect : EffectId} (known : access.container.index < before.heap.containers.size)
    (subscribed : effect ∈ before.dependents access) : effect ∈ after.dependents access := by
  rw [Store.mem_dependents] at subscribed ⊢
  rw [Heap.owner, advances.heap.container _ known]
  exact advances.dependents _ access effect subscribed

end Store.Advances

/-! ## Duties -/

/-- Whether the template of an aim stands at an index. -/
def Aim.covers : Aim → Nat → Prop
  | .repeated template place _ _, index => place ≤ index ∧ index < place + template.count
  | .text, _ | .visible, _ => False

/-- Whether a duty has to do with the element at an index. -/
def Duty.Occupies (duty : Duty) (index : Nat) : Prop :=
  duty.host.index = index ∨ duty.aim.covers index

/-- How many effects may be nested in an effect with an aim. -/
def Aim.nesting (binder : Binder) : Aim → Nat
  | .repeated template _ _ _ => template.nesting binder + 1
  | .text | .visible => 0

/-- Whether an aim can be reached: its template stands unchanged and can be bound. -/
inductive Aim.Ready (binder : Binder) (dom : Dom Handler) : Aim → Prop
  /-- A text can be shown. -/
  | text : Ready binder dom .text
  /-- An element can be shown. -/
  | visible : Ready binder dom .visible
  /-- A template can be stamped. -/
  | repeated {template : Tree} {place depth : Nat} (name : String)
      (stands : dom.Stands template place) (inside : place + template.count ≤ dom.size)
      (admissible : template.Admissible binder) (height : template.height ≤ depth) :
      Ready binder dom (.repeated template place name depth)

theorem Aim.Ready.of_faces {binder : Binder} {before after : Dom Handler} {aim : Aim}
    (ready : aim.Ready binder before) (size : before.size ≤ after.size)
    (same : ∀ id : ElementId, aim.covers id.index → after.face id = before.face id) :
    aim.Ready binder after := by
  cases ready with
  | text => exact .text
  | visible => exact .visible
  | repeated name stands inside admissible height =>
      exact .repeated name (stands.of_faces _ _ fun id behind before => same id ⟨behind, before⟩)
        (Nat.le_trans inside size) admissible height

theorem Aim.Ready.lt_of_covers {binder : Binder} {dom : Dom Handler} {aim : Aim} {index : Nat}
    (ready : aim.Ready binder dom) (covers : aim.covers index) : index < dom.size := by
  cases ready with
  | text => contradiction
  | visible => contradiction
  | repeated name stands inside admissible height => exact Nat.lt_of_lt_of_le covers.2 inside

theorem Aim.Ready.template {binder : Binder} {dom : Dom Handler} {template : Tree}
    {place depth : Nat} {name : String}
    (ready : (Aim.repeated template place name depth).Ready binder dom) :
    dom.Stands template place ∧ place + template.count ≤ dom.size ∧ template.Admissible binder ∧
      template.height ≤ depth := by
  cases ready with
  | repeated _ stands inside admissible height => exact ⟨stands, inside, admissible, height⟩

namespace World

/-- The document of a page. -/
def dom (world : World Page) : Dom Handler := world.surroundings.dom

/-- Changes the document of a page. -/
def editDom (world : World Page) (change : Dom Handler → Dom Handler) : World Page :=
  { world with surroundings := world.surroundings.mapDom change }

/-- The number of faults that were reported. -/
def faults (world : World Page) : Nat := (world.store.tracker ⟨0⟩).errors.size

/-- The effects that are running. -/
def frames (world : World Page) : List (Option EffectId) := (world.store.tracker ⟨0⟩).stack

variable (config : Config) (data : ContainerId) (kept : ContainerId → Prop)

/-- Whether a page is sound, given the duties of its effects. -/
structure Sound (world : World Page) (duties : Array Duty) : Prop where
  /-- There is one tracker, and no function and no event. -/
  simple : world.store.heap.Simple
  /-- The root of the data is data. -/
  root : kept data
  /-- It is an object. -/
  object : world.store.heap.isArray data = false
  /-- The data is there. -/
  known : ∀ id, kept id → id.index < world.store.heap.containers.size
  /-- The data holds nothing else. -/
  encloses : world.store.heap.Encloses kept
  /-- There is one tracker. -/
  trackers : world.store.trackers.size = 1
  /-- The tracker has its configuration. -/
  configured : (world.store.tracker ⟨0⟩).config = config
  /-- Every effect does its duty. -/
  bodies : world.bodies = duties.map fun duty => (duty.body config.binder (.over data)).toTask
  /-- Running effects are defined. -/
  running : ∀ effect : EffectId, some effect ∈ world.frames → effect.index < duties.size
  /-- Parents come before their children. -/
  ordered : world.dom.Ordered
  /-- Duties are about elements that are there. -/
  host : ∀ duty ∈ duties, duty.host.index < world.dom.size
  /-- Expressions are plain. -/
  plain : ∀ duty ∈ duties, duty.expr.isPlain = true
  /-- Templates stand. -/
  ready : ∀ duty ∈ duties, duty.aim.Ready config.binder world.dom
  /-- No duty is about an element of a template. -/
  apart : ∀ duty ∈ duties, ∀ other ∈ duties, ¬duty.aim.covers other.host.index
  /-- Effects may be nested as deep as duties ask for. -/
  room : ∀ duty ∈ duties, duty.aim.nesting config.binder + 1 ≤ config.maxEffectDepth

/-- Whether one sound page leads to another one in which only the elements between two places
differ, besides new ones, and new duties are only about these. -/
structure Advance (low high : Nat) (world : World Page) (duties : Array Duty) (after : World Page)
    (dutiesAfter : Array Duty) : Prop where
  /-- The page is sound. -/
  sound : after.Sound config data kept dutiesAfter
  /-- The store has advanced. -/
  store : world.store.Advances after.store
  /-- Elements are only added. -/
  size : world.dom.size ≤ after.dom.size
  /-- Elements elsewhere have their faces. -/
  face : ∀ id : ElementId, id.index < world.dom.size → id.index < low ∨ high ≤ id.index →
    after.dom.face id = world.dom.face id
  /-- Elements up to the first place have their parents. -/
  parent : ∀ id : ElementId, id.index < world.dom.size → id.index ≤ low →
    after.dom.parent id = world.dom.parent id
  /-- Duties are only added, and about no element elsewhere. -/
  duties : ∃ more : Array Duty, dutiesAfter = duties ++ more ∧ ∀ duty ∈ more, ∀ index,
    duty.Occupies index → (low ≤ index ∧ index < high) ∨ world.dom.size ≤ index

variable {config data kept} {world between after : World Page}
  {duties dutiesBetween dutiesAfter : Array Duty}

namespace Advance

theorem refl (sound : world.Sound config data kept duties) (low high : Nat) :
    Advance config data kept low high world duties world duties :=
  ⟨sound, .refl _, Nat.le_refl _, fun _ _ _ => rfl, fun _ _ _ => rfl, #[],
    Array.append_empty.symm, fun _ member => absurd member (Array.not_mem_empty _)⟩

theorem trans {low high first last : Nat}
    (before : Advance config data kept low high world duties between dutiesBetween)
    (later : Advance config data kept first last between dutiesBetween after dutiesAfter)
    (behind : low ≤ first) (inside : last ≤ high ∨ world.dom.size ≤ first) :
    Advance config data kept low high world duties after dutiesAfter where
  sound := later.sound
  store := before.store.trans later.store
  size := Nat.le_trans before.size later.size
  face id known elsewhere := by
    have size := before.size
    rw [later.face id (by omega) (by omega), before.face id known elsewhere]
  parent id known early := by
    have size := before.size
    rw [later.parent id (by omega) (by omega), before.parent id known early]
  duties := by
    obtain ⟨more, rfl, occupied⟩ := before.duties
    obtain ⟨others, rfl, occupiedLater⟩ := later.duties
    refine ⟨more ++ others, Array.append_assoc, fun duty member index occupies => ?_⟩
    have size := before.size
    rcases Array.mem_append.mp member with old | new
    · exact occupied duty old index occupies
    · have place := occupiedLater duty new index occupies
      omega

theorem mono {low high first last : Nat}
    (advance : Advance config data kept first last world duties after dutiesAfter)
    (behind : low ≤ first) (inside : last ≤ high ∨ world.dom.size ≤ first) :
    Advance config data kept low high world duties after dutiesAfter where
  sound := advance.sound
  store := advance.store
  size := advance.size
  face id known elsewhere := advance.face id known (by omega)
  parent id known early := advance.parent id known (by omega)
  duties := by
    obtain ⟨more, rfl, occupied⟩ := advance.duties
    refine ⟨more, rfl, fun duty member index occupies => ?_⟩
    have place := occupied duty member index occupies
    omega

end Advance

/-! ## Steps -/

/-- A store that has advanced, with everything belonging to the one tracker, keeps a page sound. -/
theorem Advance.ofStore (sound : world.Sound config data kept duties) {store : Store}
    (advances : world.store.Advances store) (owner : ∀ id, store.heap.owner id = ⟨0⟩)
    (running : ∀ effect, some effect ∈ (store.tracker ⟨0⟩).stack →
      some effect ∈ world.frames ∨ effect.index < duties.size)
    (low high : Nat) :
    Advance config data kept low high world duties { world with store := store } duties where
  sound :=
    { simple := advances.simple sound.simple owner
      root := sound.root
      object := by
        rw [advances.heap.keeps.isArray data (sound.known data sound.root)]
        exact sound.object
      known := fun id inside => Nat.lt_of_lt_of_le (sound.known id inside) advances.heap.size_le
      encloses := fun id inside value member => by
        rw [Heap.contents, advances.heap.container id (sound.known id inside)] at member
        exact sound.encloses id inside value member
      trackers := advances.trackers.trans sound.trackers
      configured := (advances.config ⟨0⟩).trans sound.configured
      bodies := sound.bodies
      running := fun effect member => (running effect member).elim (sound.running effect) id
      ordered := sound.ordered
      host := sound.host
      plain := sound.plain
      ready := sound.ready
      apart := sound.apart
      room := sound.room }
  store := advances
  size := Nat.le_refl _
  face _ _ _ := rfl
  parent _ _ _ := rfl
  duties := ⟨#[], Array.append_empty.symm, fun _ member => absurd member (Array.not_mem_empty _)⟩

/-- A document that has only grown, except between two places where no template stands, keeps a page
sound. -/
theorem Advance.ofDom (sound : world.Sound config data kept duties) {low high : Nat}
    {change : Dom Handler → Dom Handler} (ordered : (change world.dom).Ordered)
    (size : world.dom.size ≤ (change world.dom).size)
    (face : ∀ id : ElementId, id.index < world.dom.size → id.index < low ∨ high ≤ id.index →
      (change world.dom).face id = world.dom.face id)
    (parent : ∀ id : ElementId, id.index < world.dom.size → id.index ≤ low →
      (change world.dom).parent id = world.dom.parent id)
    (free : ∀ duty ∈ duties, ∀ index, low ≤ index → index < high → ¬duty.aim.covers index) :
    Advance config data kept low high world duties (world.editDom change) duties where
  sound :=
    { simple := sound.simple
      root := sound.root
      object := sound.object
      known := sound.known
      encloses := sound.encloses
      trackers := sound.trackers
      configured := sound.configured
      bodies := sound.bodies
      running := sound.running
      ordered := ordered
      host := fun duty member => Nat.lt_of_lt_of_le (sound.host duty member) size
      plain := sound.plain
      ready := fun duty member => (sound.ready duty member).of_faces size fun id covers => by
        have known := (sound.ready duty member).lt_of_covers covers
        refine face id known (Decidable.byContradiction fun inside => ?_)
        exact free duty member id.index (by omega) (by omega) covers
      apart := sound.apart
      room := sound.room }
  store := .refl _
  size := size
  face := face
  parent := parent
  duties := ⟨#[], Array.append_empty.symm, fun _ member => absurd member (Array.not_mem_empty _)⟩

/-- An operation on one element that is in no template. -/
theorem Advance.edit (sound : world.Sound config data kept duties) {id : ElementId} {face : Face}
    (change : Dom Handler → Dom Handler) (edits : world.dom.Edits (change world.dom) id face)
    (later : ∀ child, Child.element child ∈ face.children →
      id.index < child.index ∧ child.index < world.dom.size)
    (free : ∀ duty ∈ duties, ¬duty.aim.covers id.index) :
    Advance config data kept id.index (id.index + 1) world duties (world.editDom change) duties := by
  refine .ofDom sound (edits.ordered sound.ordered later) (Nat.le_of_eq edits.size.symm)
    (fun other _ elsewhere => edits.elsewhere other ?_) (fun other _ early => edits.parent other early)
    fun duty member index behind before covers => free duty member ?_
  · rintro rfl
    omega
  · have same : index = id.index := by omega
    exact same ▸ covers

/-- Building a tree behind all elements. -/
theorem Advance.build (sound : world.Sound config data kept duties) {tree : Tree}
    {change : Dom Handler → Dom Handler} (builds : world.dom.Builds (change world.dom) tree)
    (place : Nat) :
    Advance config data kept place place world duties (world.editDom change) duties :=
  .ofDom sound (builds.ordered sound.ordered) (by rw [builds.size]; exact Nat.le_add_right _ _)
    (fun id known _ => builds.face id known) (fun id known _ => builds.parent id known)
    fun _ _ index behind before => absurd before (Nat.not_lt.mpr behind)

theorem Advance.report (sound : world.Sound config data kept duties) (fault : Fault)
    (low high : Nat) :
    Advance config data kept low high world duties
      (world.mapStore fun store => store.report ⟨0⟩ fault) duties := by
  refine .ofStore sound (.report world.store ⟨0⟩ fault) sound.simple.owner (fun effect member => ?_)
    low high
  rw [Store.stack_report] at member
  exact .inl member

theorem Sound.hasTracker (sound : world.Sound config data kept duties) :
    world.store.HasTracker ⟨0⟩ := by
  rw [Store.HasTracker, sound.trackers]
  exact Nat.zero_lt_one

theorem Sound.frames_begin (sound : world.Sound config data kept duties) (effect : EffectId) :
    (world.begin ⟨0⟩ effect).frames = some effect :: world.frames := by
  refine (stack_enter _ ⟨0⟩ ⟨0⟩ (some effect)).trans ?_
  exact if_pos ⟨rfl, sound.hasTracker⟩

theorem Sound.frames_leave (sound : world.Sound config data kept duties) :
    (world.leave ⟨0⟩).frames = world.frames.tail := by
  refine (stack_leave world ⟨0⟩ ⟨0⟩).trans ?_
  exact if_pos ⟨rfl, sound.hasTracker⟩

theorem advances_begin (world : World Page) (effect : EffectId) :
    world.store.Advances (world.begin ⟨0⟩ effect).store := by
  let counted := { world.store with runs := world.store.runs.modify effect.index (· + 1) }
  have entered : counted.Advances (world.begin ⟨0⟩ effect).store :=
    .modifyTracker counted ⟨0⟩ (fun _ => rfl) (fun _ => Nat.le_refl _) fun _ _ _ member => member
  exact ⟨entered.heap, entered.closures, entered.events, entered.trackers, entered.config,
    entered.errors, entered.dependents⟩

theorem advances_leave (world : World Page) :
    world.store.Advances (world.leave ⟨0⟩).store :=
  .modifyTracker world.store ⟨0⟩ (fun _ => rfl) (fun _ => Nat.le_refl _) fun _ _ _ member => member

/-- An effect may start to run. -/
theorem Advance.begin (sound : world.Sound config data kept duties) {effect : EffectId}
    (known : effect.index < duties.size) (low high : Nat) :
    Advance config data kept low high world duties (world.begin ⟨0⟩ effect) duties := by
  refine .ofStore sound (advances_begin world effect) sound.simple.owner (fun other member => ?_)
    low high
  change some other ∈ (world.begin ⟨0⟩ effect).frames at member
  rw [sound.frames_begin] at member
  rcases List.mem_cons.mp member with same | before
  · exact .inr (Option.some.inj same ▸ known)
  · exact .inl before

/-- An effect may end. -/
theorem Advance.leave (sound : world.Sound config data kept duties) (low high : Nat) :
    Advance config data kept low high world duties (world.leave ⟨0⟩) duties := by
  refine .ofStore sound (advances_leave world) sound.simple.owner (fun other member => ?_) low high
  change some other ∈ (world.leave ⟨0⟩).frames at member
  rw [sound.frames_leave] at member
  exact .inl (List.mem_of_mem_tail member)

/-- A new effect has its duty. -/
theorem Advance.define (sound : world.Sound config data kept duties) {duty : Duty} {low high : Nat}
    (place : ∀ index, duty.Occupies index → low ≤ index ∧ index < high)
    (host : duty.host.index < world.dom.size) (plain : duty.expr.isPlain = true)
    (ready : duty.aim.Ready config.binder world.dom)
    (room : duty.aim.nesting config.binder + 1 ≤ config.maxEffectDepth)
    (free : ∀ other ∈ duties, ¬other.aim.covers duty.host.index)
    (clear : ∀ other ∈ duties, ¬duty.aim.covers other.host.index)
    (own : ¬duty.aim.covers duty.host.index) :
    Advance config data kept low high world duties
      (world.define (duty.body config.binder (.over data)).toTask).2 (duties.push duty) where
  sound :=
    { simple := sound.simple
      root := sound.root
      object := sound.object
      known := sound.known
      encloses := sound.encloses
      trackers := sound.trackers
      configured := sound.configured
      bodies := by
        rw [Array.map_push, ← sound.bodies]
        rfl
      running := fun effect member => by
        rw [Array.size_push]
        exact Nat.lt_succ_of_lt (sound.running effect member)
      ordered := sound.ordered
      host := fun other member => by
        rcases Array.mem_push.mp member with old | rfl
        · exact sound.host other old
        · exact host
      plain := fun other member => by
        rcases Array.mem_push.mp member with old | rfl
        · exact sound.plain other old
        · exact plain
      ready := fun other member => by
        rcases Array.mem_push.mp member with old | rfl
        · exact sound.ready other old
        · exact ready
      apart := fun first member second memberToo => by
        rcases Array.mem_push.mp member with old | rfl
        · rcases Array.mem_push.mp memberToo with oldToo | rfl
          · exact sound.apart first old second oldToo
          · exact free first old
        · rcases Array.mem_push.mp memberToo with oldToo | rfl
          · exact clear second oldToo
          · exact own
      room := fun other member => by
        rcases Array.mem_push.mp member with old | rfl
        · exact sound.room other old
        · exact room }
  store := ⟨.refl _, rfl, rfl, rfl, fun _ => rfl, fun _ => Nat.le_refl _,
    fun _ _ _ member => member⟩
  size := Nat.le_refl _
  face _ _ _ := rfl
  parent _ _ _ := rfl
  duties := by
    refine ⟨#[duty], Array.push_eq_append, fun other member index occupies => ?_⟩
    obtain rfl : other = duty := by simpa using member
    exact .inl (place index occupies)

/-- Whether an effect looks at its expression, from a sound page it comes to an end. -/
theorem Sound.concludes (sound : world.Sound config data kept duties) {duty : Duty}
    (plain : duty.expr.isPlain = true) :
    ∃ outcome after trace, (duty.read (σ := Page) (.over data)).Concludes
      ⟨⟨0⟩, fun _ => True, world.store.heap.containers.size⟩ (some data)
      (Sight.Within duty.aim.glance ⟨⟨0⟩, fun _ => True, world.store.heap.containers.size⟩)
      world.store outcome after trace := by
  have calm : Reach.Calm ⟨⟨0⟩, fun _ => True, world.store.heap.containers.size⟩ world.store.heap :=
    ⟨fun _ _ _ _ _ _ => .inl trivial, fun id _ => sound.simple.owner id, Nat.le_refl _⟩
  exact Glance.read_confined duty.aim.glance trivial plain (fun _ _ _ _ => .inl trivial) world.store
    (.refl _) calm

end World

end LiveMarkup
