import LiveMarkup.Proofs.Page.Live

/-!
# Linked containers

The same expression may be evaluated twice, at different times, over the same data.  The data has
kept its containers, but whatever the two evaluations have made themselves is made of different
ones. A link says which container of the first run stands for which of the second one, and it grows
with every evaluation that both runs have in common.
-/

namespace LiveMarkup

/-! ## Renamings that agree -/

namespace Renaming

/-- Values that two renamings take to the same thing. -/
theorem value_congr {ρ τ : Renaming} (function : ∀ id, τ.function id = ρ.function id)
    (event : ∀ id, τ.event id = ρ.event id) {inside : ContainerId → Prop}
    (same : ∀ id, inside id → τ.container id = ρ.container id) {value : Value}
    (within : value.In inside) : τ.value value = ρ.value value := by
  cases value with
  | container id => exact congrArg Value.container (same id (within id rfl))
  | function id => exact congrArg Value.function (function id)
  | event id => exact congrArg Value.event (event id)
  | _ => rfl

theorem mapValues_congr {κ : Type} {f g : Value → Value} {map : Assoc κ Value}
    (same : ∀ entry ∈ map.entries, f entry.2 = g entry.2) : map.mapValues f = map.mapValues g :=
  congrArg Assoc.mk (List.map_congr_left fun entry member =>
    congrArg (Prod.mk entry.1) (same entry member))

theorem contents_congr {ρ τ : Renaming} {contents : Contents}
    (same : ∀ value ∈ contents.values, τ.value value = ρ.value value) :
    τ.contents contents = ρ.contents contents := by
  cases contents with
  | object properties =>
      refine congrArg Contents.object (mapValues_congr fun entry member => same _ ?_)
      exact List.mem_map.mpr ⟨entry, member, rfl⟩
  | array items named =>
      have values : items.map τ.value = items.map ρ.value := Array.map_congr_left fun item member =>
        same item (List.mem_append_left _ (Array.mem_toList_iff.mpr member))
      have properties : named.mapValues τ.value = named.mapValues ρ.value :=
        mapValues_congr fun entry member =>
          same _ (List.mem_append_right _ (List.mem_map.mpr ⟨entry, member, rfl⟩))
      rw [Renaming.contents, Renaming.contents, values, properties]

end Renaming

/-! ## Links -/

/-- Which containers of a first run stand for which of a second one.  The second run began when
there were a number of containers, and all its own ones came later. -/
structure Link where
  /-- The number of containers when the second run began. -/
  floor : Nat
  /-- The number of containers up to which the first run is linked. -/
  here : Nat
  /-- The number of containers up to which the second run is linked. -/
  there : Nat
  /-- The containers of the first run that are linked. -/
  linked : ContainerId → Prop
  /-- Their counterparts. -/
  names : Renaming
  /-- Linked containers of the first run are early. -/
  early : ∀ id, linked id → id.index < here
  /-- Their counterparts are of the second run. -/
  image : ∀ id, linked id →
    floor ≤ (names.container id).index ∧ (names.container id).index < there
  /-- Other early containers stand for themselves. -/
  rest : ∀ id : ContainerId, id.index < here → ¬linked id → names.container id = id
  /-- Functions stand for themselves. -/
  function : ∀ id, names.function id = id
  /-- Events stand for themselves. -/
  event : ∀ id, names.event id = id

namespace Link

/-- Nothing is linked. -/
def blank (floor : Nat) : Link where
  floor := floor
  here := 0
  there := 0
  linked _ := False
  names := ⟨0, id, id, id, fun same => same, fun same => same, fun same => same⟩
  early _ linked := linked.elim
  image _ linked := linked.elim
  rest _ early := absurd early (Nat.not_lt_zero _)
  function _ := rfl
  event _ := rfl

variable (link : Link) (kept : ContainerId → Prop)

/-- Whether a container is linked or is early data. -/
def inside (id : ContainerId) : Prop := link.linked id ∨ kept id ∧ id.index < link.here

/-- Whether linked containers hold the same in two heaps, as far as the link tells. -/
structure Joins (first second : Heap) : Prop where
  /-- The second run begins now. -/
  floor : link.floor = first.containers.size
  /-- Data is not linked. -/
  apart : ∀ id, link.linked id → ¬kept id
  /-- Linked containers hold linked containers and data. -/
  encloses : ∀ id, link.linked id → ∀ value ∈ (first.contents id).values,
    value.In (link.inside kept)
  /-- Their counterparts hold the counterparts. -/
  same : ∀ id, link.linked id →
    second.contents (link.names.container id) = link.names.contents (first.contents id)

/-- What stands for a container if later ones are made at the same pace in both runs, from two
numbers of containers on. -/
def stretched (first second : Nat) (id : ContainerId) : ContainerId :=
  if id.index < link.here then link.names.container id
  else if id.index < first then id
  else ⟨second + (id.index - first)⟩

/-- Where two evaluations may start. -/
structure Starts (first second : Nat) : Prop where
  /-- The first one starts behind what is linked. -/
  here : link.here ≤ first
  /-- So does the second one. -/
  there : link.there ≤ second
  /-- The first one starts before the second run. -/
  before : first ≤ link.floor
  /-- The second one is of the second run. -/
  behind : link.floor ≤ second

variable {link kept} {first second : Nat}

theorem stretched_early {id : ContainerId} (early : id.index < link.here) (first second : Nat) :
    link.stretched first second id = link.names.container id :=
  if_pos early

theorem stretched_between {id : ContainerId} (behind : link.here ≤ id.index)
    (before : id.index < first) (second : Nat) : link.stretched first second id = id := by
  rw [stretched, if_neg (Nat.not_lt.mpr behind), if_pos before]

theorem stretched_late (starts : link.Starts first second) {id : ContainerId}
    (late : first ≤ id.index) : link.stretched first second id = ⟨second + (id.index - first)⟩ := by
  rw [stretched, if_neg (Nat.not_lt.mpr (Nat.le_trans starts.here late)),
    if_neg (Nat.not_lt.mpr late)]

/-- The counterpart of what is early was there before, and lies on neither side between what is
linked and what is new. -/
theorem names_early (starts : link.Starts first second) {id : ContainerId}
    (early : id.index < link.here) : (link.names.container id).index < second ∧
      ((link.names.container id).index < link.here ∨ first ≤ (link.names.container id).index) := by
  have order := Nat.le_trans starts.before starts.behind
  by_cases linked : link.linked id
  · have image := link.image id linked
    exact ⟨Nat.lt_of_lt_of_le image.2 starts.there, .inr (Nat.le_trans starts.before image.1)⟩
  · rw [link.rest id early linked]
    exact ⟨Nat.lt_of_lt_of_le early (Nat.le_trans starts.here order), .inl early⟩

/-- What is early, what lies between and what is late have their counterparts in different places.
-/
theorem index_stretched (starts : link.Starts first second) (id : ContainerId) :
    (id.index < link.here ∧ (link.stretched first second id).index < second ∧
      ((link.stretched first second id).index < link.here ∨
        first ≤ (link.stretched first second id).index)) ∨
    (link.here ≤ id.index ∧ id.index < first ∧
      (link.stretched first second id).index = id.index) ∨
    (first ≤ id.index ∧
      (link.stretched first second id).index = second + (id.index - first)) := by
  by_cases early : id.index < link.here
  · rw [stretched_early early]
    exact .inl ⟨early, names_early starts early⟩
  · have behind := Nat.le_of_not_lt early
    by_cases before : id.index < first
    · rw [stretched_between behind before]
      exact .inr (.inl ⟨behind, before, rfl⟩)
    · have late := Nat.le_of_not_lt before
      rw [stretched_late starts late]
      exact .inr (.inr ⟨late, rfl⟩)

theorem stretched_injective (starts : link.Starts first second) {id other : ContainerId}
    (same : link.stretched first second id = link.stretched first second other) : id = other := by
  by_cases early : id.index < link.here ∧ other.index < link.here
  · rw [stretched_early early.1, stretched_early early.2] at same
    exact link.names.container_injective same
  · have order := Nat.le_trans starts.before starts.behind
    have here := starts.here
    have one := index_stretched starts id
    have two := index_stretched starts other
    rw [same] at one
    exact congrArg ContainerId.mk (by omega : id.index = other.index)

/-- The renaming that goes on at the same pace. -/
def stretch (starts : link.Starts first second) : Renaming where
  base := first
  container := link.stretched first second
  function := link.names.function
  event := link.names.event
  container_injective := stretched_injective starts
  function_injective := link.names.function_injective
  event_injective := link.names.event_injective

/-- The link after two evaluations that have made the same number of containers. -/
def extend (starts : link.Starts first second) (made : Nat) : Link where
  floor := link.floor
  here := first + made
  there := second + made
  linked id := link.linked id ∨ first ≤ id.index ∧ id.index < first + made
  names := link.stretch starts
  early id linked := by
    rcases linked with old | new
    · exact Nat.lt_of_lt_of_le (link.early id old)
        (Nat.le_trans starts.here (Nat.le_add_right first made))
    · exact new.2
  image id linked := by
    change link.floor ≤ (link.stretched first second id).index ∧
      (link.stretched first second id).index < second + made
    rcases linked with old | new
    · have image := link.image id old
      rw [stretched_early (link.early id old)]
      exact ⟨image.1, Nat.lt_of_lt_of_le image.2
        (Nat.le_trans starts.there (Nat.le_add_right second made))⟩
    · have behind := starts.behind
      rw [stretched_late starts new.1]
      dsimp only
      omega
  rest id early unlinked := by
    rw [not_or] at unlinked
    change link.stretched first second id = id
    by_cases old : id.index < link.here
    · rw [stretched_early old, link.rest id old unlinked.1]
    · exact stretched_between (Nat.le_of_not_lt old) (by omega) second
  function := link.function
  event := link.event

/-- What is inside stays inside. -/
theorem inside_extend (starts : link.Starts first second) (made : Nat) {id : ContainerId}
    (inside : link.inside kept id) : (link.extend starts made).inside kept id :=
  inside.imp .inl fun early => ⟨early.1, Nat.lt_of_lt_of_le early.2
    (Nat.le_trans starts.here (Nat.le_add_right first made))⟩

theorem lt_of_inside {id : ContainerId} (inside : link.inside kept id) : id.index < link.here :=
  inside.elim (link.early id) And.right

/-- What is inside keeps its counterpart. -/
theorem value_stretch (starts : link.Starts first second) {value : Value}
    (within : value.In (link.inside kept)) :
    (link.stretch starts).value value = link.names.value value := by
  refine Renaming.value_congr ?_ ?_ ?_ within
  · exact fun _ => rfl
  · exact fun _ => rfl
  · exact fun _ inside => stretched_early (lt_of_inside inside) first second

/-- Data and whatever else is not linked stands for itself if it was there. -/
theorem stretched_unlinked {id : ContainerId} (unlinked : ¬link.linked id)
    (known : id.index < first) (second : Nat) : link.stretched first second id = id := by
  by_cases early : id.index < link.here
  · rw [stretched_early early, link.rest id early unlinked]
  · exact stretched_between (Nat.le_of_not_lt early) known second

/-- A value that refers to nothing linked stands for itself. -/
theorem value_unlinked (starts : link.Starts first second) {value : Value}
    (within : value.In fun id => ¬link.linked id ∧ id.index < first) :
    (link.stretch starts).value value = value := by
  cases value with
  | container id =>
      have place := within id rfl
      exact congrArg Value.container (stretched_unlinked place.1 place.2 second)
  | function id => exact congrArg Value.function (link.function id)
  | event id => exact congrArg Value.event (link.event id)
  | _ => rfl

/-- What is linked in two heaps of a later time holds the same in heaps of an earlier time, and so
does what is not there yet. -/
theorem Joins.contents {now nowSecond past pastSecond : Heap} (joins : link.Joins kept now nowSecond)
    (starts : link.Starts past.containers.size pastSecond.containers.size)
    (same : ∀ id, ¬kept id → id.index < past.containers.size → past.contents id = now.contents id)
    (later : pastSecond.Grows nowSecond) {id : ContainerId}
    (place : link.linked id ∨ past.containers.size ≤ id.index) :
    pastSecond.contents ((link.stretch starts).container id) =
      (link.stretch starts).contents (past.contents id) := by
  rcases place with linked | beyond
  · have early := link.early id linked
    have known := (names_early starts early).1
    have counterpart : (link.stretch starts).container id = link.names.container id :=
      stretched_early early _ _
    have before := congrArg Container.contents (later.container _ known)
    rw [counterpart, same id (joins.apart id linked) (Nat.lt_of_lt_of_le early starts.here),
      Renaming.contents_congr fun value member =>
        value_stretch starts (joins.encloses id linked value member)]
    exact before.symm.trans (joins.same id linked)
  · have counterpart : (link.stretch starts).container id =
        ⟨pastSecond.containers.size + (id.index - past.containers.size)⟩ :=
      stretched_late starts beyond
    rw [counterpart, Heap.contents, Heap.contents, Heap.container_of_size_le beyond,
      Heap.container_of_size_le (Nat.le_add_right _ _)]
    rfl

/-- Two duties that look for the same in the same expression, with bindings that correspond. -/
structure Likens (kept : ContainerId → Prop) (link : Link) (duty task : Duty) : Prop where
  /-- The expressions are the same. -/
  expr : task.expr = duty.expr
  /-- One looks for the same. -/
  glance : task.aim.glance = duty.aim.glance
  /-- The bindings correspond. -/
  bindings : task.bindings = link.names.bindings duty.bindings
  /-- They refer to what is inside. -/
  bound : ∀ entry ∈ duty.bindings.entries, entry.2.In (link.inside kept)

/-- What two evaluations leave behind that have started from what is linked: their results
correspond, and what they have made is linked as well. -/
structure Carries (kept : ContainerId → Prop) (link later : Link) (first second : Heap)
    (after afterSecond : Store) (seen seenSecond : Except Fault Sight) : Prop where
  /-- What the first evaluation has made is linked. -/
  here : later.here = after.heap.containers.size
  /-- So is what the second one has made. -/
  there : later.there = afterSecond.heap.containers.size
  /-- Linked containers hold the same. -/
  joins : later.Joins kept first second
  /-- What was inside is inside. -/
  inside : ∀ id, link.inside kept id → later.inside kept id
  /-- It has the counterpart that it had. -/
  value : ∀ value : Value, value.In (link.inside kept) →
    later.names.value value = link.names.value value
  /-- The results correspond. -/
  result : seenSecond = seen.map later.names.sight
  /-- Items that were seen are inside. -/
  items : ∀ items, seen = .ok (.items (some items)) → ∀ item ∈ items, item.In (later.inside kept)

end Link

namespace View

variable {data : ContainerId} {kept : ContainerId → Prop} {view fresh : View}
  {effect other : EffectId} {duty task : Duty} {past pastFresh after afterFresh : Store}
  {result resultFresh : Except Fault Sight} {trace traceFresh : Trace} {link : Link}

/-- What is no data has not changed since an effect looked at its expression. -/
theorem Settled.contents_past (settled : view.Settled data kept effect duty past result after trace)
    {id : ContainerId} (outside : ¬kept id) (known : id.index < past.heap.containers.size) :
    past.heap.contents id = view.store.heap.contents id := by
  have grows := settled.yields.steady.heap
  rw [settled.frozen id outside (Nat.lt_of_lt_of_le known grows.size_le)]
  exact (congrArg Container.contents (grows.container id known)).symm

/-- What an effect may get at: linked containers and the data of its time. -/
def reach (kept : ContainerId → Prop) (link : Link) (past : Store) : Reach :=
  ⟨⟨0⟩, fun id => link.linked id ∨ kept id ∧ id.index < past.heap.containers.size,
    past.heap.containers.size⟩

/-- An effect whose bindings are linked has looked at linked containers, data, and what it has
made. -/
theorem Settled.concludes (settled : view.Settled data kept effect duty past result after trace)
    (root : kept data) (plain : duty.expr.isPlain = true)
    (joins : link.Joins kept view.store.heap fresh.store.heap)
    (early : link.here ≤ past.heap.containers.size)
    (bound : ∀ entry ∈ duty.bindings.entries, entry.2.In (link.inside kept)) :
    (duty.read (σ := Page) ⟨⟨0⟩, some data⟩).Concludes (reach kept link past) (some data)
      (Sight.Within duty.aim.glance (reach kept link past)) past result after trace := by
  have widen (id : ContainerId) (inside : link.inside kept id) : (reach kept link past).held id :=
    inside.imp_right fun held => ⟨held.1, Nat.lt_of_lt_of_le held.2 early⟩
  have calm : (reach kept link past).Calm past.heap :=
    { encloses := fun id inside value member => by
        rcases inside with (linked | held) | made
        · have known := Nat.lt_of_lt_of_le (link.early id linked) early
          rw [settled.contents_past (joins.apart id linked) known] at member
          exact (joins.encloses id linked value member).mono fun other within =>
            .inl (widen other within)
        · exact (settled.encloses id held value member).mono fun other held => .inl (.inr held)
        · exact absurd made.2 (Nat.not_lt.mpr made.1)
      owner := fun id _ => settled.simple.owner id
      base := Nat.le_refl _ }
  have held : (reach kept link past).held data := .inr ⟨root, settled.data⟩
  have within (entry : String × Value) (member : entry ∈ duty.bindings.entries) :
      (reach kept link past).Holds past.heap entry.2 :=
    (bound entry member).mono fun id inside => .inl (widen id inside)
  obtain ⟨outcome, store, looked, concludes⟩ :=
    Glance.read_confined (σ := Page) duty.aim.glance held plain within past (.refl _) calm
  obtain ⟨rfl, rfl, rfl⟩ := settled.yields.unique concludes.yields
  exact concludes

/-- Data that an effect has read reads the same in any later heap. -/
theorem Settled.alike_later (settled : view.Settled data kept effect duty past result after trace)
    {later : Heap} (grows : view.store.heap.Grows later) {access : Access}
    (member : access ∈ trace.reads) (held : kept access.container)
    (known : access.container.index < past.heap.containers.size) :
    (past.heap.contents access.container).Alike (later.contents access.container) access.key := by
  have run := settled.yields.steady.heap
  have keeps := run.keeps.trans settled.keeps
  have alike := (settled.reads access member held (Nat.lt_of_lt_of_le known run.size_le)).1
  have before : after.heap.contents access.container = past.heap.contents access.container :=
    congrArg Container.contents (run.container _ known)
  have now : later.contents access.container = view.store.heap.contents access.container :=
    congrArg Container.contents (grows.container _ (Nat.lt_of_lt_of_le known keeps.size_le))
  rw [before] at alike
  rw [now]
  exact alike

/-- Where an effect looked at its expression, in two runs. -/
theorem Settled.mirrors (settled : view.Settled data kept effect duty past result after trace)
    (settledFresh : fresh.Settled data kept other task pastFresh resultFresh afterFresh traceFresh)
    (joins : link.Joins kept view.store.heap fresh.store.heap)
    (starts : link.Starts past.heap.containers.size pastFresh.heap.containers.size)
    (root : kept data) (object : view.store.heap.isArray data = false)
    (earlier : view.store.heap.Grows pastFresh.heap) (later : pastFresh.heap.Grows fresh.store.heap)
    (near : trace.Near (reach kept link past) (some data) after.heap) :
    past.heap.Mirrors (link.stretch starts) (fun access => access ∈ trace.reads)
      (fun access => access ∈ trace.probes) pastFresh.heap := by
  have keeps := settled.yields.steady.heap.keeps.trans settled.keeps
  have known := settled.data
  have unlinked {id : ContainerId} (held : kept id) : ¬link.linked id :=
    fun linked => joins.apart id linked held
  have itself {id : ContainerId} (held : kept id) (known : id.index < past.heap.containers.size) :
      (link.stretch starts).container id = id :=
    Link.stretched_unlinked (unlinked held) known _
  have contents {id : ContainerId} (place : link.linked id ∨ past.heap.containers.size ≤ id.index) :=
    joins.contents starts (fun id outside known => settled.contents_past outside known) later place
  exact
    { kind := fun id => by
        by_cases place : link.linked id ∨ past.heap.containers.size ≤ id.index
        · rw [Heap.isArray, contents place, Contents.isArray_rename, Heap.isArray]
        · rw [not_or, Nat.not_le] at place
          have same : (link.stretch starts).container id = id :=
            Link.stretched_unlinked place.1 place.2 _
          rw [same, earlier.keeps.isArray id (Nat.lt_of_lt_of_le place.2 keeps.size_le)]
          exact keeps.isArray id place.2
      owner := fun id => by rw [settledFresh.simple.owner, settled.simple.owner]
      read := fun access member => by
        have mirrored (place : link.linked access.container ∨
            past.heap.containers.size ≤ access.container.index) :
            (past.heap.contents access.container).Mirrored (link.stretch starts)
              (pastFresh.heap.contents ((link.stretch starts).container access.container))
                access.key := by
          rw [contents place]
          exact Contents.mirrored_rename _ _ _
        rcases near.reads access member with (linked | held) | made
        · exact mirrored (.inl linked)
        · have alike := settled.alike_later earlier member held.1 held.2
          rw [itself held.1 held.2]
          refine ⟨alike.value.trans (Link.value_unlinked starts ?_).symm, alike.count⟩
          exact (settled.encloses.peek held access.key).mono
            fun other inside => ⟨unlinked inside.1, inside.2⟩
        · exact mirrored (.inr made.1)
      probed := fun access probed => by
        obtain ⟨member, same⟩ := near.probes access probed
        obtain rfl := Option.some.inj same
        have alike := settled.alike_later earlier member root known
        rw [itself root known]
        refine alike.present (.inl ?_)
        exact (keeps.isArray _ known).symm.trans object
      made := fun id beyond => contents (.inr beyond)
      nextContainer := fun more => by
        refine (Link.stretched_late starts (Nat.le_add_right _ _)).trans ?_
        exact congrArg ContainerId.mk (by dsimp only; omega)
      closure := fun id => by
        rw [settledFresh.simple.closures, settled.simple.closures]
        rfl
      nextFunction := fun more => by
        rw [settledFresh.simple.closures, settled.simple.closures]
        exact link.function _
      event := fun id => by
        rw [Heap.event, Heap.event, settledFresh.simple.events, settled.simple.events]
        rfl
      eventKnown := fun id => by
        rw [settledFresh.simple.events, settled.simple.events]
        exact iff_of_false (Nat.not_lt_zero _) (Nat.not_lt_zero _) }

/-- What is known of a page and of a fresh walk over its data that has reported no fault. -/
structure Replays (data : ContainerId) (kept : ContainerId → Prop) (view fresh : View) : Prop where
  /-- The root of the data is data. -/
  root : kept data
  /-- It is an object. -/
  object : view.store.heap.isArray data = false
  /-- Expressions are plain. -/
  plain : ∀ duty ∈ view.duties, duty.expr.isPlain = true
  /-- No effect is waiting. -/
  idle : ∀ effect, ¬view.pending effect
  /-- Nor is one that the walk has made. -/
  idleFresh : ∀ effect, ¬fresh.pending effect
  /-- The walk has reported no fault. -/
  sound : ¬fresh.faulty
  /-- Its effects have looked at the data as it is now. -/
  era : ∀ past, fresh.era past →
    view.store.heap.Grows past.heap ∧ past.heap.Grows fresh.store.heap

/-- An effect of a page and its counterpart in a fresh walk see the same. -/
theorem Settled.sees (replays : Replays data kept view fresh)
    (settled : view.Settled data kept effect duty past result after trace)
    (settledFresh : fresh.Settled data kept other task pastFresh resultFresh afterFresh traceFresh)
    (joins : link.Joins kept view.store.heap fresh.store.heap) (likens : link.Likens kept duty task)
    (starts : link.Starts past.heap.containers.size pastFresh.heap.containers.size)
    (near : trace.Near (reach kept link past) (some data) after.heap) :
    resultFresh = result.map (link.stretch starts).sight ∧
      after.heap.Mirrors (link.stretch starts) (fun access => access ∈ trace.reads)
        (fun access => access ∈ trace.probes) afterFresh.heap := by
  obtain ⟨earlier, later⟩ := replays.era _ settledFresh.era
  have mirrors := settled.mirrors settledFresh joins starts replays.root replays.object earlier later
    near
  have root : ¬link.linked data := fun linked => joins.apart data linked replays.root
  have scope : (link.stretch starts).scope ⟨⟨0⟩, some data⟩ = ⟨⟨0⟩, some data⟩ :=
    congrArg (fun id => Scope.mk ⟨0⟩ (some id)) (Link.stretched_unlinked root settled.data _)
  have around : task.bindings = (link.stretch starts).bindings duty.bindings :=
    likens.bindings.trans (Renaming.mapValues_congr fun entry member =>
      (Link.value_stretch starts (likens.bound entry member)).symm)
  have read : task.read (σ := Page) ⟨⟨0⟩, some data⟩ = duty.aim.glance.read
      ((link.stretch starts).scope ⟨⟨0⟩, some data⟩) ((link.stretch starts).bindings duty.bindings)
      duty.expr := by
    rw [Duty.read, likens.glance, likens.expr, around, scope]
  have yieldsFresh := settledFresh.yields
  rw [read] at yieldsFresh
  exact (Glance.read_simulates duty.aim.glance _ _ _).yields mirrors settled.yields
    ⟨fun _ member => member, fun _ member => member, near.copied⟩ yieldsFresh

/-- What both have made is linked as well. -/
theorem Settled.joins_extend
    (settled : view.Settled data kept effect duty past result after trace)
    (settledFresh : fresh.Settled data kept other task pastFresh resultFresh afterFresh traceFresh)
    (joins : link.Joins kept view.store.heap fresh.store.heap)
    (starts : link.Starts past.heap.containers.size pastFresh.heap.containers.size) {made : Nat}
    (here : past.heap.containers.size + made = after.heap.containers.size)
    (there : pastFresh.heap.containers.size + made = afterFresh.heap.containers.size)
    (encloses : ∀ id : ContainerId, past.heap.containers.size ≤ id.index →
      id.index < after.heap.containers.size → ∀ value ∈ (after.heap.contents id).values,
        value.In ((link.extend starts made).inside kept))
    (same : ∀ id : ContainerId, past.heap.containers.size ≤ id.index →
      afterFresh.heap.contents ((link.stretch starts).container id) =
        (link.stretch starts).contents (after.heap.contents id)) :
    (link.extend starts made).Joins kept view.store.heap fresh.store.heap where
  floor := joins.floor
  apart id linked := by
    rcases linked with old | new
    · exact joins.apart id old
    · exact settled.apart id new.1 (here ▸ new.2)
  encloses id linked value member := by
    rcases linked with old | new
    · exact (joins.encloses id old value member).mono
        fun _ inside => Link.inside_extend starts made inside
    · have early : id.index < after.heap.containers.size := here ▸ new.2
      rw [settled.frozen id (settled.apart id new.1 early) early] at member
      exact encloses id new.1 early value member
  same id linked := by
    change fresh.store.heap.contents ((link.stretch starts).container id) =
      (link.stretch starts).contents _
    rcases linked with old | new
    · have counterpart : (link.stretch starts).container id = link.names.container id :=
        Link.stretched_early (link.early id old) _ _
      rw [counterpart, joins.same id old]
      exact (Renaming.contents_congr fun value member =>
        Link.value_stretch starts (joins.encloses id old value member)).symm
    · have early : id.index < after.heap.containers.size := here ▸ new.2
      have place : ((link.stretch starts).container id).index =
          pastFresh.heap.containers.size + (id.index - past.heap.containers.size) :=
        congrArg ContainerId.index (Link.stretched_late starts new.1)
      have beyond := Nat.le.intro place.symm
      have known : ((link.stretch starts).container id).index < afterFresh.heap.containers.size := by
        omega
      rw [settledFresh.frozen _ (settledFresh.apart _ beyond known) known,
        settled.frozen id (settled.apart id new.1 early) early]
      exact same id new.1

/-- What the two leave behind is linked, whatever they have made. -/
theorem Settled.carries (replays : Replays data kept view fresh)
    (settled : view.Settled data kept effect duty past result after trace)
    (settledFresh : fresh.Settled data kept other task pastFresh resultFresh afterFresh traceFresh)
    (assigned : view.duties[effect.index]? = some duty)
    (joins : link.Joins kept view.store.heap fresh.store.heap) (likens : link.Likens kept duty task)
    (here : link.here ≤ past.heap.containers.size)
    (there : link.there ≤ pastFresh.heap.containers.size) :
    ∃ later, Link.Carries kept link later view.store.heap fresh.store.heap after afterFresh result
      resultFresh := by
  have size := settled.yields.steady.heap.size_le
  have starts : link.Starts past.heap.containers.size pastFresh.heap.containers.size :=
    ⟨here, there, joins.floor ▸ Nat.le_trans size settled.keeps.size_le,
      joins.floor ▸ (replays.era _ settledFresh.era).1.size_le⟩
  have concludes := settled.concludes replays.root
    (replays.plain duty (Array.mem_of_getElem? assigned)) joins here likens.bound
  obtain ⟨seen, mirrored⟩ :=
    settled.sees replays settledFresh joins likens starts concludes.near
  -- Both have made the same number of containers.
  let made := after.heap.containers.size - past.heap.containers.size
  have madeHere : past.heap.containers.size + made = after.heap.containers.size := by omega
  have madeThere : pastFresh.heap.containers.size + made = afterFresh.heap.containers.size := by
    have next := mirrored.nextContainer 0
    rw [show (link.stretch starts).container ⟨after.heap.containers.size + 0⟩ = _ from
      Link.stretched_late starts (Nat.le_trans size (Nat.le_add_right _ _))] at next
    have index := congrArg ContainerId.index next
    dsimp only at index
    omega
  have reached {id : ContainerId} (inside : (reach kept link past).inside after.heap id) :
      (link.extend starts made).inside kept id := by
    rcases inside with (linked | held) | new
    · exact .inl (.inl linked)
    · exact .inr ⟨held.1, Nat.lt_of_lt_of_le held.2 (Nat.le_add_right _ made)⟩
    · exact .inl (.inr (madeHere ▸ new))
  exact ⟨link.extend starts made,
    { here := madeHere
      there := madeThere
      joins := settled.joins_extend settledFresh joins starts madeHere madeThere
        (fun id behind early value member =>
          (concludes.calm.encloses id (.inr ⟨behind, early⟩) value member).mono fun _ => reached)
        fun id behind => mirrored.made id behind
      inside := fun _ inside => Link.inside_extend starts made inside
      value := fun _ within => Link.value_stretch starts within
      result := seen
      items := fun items same item member =>
        Value.In.mono ((concludes.good _ same).items items rfl item member) fun _ => reached }⟩

end View

end LiveMarkup
