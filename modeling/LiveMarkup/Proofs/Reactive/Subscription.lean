import LiveMarkup.Proofs.Heap.Ownership

/-!
# Subscriptions

A read counts for the effect in the innermost frame of its container's tracker, and nothing but a
read adds a subscription.  The main statement lists the subscriptions after some reads: those that
were there, and the reads themselves for the effect in front.
-/

namespace LiveMarkup

namespace Tracker

theorem subscribe_of_mem {tracker : Tracker} {access : Access} {effect : EffectId}
    (present : effect ∈ tracker.dependents access) : tracker.subscribe access effect = tracker :=
  if_pos (Array.contains_iff_mem.mpr present)

theorem subscribe_of_not_mem {tracker : Tracker} {access : Access} {effect : EffectId}
    (absent : effect ∉ tracker.dependents access) :
    tracker.subscribe access effect =
      { tracker with
        subscriptions :=
          tracker.subscriptions.insert access ((tracker.dependents access).push effect) } :=
  if_neg fun present => absent (Array.contains_iff_mem.mp present)

theorem mem_dependents_subscribe {tracker : Tracker} {access other : Access}
    {effect subscriber : EffectId} :
    subscriber ∈ (tracker.subscribe access effect).dependents other ↔
      subscriber ∈ tracker.dependents other ∨ other = access ∧ subscriber = effect := by
  by_cases present : effect ∈ tracker.dependents access
  · rw [subscribe_of_mem present]
    constructor
    · exact .inl
    · rintro (old | ⟨rfl, rfl⟩)
      · exact old
      · exact present
  · rw [subscribe_of_not_mem present, dependents, Std.HashMap.getD_insert]
    by_cases same : access = other
    · subst same
      simp [dependents]
    · have differs : ¬other = access := fun equal => same equal.symm
      simp [same, differs, dependents]

theorem subscribe_eq (tracker : Tracker) (access : Access) (effect : EffectId) :
    ∃ subscriptions,
      tracker.subscribe access effect = { tracker with subscriptions := subscriptions } := by
  by_cases present : effect ∈ tracker.dependents access
  · exact ⟨tracker.subscriptions, subscribe_of_mem present⟩
  · exact ⟨_, subscribe_of_not_mem present⟩

/-- Counting a read changes nothing but the subscriptions. -/
theorem track_eq (tracker : Tracker) (access : Access) :
    ∃ subscriptions, tracker.track access = { tracker with subscriptions := subscriptions } := by
  unfold track
  split
  next effect running => exact subscribe_eq tracker access effect
  next idle => exact ⟨tracker.subscriptions, rfl⟩

/-- A read subscribes the running effect to what it reads. -/
theorem mem_dependents_track {tracker : Tracker} {access other : Access} {subscriber : EffectId} :
    subscriber ∈ (tracker.track access).dependents other ↔
      subscriber ∈ tracker.dependents other ∨
        other = access ∧ tracker.current = some subscriber := by
  unfold track
  split
  next effect running =>
    rw [mem_dependents_subscribe, running]
    simp only [Option.some.injEq, eq_comm]
  next idle => simp [idle]

@[simp] theorem stack_track (tracker : Tracker) (access : Access) :
    (tracker.track access).stack = tracker.stack := by
  obtain ⟨_, tracked⟩ := track_eq tracker access
  rw [tracked]

@[simp] theorem current_track (tracker : Tracker) (access : Access) :
    (tracker.track access).current = tracker.current := by
  rw [current, stack_track, current]

@[simp] theorem config_track (tracker : Tracker) (access : Access) :
    (tracker.track access).config = tracker.config := by
  obtain ⟨_, tracked⟩ := track_eq tracker access
  rw [tracked]

@[simp] theorem errors_track (tracker : Tracker) (access : Access) :
    (tracker.track access).errors = tracker.errors := by
  obtain ⟨_, tracked⟩ := track_eq tracker access
  rw [tracked]

/-- Where no read is followed, nothing is subscribed. -/
theorem track_of_idle {tracker : Tracker} (idle : tracker.current = none) (access : Access) :
    tracker.track access = tracker := by
  simp only [track, idle]

end Tracker

namespace Store

/-- Whether an identifier refers to a tracker. -/
def HasTracker (store : Store) (id : TrackerId) : Prop := id.index < store.trackers.size

instance (store : Store) (id : TrackerId) : Decidable (store.HasTracker id) :=
  inferInstanceAs (Decidable (id.index < store.trackers.size))

theorem tracker_modifyTracker (store : Store) (id other : TrackerId) (change : Tracker → Tracker) :
    (store.modifyTracker id change).tracker other =
      if other = id ∧ store.HasTracker id then change (store.tracker other)
      else store.tracker other := by
  simp only [tracker, modifyTracker, HasTracker, Array.getElem?_modify]
  by_cases same : other = id
  · subst same
    by_cases known : other.index < store.trackers.size
    · simp [known]
    · simp [known]
  · have differs : ¬id.index = other.index := fun equal =>
      same (by cases id; cases other; simp_all)
    simp [same, differs]

@[simp] theorem heap_modifyTracker (store : Store) (id : TrackerId) (change : Tracker → Tracker) :
    (store.modifyTracker id change).heap = store.heap := rfl

@[simp] theorem runs_modifyTracker (store : Store) (id : TrackerId) (change : Tracker → Tracker) :
    (store.modifyTracker id change).runs = store.runs := rfl

@[simp] theorem size_modifyTracker (store : Store) (id : TrackerId) (change : Tracker → Tracker) :
    (store.modifyTracker id change).trackers.size = store.trackers.size := by
  simp [modifyTracker]

/-- A property that a change of a tracker keeps holds of every tracker as before. -/
theorem tracker_modifyTracker_eq {α : Type} {store : Store} {id : TrackerId}
    (observe : Tracker → α) (change : Tracker → Tracker)
    (keeps : ∀ tracker, observe (change tracker) = observe tracker) (other : TrackerId) :
    observe ((store.modifyTracker id change).tracker other) = observe (store.tracker other) := by
  rw [tracker_modifyTracker]
  split
  · exact keeps _
  · rfl

theorem mem_dependents {store : Store} {access : Access} {effect : EffectId} :
    effect ∈ store.dependents access ↔
      effect ∈ (store.tracker (store.heap.owner access.container)).dependents access :=
  Array.mem_toList_iff

/-! ## Counting reads -/

@[simp] theorem heap_trackOne (store : Store) (access : Access) :
    (store.trackOne access).heap = store.heap := rfl

@[simp] theorem runs_trackOne (store : Store) (access : Access) :
    (store.trackOne access).runs = store.runs := rfl

/-- Counting one read adds a subscription exactly for the effect in front of the tracker. -/
theorem mem_dependents_trackOne {store : Store} {access other : Access} {effect : EffectId} :
    effect ∈ (store.trackOne access).dependents other ↔
      effect ∈ store.dependents other ∨
        other = access ∧ store.HasTracker (store.heap.owner access.container) ∧
          (store.tracker (store.heap.owner access.container)).current = some effect := by
  rw [mem_dependents, mem_dependents, heap_trackOne, trackOne, tracker_modifyTracker]
  split
  next here =>
    rw [Tracker.mem_dependents_track, ← here.1]
    constructor
    · rintro (old | ⟨rfl, current⟩)
      · exact .inl old
      · exact .inr ⟨rfl, here.1 ▸ here.2, current⟩
    · rintro (old | ⟨rfl, _, current⟩)
      · exact .inl old
      · exact .inr ⟨rfl, current⟩
  next elsewhere =>
    constructor
    · exact .inl
    · rintro (old | ⟨rfl, known, _⟩)
      · exact old
      · exact absurd ⟨rfl, known⟩ elsewhere

@[simp] theorem track_empty (store : Store) : store.track #[] = store := rfl

theorem track_eq_foldl (store : Store) (reads : Array Access) :
    store.track reads = reads.toList.foldl trackOne store := by
  rw [track, Array.foldl_toList]

theorem track_append (store : Store) (first second : Array Access) :
    store.track (first ++ second) = (store.track first).track second := by
  simp only [track_eq_foldl, Array.toList_append, List.foldl_append]

/-- What counting one read leaves alone is left alone by counting many. -/
theorem track_keeps {α : Type} (observe : Store → α)
    (keeps : ∀ store access, observe (trackOne store access) = observe store) (store : Store)
    (reads : Array Access) : observe (store.track reads) = observe store := by
  rw [track_eq_foldl]
  induction reads.toList generalizing store with
  | nil => rfl
  | cons access rest ih => rw [List.foldl_cons, ih, keeps]

@[simp] theorem heap_track (store : Store) (reads : Array Access) :
    (store.track reads).heap = store.heap :=
  track_keeps Store.heap (fun _ _ => rfl) store reads

@[simp] theorem runs_track (store : Store) (reads : Array Access) :
    (store.track reads).runs = store.runs :=
  track_keeps Store.runs (fun _ _ => rfl) store reads

@[simp] theorem size_track (store : Store) (reads : Array Access) :
    (store.track reads).trackers.size = store.trackers.size :=
  track_keeps (fun store => store.trackers.size)
    (fun store _ => size_modifyTracker store _ _) store reads

/-- What every tracker keeps when a read is counted is kept when many are. -/
theorem tracker_track_eq {α : Type} (observe : Tracker → α)
    (keeps : ∀ tracker access, observe (Tracker.track tracker access) = observe tracker)
    (store : Store) (reads : Array Access) (id : TrackerId) :
    observe ((store.track reads).tracker id) = observe (store.tracker id) :=
  track_keeps (fun store => observe (store.tracker id))
    (fun _ access => tracker_modifyTracker_eq observe (fun tracker => tracker.track access)
      (fun tracker => keeps tracker access) id) store reads

@[simp] theorem stack_tracker_track (store : Store) (reads : Array Access) (id : TrackerId) :
    ((store.track reads).tracker id).stack = (store.tracker id).stack :=
  tracker_track_eq Tracker.stack Tracker.stack_track store reads id

@[simp] theorem current_tracker_track (store : Store) (reads : Array Access) (id : TrackerId) :
    ((store.track reads).tracker id).current = (store.tracker id).current :=
  tracker_track_eq Tracker.current Tracker.current_track store reads id

@[simp] theorem config_tracker_track (store : Store) (reads : Array Access) (id : TrackerId) :
    ((store.track reads).tracker id).config = (store.tracker id).config :=
  tracker_track_eq Tracker.config Tracker.config_track store reads id

@[simp] theorem errors_tracker_track (store : Store) (reads : Array Access) (id : TrackerId) :
    ((store.track reads).tracker id).errors = (store.tracker id).errors :=
  tracker_track_eq Tracker.errors Tracker.errors_track store reads id

/-- After some reads the subscriptions are those before, and the reads themselves for the effect in
front of their tracker. -/
theorem mem_dependents_track {store : Store} {reads : Array Access} {access : Access}
    {effect : EffectId} :
    effect ∈ (store.track reads).dependents access ↔
      effect ∈ store.dependents access ∨
        access ∈ reads ∧ store.HasTracker (store.heap.owner access.container) ∧
          (store.tracker (store.heap.owner access.container)).current = some effect := by
  rw [track_eq_foldl, ← Array.mem_toList_iff]
  induction reads.toList generalizing store with
  | nil => simp
  | cons read rest ih =>
      have current : ((store.trackOne read).tracker
          (store.heap.owner access.container)).current =
            (store.tracker (store.heap.owner access.container)).current :=
        tracker_modifyTracker_eq Tracker.current (fun tracker => tracker.track read)
          (fun tracker => Tracker.current_track tracker read) _
      have trackers : (store.trackOne read).HasTracker (store.heap.owner access.container) ↔
          store.HasTracker (store.heap.owner access.container) := by
        rw [HasTracker, trackOne, size_modifyTracker, HasTracker]
      rw [List.foldl_cons, ih, mem_dependents_trackOne, heap_trackOne, current, trackers,
        List.mem_cons]
      constructor
      · rintro ((old | ⟨rfl, known, running⟩) | ⟨later, known, running⟩)
        · exact .inl old
        · exact .inr ⟨.inl rfl, known, running⟩
        · exact .inr ⟨.inr later, known, running⟩
      · rintro (old | ⟨rfl | later, known, running⟩)
        · exact .inl (.inl old)
        · exact .inl (.inr ⟨rfl, known, running⟩)
        · exact .inr ⟨later, known, running⟩

/-- Reads outside every effect leave no trace. -/
theorem track_of_idle {store : Store}
    (idle : ∀ id, (store.tracker id).current = none) (reads : Array Access) :
    ∀ id, ((store.track reads).tracker id) = store.tracker id := by
  intro id
  rw [track_eq_foldl]
  induction reads.toList generalizing store with
  | nil => rfl
  | cons read rest ih =>
      have unchanged (id : TrackerId) : (store.trackOne read).tracker id = store.tracker id := by
        rw [trackOne, tracker_modifyTracker]
        split
        · exact Tracker.track_of_idle (idle id) read
        · rfl
      rw [List.foldl_cons, ih (fun id => by rw [unchanged]; exact idle id), unchanged]

/-! ## Reads that are counted already -/

theorem modifyTracker_self {store : Store} {id : TrackerId} {change : Tracker → Tracker}
    (same : change (store.tracker id) = store.tracker id) : store.modifyTracker id change = store := by
  refine congrArg (fun trackers => ({ store with trackers } : Store)) (Array.ext (by simp) ?_)
  intro index _ known
  rw [Array.getElem_modify]
  split
  next here =>
    subst here
    have named : store.tracker id = store.trackers[id.index] := by simp [tracker, known]
    exact named ▸ same
  next => rfl

/-- A read that is counted already changes nothing. -/
theorem trackOne_of_mem {store : Store} {access : Access}
    (counted : ∀ effect, (store.tracker (store.heap.owner access.container)).current = some effect →
      effect ∈ store.dependents access) : store.trackOne access = store := by
  refine modifyTracker_self ?_
  rw [Tracker.track]
  split
  next effect running =>
    exact Tracker.subscribe_of_mem (Array.mem_toList_iff.mp (counted effect running))
  next => rfl

theorem hasTracker_of_current {store : Store} {id : TrackerId} {effect : EffectId}
    (running : (store.tracker id).current = some effect) : store.HasTracker id := by
  refine Nat.lt_of_not_le fun unknown => ?_
  have missing : store.tracker id = default := by
    rw [tracker, Array.getElem?_eq_none unknown, Option.getD_none]
  rw [missing] at running
  exact nomatch running

/-- Counting the same reads once more changes nothing. -/
theorem track_twice (store : Store) (reads : Array Access) :
    (store.track reads).track reads = store.track reads := by
  have counted (access : Access) (member : access ∈ reads) (effect : EffectId)
      (running : ((store.track reads).tracker ((store.track reads).heap.owner access.container)).current =
        some effect) : effect ∈ (store.track reads).dependents access := by
    rw [current_tracker_track, heap_track] at running
    exact mem_dependents_track.mpr (.inr ⟨member, hasTracker_of_current running, running⟩)
  generalize store.track reads = followed at counted
  rw [track_eq_foldl]
  simp only [← Array.mem_toList_iff] at counted
  generalize reads.toList = row at counted
  induction row with
  | nil => rfl
  | cons read rest ih =>
      rw [List.foldl_cons, trackOne_of_mem (counted read List.mem_cons_self)]
      exact ih fun access member => counted access (List.mem_cons_of_mem _ member)
end Store

end LiveMarkup
