import LiveMarkup.Proofs.Page.Run

/-!
# New effects

Binding a directive defines an effect and runs it at once.  From then on the effect is the only one
that has to do with its element in its way.
-/

namespace LiveMarkup

namespace World

variable {config : Config} {data : ContainerId} {kept : ContainerId → Prop}
  {world after : World Page} {duties dutiesAfter : Array Duty}

/-- What is known after a new effect has got its duty and has run. -/
structure Attached (config : Config) (data : ContainerId) (kept : ContainerId → Prop)
    (world : World Page) (duties : Array Duty) (duty : Duty) (after : World Page)
    (dutiesAfter : Array Duty) (past : Store) (result : Except Fault Sight) (middle : Store)
    (trace : Trace) (parts : List Part) : Prop where
  /-- The effect has run. -/
  ran : Ran config data kept (world.define (duty.body config.binder (.over data)).toTask).2
    (duties.push duty) ⟨duties.size⟩ duty after dutiesAfter past result middle trace parts
  /-- A failure is reported. -/
  failed : ∀ fault, result = .error fault → world.faults < after.faults

theorem Sound.bodies_size (sound : world.Sound config data kept duties) :
    world.bodies.size = duties.size := by
  rw [sound.bodies, Array.size_map]

/-- Where an effect can be attached. -/
structure Attachable (config : Config) (data : ContainerId) (kept : ContainerId → Prop)
    (world : World Page) (duties : Array Duty) (duty : Duty) (low high : Nat) : Prop where
  /-- The page is sound. -/
  sound : world.Sound config data kept duties
  /-- The effect has to do with elements between two places only. -/
  place : ∀ index, duty.Occupies index → low ≤ index ∧ index < high
  /-- Its element is there. -/
  host : duty.host.index < world.dom.size
  /-- Its expression is plain. -/
  plain : duty.expr.isPlain = true
  /-- Its template stands. -/
  ready : duty.aim.Ready config.binder world.dom
  /-- Its element is in no template. -/
  free : ∀ other ∈ duties, ¬other.aim.covers duty.host.index
  /-- No effect has to do with its template. -/
  clear : ∀ other ∈ duties, ¬duty.aim.covers other.host.index
  /-- Its element is not in its template. -/
  own : ¬duty.aim.covers duty.host.index
  /-- No other effect has the same to do. -/
  vacant : ∀ other ∈ duties, other.host = duty.host → other.aim.slot ≠ duty.aim.slot
  /-- It may run. -/
  room : world.frames.length + duty.aim.nesting config.binder + 1 ≤ config.maxEffectDepth

namespace Attachable

variable {duty : Duty} {low high : Nat}

theorem define (attachable : Attachable config data kept world duties duty low high) :
    Advance config data kept low high world duties
      (world.define (duty.body config.binder (.over data)).toTask).2 (duties.push duty) :=
  have room := attachable.room
  .define attachable.sound attachable.place attachable.host attachable.plain attachable.ready
    (by omega) attachable.free attachable.clear attachable.own

/-- The effect is defined and runs. -/
theorem attach (attachable : Attachable config data kept world duties duty low high) (bound : Nat)
    (walks : ∀ template place name depth, duty.aim = .repeated template place name depth →
      Walks config data kept depth)
    (enough : config.maxEffectDepth ≤ world.frames.length + bound) :
    ∃ after dutiesAfter past result middle trace parts,
      (TaskM.createEffect ⟨0⟩ (duty.body config.binder (.over data))).Ends (runEffect bound) world
        (.ok ⟨duties.size⟩) after ∧
      Attached config data kept world duties duty after dutiesAfter past result middle trace
        parts := by
  have sound := attachable.sound
  have assigned : (duties.push duty)[(⟨duties.size⟩ : EffectId).index]? = some duty :=
    Array.getElem?_push_size
  have idle : some ⟨duties.size⟩ ∉ world.frames := fun running =>
    Nat.lt_irrefl _ (sound.running _ running)
  obtain ⟨dutiesAfter, past, result, middle, trace, parts, ran, failed⟩ :=
    attachable.define.sound.run assigned idle walks attachable.room enough
  have ends : (TaskM.createEffect ⟨0⟩ (duty.body config.binder (.over data))).Ends
      (runEffect bound) world _ _ := .createEffect ⟨0⟩ _ world
  rw [sound.bodies_size] at ends
  exact ⟨_, dutiesAfter, past, result, middle, trace, parts, ends, ran, failed⟩

end Attachable

namespace Attached

variable {duty : Duty} {low high : Nat} {past middle : Store} {result : Except Fault Sight}
  {trace : Trace} {parts : List Part}

theorem advance (attached : Attached config data kept world duties duty after dutiesAfter past result
      middle trace parts)
    (attachable : Attachable config data kept world duties duty low high) :
    Advance config data kept low high world duties after dutiesAfter := by
  have host := attachable.place duty.host.index (.inl rfl)
  exact attachable.define.trans (attached.ran.advance.mono host.1 (.inl (by omega))) (Nat.le_refl _)
    (.inl (Nat.le_refl _))

/-- The other new duties are about new elements. -/
theorem duties_eq (attached : Attached config data kept world duties duty after dutiesAfter past
      result middle trace parts) :
    ∃ more : Array Duty, dutiesAfter = duties.push duty ++ more ∧
      ∀ other ∈ more, ∀ index, other.Occupies index → world.dom.size ≤ index :=
  attached.ran.onlyNew

/-- An effect with a duty about an element that was there had it before, or is the new one. -/
theorem assigned_cases (attached : Attached config data kept world duties duty after dutiesAfter past
      result middle trace parts) {effect : EffectId} {task : Duty}
    (assigned : dutiesAfter[effect.index]? = some task) (known : task.host.index < world.dom.size) :
    duties[effect.index]? = some task ∨ effect = ⟨duties.size⟩ ∧ task = duty := by
  obtain ⟨more, rfl, beyond⟩ := attached.duties_eq
  rw [Array.getElem?_append] at assigned
  split at assigned
  next inside =>
    rw [Array.getElem?_push] at assigned
    split at assigned
    next last => exact .inr ⟨congrArg EffectId.mk last, (Option.some.inj assigned).symm⟩
    next => exact .inl assigned
  next =>
    have new := beyond task (Array.mem_of_getElem? assigned) _ (.inl rfl)
    omega

/-- The new effect serves its duty alone. -/
theorem serves (attached : Attached config data kept world duties duty after dutiesAfter past result
      middle trace parts)
    (attachable : Attachable config data kept world duties duty low high) {view : View}
    (same : view.duties = dutiesAfter) : view.Serves ⟨duties.size⟩ duty where
  assigned := by
    obtain ⟨more, rfl, _⟩ := attached.duties_eq
    rw [same, Array.getElem?_append_left (by simp), Array.getElem?_push_size]
  sole other task assigned host slot := by
    rw [same] at assigned
    have known : task.host.index < world.dom.size := host ▸ attachable.host
    rcases attached.assigned_cases assigned known with old | new
    · exact absurd slot (attachable.vacant task (Array.mem_of_getElem? old) host)
    · exact new.1

/-- No other effect has anything new to do with an element that was there. -/
theorem stays (attached : Attached config data kept world duties duty after dutiesAfter past result
      middle trace parts) {before view : View} (sameBefore : before.duties = duties)
    (same : view.duties = dutiesAfter) {id : ElementId} (known : id.index < world.dom.size)
    {slot : Slot} (differs : slot ≠ duty.aim.slot) : View.Stays before view id slot := by
  intro effect task assigned host about
  rw [same] at assigned
  rw [sameBefore]
  refine (attached.assigned_cases assigned (host ▸ known)).resolve_right fun new => ?_
  exact differs (about.symm.trans (congrArg (fun duty => duty.aim.slot) new.2))

/-- No other template than that of the new effect covers an element that was there. -/
theorem uncovered (attached : Attached config data kept world duties duty after dutiesAfter past
      result middle trace parts) {index : Nat} (known : index < world.dom.size)
    (bare : ∀ other ∈ duties, ¬other.aim.covers index) (own : ¬duty.aim.covers index) :
    ∀ other ∈ dutiesAfter, ¬other.aim.covers index := by
  obtain ⟨more, rfl, beyond⟩ := attached.duties_eq
  intro other member covers
  rcases Array.mem_append.mp member with old | new
  · rcases Array.mem_push.mp old with before | rfl
    · exact bare other before covers
    · exact own covers
  · exact Nat.not_lt.mpr (beyond other new index (.inr covers)) known

/-- The new effect is in step with the data, or it has failed and a fault was reported. -/
theorem standing (attached : Attached config data kept world duties duty after dutiesAfter past
      result middle trace parts)
    (attachable : Attachable config data kept world duties duty low high) {start : World Page}
    (earlier : start.store.Advances world.store) {since : Nat}
    (recent : since ≤ start.store.heap.containers.size) (place : Nat → Prop)
    {shows : Sight → Store → Prop} (shown : ∀ sight, result = .ok sight → shows sight middle) :
    (View.during start after dutiesAfter place).Standing data kept duty since shows := by
  have settled : (View.during start after dutiesAfter place).Settled data kept ⟨duties.size⟩ duty past
      result middle trace :=
    attached.ran.settled.advance (.refl _) fun era => ⟨earlier.heap.trans era.1, era.2⟩
  refine .settled ⟨duties.size⟩ past middle result trace (attached.serves attachable rfl) settled
    (Nat.le_trans recent settled.era.1.size_le) shown fun fault failed => ?_
  exact Nat.lt_of_le_of_lt (earlier.errors ⟨0⟩) (attached.failed fault failed)

end Attached

end World

end LiveMarkup
