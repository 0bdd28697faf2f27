import LiveMarkup.Proofs.Page.Walk

/-!
# Running effects again

After a write some effects are waiting.  Whoever runs is in step with the data afterwards, and shows
at its element what it has seen; everybody else is left alone.  So when all of them have run, every
element is in step with the data again, no matter in which order they have run, and no matter what
effects of elements that are gone have done meanwhile.
-/

namespace LiveMarkup

/-- The view of a page while some effects are waiting.  Effects may have failed, and they may have
looked at their expressions at any time. -/
def View.waiting (world : World Page) (duties : Array Duty) (pending : EffectId → Prop) : View where
  duties := duties
  dom := world.dom
  store := world.store
  pending := pending
  faulty := True
  era _ := True
  place _ := True

namespace Duty

/-- An effect that is not about the style of its element leaves it alone. -/
theorem faceAfter_style {duty : Duty} (slot : duty.aim.slot ≠ .style) (before : Face)
    (parts : List Part) (seen : Option Sight) :
    (duty.faceAfter before parts seen).style = before.style := by
  obtain ⟨host, bindings, expr, aim⟩ := duty
  cases aim with
  | visible => exact absurd rfl slot
  | repeated template place name depth => rfl
  | text =>
      rcases seen with _ | _ | _ | _
      all_goals rfl

theorem faceAfter_children {duty : Duty} (slot : duty.aim.slot ≠ .children) (before : Face)
    (parts : List Part) (seen : Option Sight) :
    (duty.faceAfter before parts seen).children = before.children := by
  obtain ⟨host, bindings, expr, aim⟩ := duty
  cases aim with
  | text => exact absurd rfl slot
  | repeated template place name depth => exact absurd rfl slot
  | visible =>
      rcases seen with _ | _ | _ | _
      all_goals rfl

end Duty

namespace World

variable {config : Config} {data : ContainerId} {kept : ContainerId → Prop} {low high : Nat}
  {world after : World Page} {duties dutiesAfter : Array Duty} {effect : EffectId} {duty : Duty}
  {past middle : Store} {result : Except Fault Sight} {trace : Trace} {parts : List Part}
  {pending pendingAfter : EffectId → Prop}

/-- An advance in which some of the waiting effects run. -/
theorem Advance.awaits (advance : Advance config data kept low high world duties after dutiesAfter)
    (ran : EffectId → Prop)
    (waiting : ∀ effect, pending effect → pendingAfter effect ∨ ran effect)
    (inside : ∀ effect, ran effect → ∀ duty : Duty, duties[effect.index]? = some duty →
      low ≤ duty.host.index ∧ duty.host.index < high) :
    View.Leads data kept kept (.waiting world duties pending)
      (.waiting after dutiesAfter pendingAfter) (fun index => low ≤ index ∧ index < high) ran where
  duties effect duty assigned := by
    obtain ⟨more, rfl, _⟩ := advance.duties
    exact (Array.getElem?_append_left (Array.getElem?_eq_some_iff.mp assigned).1).trans assigned
  fresh effect duty assigned := by
    obtain ⟨more, rfl, occupied⟩ := advance.duties
    change (duties ++ more)[effect.index]? = some duty at assigned
    rw [Array.getElem?_append] at assigned
    split at assigned
    · exact .inl assigned
    · exact .inr (occupied duty (Array.mem_of_getElem? assigned) _ (.inl rfl))
  size := advance.size
  grown := advance.store.heap.size_le
  face id known unchanged := advance.face id known (by omega)
  settled effect duty past result middle trace settled :=
    .inl (settled.advance advance.store fun era => era)
  pending := waiting
  ran := inside
  faulty reported := reported
  place _ inside := inside

/-- What was bound is live while no effect is waiting. -/
theorem live_waiting {start : World Page} {place : Nat → Prop} {part : Part}
    (live : (View.during start world duties place).Live data kept config.binder part)
    (pending : EffectId → Prop) :
    (View.waiting world duties pending).Live data kept config.binder part := by
  have leads : View.Leads data kept kept (.during start world duties place)
      (.waiting world duties pending) (fun _ => False) fun _ => False :=
    { duties := fun _ _ assigned => assigned
      fresh := fun _ _ assigned => .inl assigned
      size := Nat.le_refl _
      grown := Nat.le_refl _
      face := fun _ _ _ => rfl
      settled := fun _ _ _ _ _ _ settled => .inl (settled.advance (.refl _) fun _ => trivial)
      pending := fun _ waiting => waiting.elim
      ran := fun _ running => running.elim
      faulty := fun _ => trivial
      place := fun _ _ => trivial }
  exact live.lead leads fun _ _ _ => id

namespace Ran

theorem inside (assigned : duties[effect.index]? = some duty) (other : EffectId)
    (same : other = effect) (task : Duty) (assignedOther : duties[other.index]? = some task) :
    duty.host.index ≤ task.host.index ∧ task.host.index < duty.host.index + 1 := by
  subst same
  obtain rfl := Option.some.inj (assignedOther.symm.trans assigned)
  exact ⟨Nat.le_refl _, Nat.lt_succ_self _⟩

/-- Nobody but new elements gets new effects. -/
theorem stays (ran : Ran config data kept world duties effect duty after dutiesAfter past result
      middle trace parts) {id : ElementId} (known : id.index < world.dom.size) (slot : Slot) :
    View.Stays (.waiting world duties pending) (.waiting after dutiesAfter pendingAfter) id slot := by
  obtain ⟨more, rfl, beyond⟩ := ran.onlyNew
  intro other task assigned host _
  change (duties ++ more)[other.index]? = some task at assigned
  rw [Array.getElem?_append] at assigned
  split at assigned
  · exact assigned
  · have new := beyond task (Array.mem_of_getElem? assigned) _ (.inl rfl)
    rw [host] at new
    omega

/-- The effect that has run is in step with the data. -/
theorem standing (ran : Ran config data kept world duties effect duty after dutiesAfter past result
      middle trace parts) (serves : (View.waiting world duties pending).Serves effect duty)
    (known : duty.host.index < world.dom.size) {since : Nat}
    (recent : since ≤ world.store.heap.containers.size) {shows : Sight → Store → Prop}
    (shown : ∀ sight, result = .ok sight → shows sight middle) :
    (View.waiting after dutiesAfter pendingAfter).Standing data kept duty since shows := by
  have settled : (View.waiting after dutiesAfter pendingAfter).Settled data kept effect duty past
      result middle trace := ran.settled.advance (.refl _) fun _ => trivial
  have still : dutiesAfter[effect.index]? = some duty := by
    obtain ⟨more, rfl, _⟩ := ran.advance.duties
    have assigned : duties[effect.index]? = some duty := serves.assigned
    exact (Array.getElem?_append_left (Array.getElem?_eq_some_iff.mp assigned).1).trans assigned
  refine .settled effect past middle result trace ⟨still, fun other task assigned host slot => ?_⟩
    settled (Nat.le_trans recent ran.settled.era.1.size_le) shown fun _ _ => trivial
  exact serves.sole other task (ran.stays (host ▸ known) duty.aim.slot other task assigned host slot)
    host slot

/-- The style of its element is again what the `show` directive makes of it. -/
theorem style (ran : Ran config data kept world duties effect duty after dutiesAfter past result
      middle trace parts) (assigned : duties[effect.index]? = some duty)
    (known : duty.host.index < world.dom.size)
    (waiting : ∀ other, pending other → pendingAfter other ∨ other = effect) {bindings : Bindings}
    {since : Nat} (recent : since ≤ world.store.heap.containers.size) {style : Assoc String String}
    {directive : Option Directive}
    (holds : (View.waiting world duties pending).Style data kept bindings since duty.host style
      directive) :
    (View.waiting after dutiesAfter pendingAfter).Style data kept bindings since duty.host style
      directive := by
  by_cases slot : duty.aim.slot = .style
  · cases holds with
    | plain vacant => exact absurd slot (vacant effect duty assigned rfl)
    | garbled demand => exact .garbled demand trivial
    | @shown _ demand read styled standing =>
        obtain ⟨serving, serves⟩ := standing.serves
        obtain ⟨rfl, same⟩ := serves.unique assigned rfl slot
        obtain ⟨host, around, expr, aim⟩ := duty
        obtain ⟨rfl, rfl, rfl, rfl⟩ := same
        have face := congrArg Face.style ran.face
        have again (value : String) : (world.dom.face host).style.insert "display" value =
            style.insert "display" value := by
          rcases styled with same | ⟨before, same⟩
          · exact congrArg (fun style => style.insert "display" value) same
          · refine (congrArg (fun style => style.insert "display" value) same).trans ?_
            exact Assoc.insert_insert _ _ _ _
        have shown (sight : Sight) (same : result = .ok sight) : ∃ holds, sight = .truth holds ∧
            (after.dom.face host).style =
              style.insert "display" (if holds then "block" else "none") := by
          obtain ⟨holds, rfl, face⟩ := ran.truth same
          exact ⟨holds, rfl, face.trans (again _)⟩
        refine .shown read ?_ (ran.standing serves known recent shown)
        cases result with
        | ok sight =>
            obtain ⟨holds, _, same⟩ := shown sight rfl
            exact .inr ⟨_, same⟩
        | error fault =>
            change (after.dom.face host).style = (world.dom.face host).style at face
            rcases styled with same | ⟨before, same⟩
            · exact .inl (face.trans same)
            · exact .inr ⟨before, face.trans same⟩
  · refine holds.lead (ran.advance.awaits _ waiting (inside assigned)) (ran.stays known .style)
      (fun other expr serves same => ?_) ?_
    · subst same
      have same := Option.some.inj (serves.assigned.symm.trans assigned)
      exact slot (congrArg (fun duty => duty.aim.slot) same.symm)
    · change (after.dom.face duty.host).style = (world.dom.face duty.host).style
      rw [ran.face, Duty.faceAfter_style slot]

/-- Its children are again what the directive about them makes of them. -/
theorem content (ran : Ran config data kept world duties effect duty after dutiesAfter past result
      middle trace parts) (assigned : duties[effect.index]? = some duty)
    (known : duty.host.index < world.dom.size)
    (waiting : ∀ other, pending other → pendingAfter other ∨ other = effect) {bindings : Bindings}
    {since : Nat} (recent : since ≤ world.store.heap.containers.size) {children : List Tree}
    {directive : Option Directive} {before : List Part}
    (holds : (View.waiting world duties pending).Content data kept bindings since duty.host children
      directive before)
    (live : ∀ part ∈ before,
      (View.waiting after dutiesAfter pendingAfter).Live data kept config.binder part) :
    ∃ others, (View.waiting after dutiesAfter pendingAfter).Content data kept bindings since duty.host
        children directive others ∧
      ∀ part ∈ others,
        (View.waiting after dutiesAfter pendingAfter).Live data kept config.binder part := by
  by_cases slot : duty.aim.slot = .children
  · cases holds with
    | bound vacant => exact absurd slot (vacant effect duty assigned rfl)
    | bare kind read vacant => exact absurd slot (vacant effect duty assigned rfl)
    | garbled demand =>
        exact ⟨[], .garbled demand trivial, fun _ listed => absurd listed List.not_mem_nil⟩
    | @text _ demand kind read standing =>
        obtain ⟨serving, serves⟩ := standing.serves
        obtain ⟨rfl, same⟩ := serves.unique assigned rfl slot
        obtain ⟨host, around, expr, aim⟩ := duty
        obtain ⟨rfl, rfl, rfl, rfl⟩ := same
        exact ⟨[], .text kind read (ran.standing serves known recent fun sight same => ran.text same),
          fun _ listed => absurd listed List.not_mem_nil⟩
    | @repeated _ demand template rest _ place depth kind read first standing =>
        obtain ⟨serving, serves⟩ := standing.serves
        obtain ⟨rfl, same⟩ := serves.unique assigned rfl slot
        obtain ⟨host, around, expr, aim⟩ := duty
        obtain ⟨rfl, rfl, rfl, rfl⟩ := same
        exact ⟨parts, .repeated place depth kind read first
          (ran.standing serves known recent fun sight same => ran.items same),
          fun part listed => live_waiting (ran.live part listed) _⟩
  · refine ⟨before, holds.lead (ran.advance.awaits _ waiting (inside assigned))
      (ran.stays known .children) (fun other task _ serves about same => ?_) ?_, live⟩
    · subst same
      have same := Option.some.inj (serves.assigned.symm.trans assigned)
      exact slot (same ▸ about)
    · change (after.dom.face duty.host).children = (world.dom.face duty.host).children
      rw [ran.face, Duty.faceAfter_children slot]

/-- When an effect has run, every live part is still live, and the effect waits no more. -/
theorem live_rerun (ran : Ran config data kept world duties effect duty after dutiesAfter past
      result middle trace parts) (assigned : duties[effect.index]? = some duty)
    (waiting : ∀ other, pending other → pendingAfter other ∨ other = effect) {part : Part}
    (live : (View.waiting world duties pending).Live data kept config.binder part) :
    (View.waiting after dutiesAfter pendingAfter).Live data kept config.binder part := by
  refine live.map (ran.advance.awaits _ waiting (inside assigned)) ?_
  intro tag attributes style children bindings since id before changed node below
  obtain rfl : id = duty.host := by
    obtain ⟨index⟩ := id
    obtain ⟨⟨host⟩, _, _, _⟩ := duty
    exact congrArg ElementId.mk (by dsimp only at changed; omega)
  have face := ran.face
  obtain ⟨others, content, liveOthers⟩ :=
    ran.content assigned node.known waiting node.recent node.content below
  refine ⟨others, ?_, liveOthers⟩
  exact
    { known := Nat.lt_of_lt_of_le node.known ran.advance.size
      place := trivial
      recent := Nat.le_trans node.recent ran.advance.store.heap.size_le
      sameTag := by
        refine (congrArg Face.tag face).trans ((Duty.faceAfter_tag _ _ _ _).trans node.sameTag)
      sameAttributes := by
        refine (congrArg Face.attributes face).trans
          ((Duty.faceAfter_attributes _ _ _ _).trans node.sameAttributes)
      style := ran.style assigned node.known waiting node.recent node.style
      content := content }

end Ran

/-! ## Waiting effects -/

/-- An effect that has no duty does nothing. -/
theorem Sound.unassigned (sound : world.Sound config data kept duties)
    (unassigned : duties[effect.index]? = none) (bound : Nat) :
    Advance config data kept 0 0 world duties (world.fanOut (runEffect bound) ⟨0⟩ [effect])
      duties := by
  have refused (fault : Fault)
      (same : runEffect bound ⟨0⟩ effect world = (.error fault, world)) :
      Advance config data kept 0 0 world duties (world.fanOut (runEffect bound) ⟨0⟩ [effect])
        duties := by
    rw [fanOut_singleton same]
    exact .noting sound _ 0 0
  cases allowed : world.refusal? ⟨0⟩ effect with
  | some fault =>
      refine refused (.reactive fault) ?_
      cases bound <;> rw [runEffect, allowed]
  | none =>
      cases bound with
      | zero => exact refused _ (by rw [runEffect, allowed])
      | succ bound =>
          have body : world.body effect = .done (.ok .undefined) := by
            rw [World.body, sound.bodies, Array.getElem?_map, unassigned]
            rfl
          have ran : runEffect (bound + 1) ⟨0⟩ effect world =
              (.ok (), (world.begin ⟨0⟩ effect).leave ⟨0⟩) := by
            rw [runEffect, allowed]
            dsimp only
            rw [body]
            rfl
          rw [fanOut_singleton ran]
          have frames : ((world.begin ⟨0⟩ effect).leave ⟨0⟩).frames = world.frames := by
            refine (stack_leave _ ⟨0⟩ ⟨0⟩).trans ?_
            have here : (⟨0⟩ : TrackerId) = ⟨0⟩ ∧ (world.begin ⟨0⟩ effect).store.HasTracker ⟨0⟩ := by
              refine ⟨rfl, ?_⟩
              rw [Store.HasTracker, (advances_begin world effect).trackers]
              exact sound.hasTracker
            rw [if_pos here]
            exact congrArg List.tail (sound.frames_begin effect)
          refine .ofStore sound ((advances_begin world effect).trans (advances_leave _))
            sound.simple.owner (fun other running => .inl ?_) 0 0
          rw [← frames]
          exact running

variable (config data kept) (part : Part)

/-- A page in which a part is live but for some waiting effects, while no effect is running. -/
structure InStep (pending : EffectId → Prop) (world : World Page) (duties : Array Duty) : Prop where
  /-- The page is sound. -/
  sound : world.Sound config data kept duties
  /-- No effect is running. -/
  idle : world.frames = []
  /-- The part is live. -/
  live : (View.waiting world duties pending).Live data kept config.binder part

variable {config data kept part}

namespace InStep

theorem weaken (inStep : InStep config data kept part pending world duties)
    (weaker : ∀ effect, pending effect → pendingAfter effect) :
    InStep config data kept part pendingAfter world duties where
  sound := inStep.sound
  idle := inStep.idle
  live := by
    have leads := (Advance.refl inStep.sound 0 0).awaits (fun _ => False)
      (fun effect waiting => .inl (weaker effect waiting)) fun _ running => running.elim
    exact inStep.live.lead leads fun index _ _ inside => Nat.not_lt_zero index inside.2

/-- Something else is bound behind all elements. -/
theorem advance {high : Nat} (inStep : InStep config data kept part pending world duties)
    (advance : Advance config data kept world.dom.size high world duties after dutiesAfter)
    (idle : after.frames = []) : InStep config data kept part pending after dutiesAfter where
  sound := advance.sound
  idle := idle
  live := by
    have leads := advance.awaits (fun _ => False) (fun effect (waiting : pending effect) =>
      .inl waiting) fun _ running => running.elim
    exact inStep.live.lead leads fun index _ known changed => Nat.not_lt.mpr changed.1 known

/-- One effect runs. -/
theorem run (inStep : InStep config data kept part pending world duties) (effect : EffectId)
    (pendingAfter : EffectId → Prop) {bound : Nat} (enough : config.maxEffectDepth ≤ bound)
    (waiting : ∀ other, pending other → pendingAfter other ∨ other = effect) :
    ∃ dutiesAfter,
      InStep config data kept part pendingAfter (world.fanOut (runEffect bound) ⟨0⟩ [effect])
        dutiesAfter ∧
      world.store.Advances (world.fanOut (runEffect bound) ⟨0⟩ [effect]).store := by
  have frames := (frames_fanOut bound [effect] world).trans inStep.idle
  have none : world.frames.length = 0 := congrArg List.length inStep.idle
  cases assigned : duties[effect.index]? with
  | some duty =>
      have room := inStep.sound.room duty (Array.mem_of_getElem? assigned)
      have idle : some effect ∉ world.frames := by
        rw [inStep.idle]
        exact List.not_mem_nil
      obtain ⟨dutiesAfter, past, result, middle, trace, parts, ran, _⟩ :=
        inStep.sound.run assigned idle (fun _ _ _ depth _ => walks config data kept depth)
          (by omega) (by omega : config.maxEffectDepth ≤ world.frames.length + bound)
      exact ⟨dutiesAfter, ⟨ran.advance.sound, frames, ran.live_rerun assigned waiting inStep.live⟩,
        ran.advance.store⟩
  | none =>
      have advance := inStep.sound.unassigned assigned bound
      have leads := advance.awaits _ waiting fun other same duty assignedOther => by
        rw [same, assigned] at assignedOther
        contradiction
      exact ⟨duties, ⟨advance.sound, frames, inStep.live.lead leads fun index _ _ inside =>
        Nat.not_lt_zero index inside.2⟩, advance.store⟩

/-- Effects run one after another. -/
theorem fanOut (effects : List EffectId) (pending : EffectId → Prop) {bound : Nat}
    (enough : config.maxEffectDepth ≤ bound)
    (inStep : InStep config data kept part (fun effect => effect ∈ effects ∨ pending effect) world
      duties) :
    ∃ dutiesAfter,
      InStep config data kept part pending (world.fanOut (runEffect bound) ⟨0⟩ effects)
        dutiesAfter ∧
      world.store.Advances (world.fanOut (runEffect bound) ⟨0⟩ effects).store := by
  induction effects generalizing world duties with
  | nil =>
      refine ⟨duties, inStep.weaken fun effect waiting => ?_, .refl _⟩
      exact waiting.resolve_left List.not_mem_nil
  | cons effect rest ih =>
      obtain ⟨dutiesBetween, between, first⟩ := inStep.run effect
        (fun other => other ∈ rest ∨ pending other) enough fun other waiting => by
          rcases waiting with listed | later
          · exact (List.mem_cons.mp listed).symm.imp_left .inl
          · exact .inl (.inr later)
      obtain ⟨dutiesAfter, after, second⟩ := ih between
      exact ⟨dutiesAfter, after, first.trans second⟩

/-- When all have been told of what has changed, no effect is waiting. -/
theorem tell (changed : List Access) {bound : Nat} (enough : config.maxEffectDepth ≤ bound)
    {written : Store}
    (known : ∀ access ∈ changed, access.container.index < written.heap.containers.size)
    (advances : written.Advances world.store)
    (inStep : InStep config data kept part
      (fun effect => ∃ access ∈ changed, effect ∈ written.dependents access) world duties) :
    ∃ dutiesAfter,
      InStep config data kept part (fun _ => False) (changed.foldl (trigger (runEffect bound)) world)
        dutiesAfter ∧
      world.store.Advances (changed.foldl (trigger (runEffect bound)) world).store := by
  induction changed generalizing world duties with
  | nil =>
      refine ⟨duties, inStep.weaken fun effect waiting => ?_, .refl _⟩
      obtain ⟨access, listed, _⟩ := waiting
      exact List.not_mem_nil listed
  | cons access rest ih =>
      have here := known access List.mem_cons_self
      obtain ⟨dutiesBetween, between, first⟩ := InStep.fanOut (world.store.dependents access)
        (fun effect => ∃ other ∈ rest, effect ∈ written.dependents other) enough
        (inStep.weaken fun effect waiting => by
          obtain ⟨other, listed, subscribed⟩ := waiting
          rcases List.mem_cons.mp listed with rfl | later
          · exact .inl (advances.mem_dependents here subscribed)
          · exact .inr ⟨other, later, subscribed⟩)
      have owner := inStep.sound.simple.owner access.container
      obtain ⟨dutiesAfter, after, second⟩ :=
        ih (fun other listed => known other (List.mem_cons_of_mem _ listed)) (advances.trans first)
          between
      rw [List.foldl_cons, trigger, owner]
      exact ⟨dutiesAfter, after, first.trans second⟩

end InStep

end World

end LiveMarkup
