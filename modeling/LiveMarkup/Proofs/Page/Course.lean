import LiveMarkup.Proofs.Page.Sound

/-!
# While a page is bound

Between the start of binding and a later page nothing is written, so whatever an effect has seen in
the meantime is still so.  What has become live stays live while other elements are bound.
-/

namespace LiveMarkup

/-- Whether an index lies between two places or is that of an element that was not there. -/
def Region (low high size index : Nat) : Prop := (low ≤ index ∧ index < high) ∨ size ≤ index

namespace View

/-- The view of a page while it is bound: no effect is waiting, all have looked at their expressions
since the start, and an effect that has failed since the start has reported a fault. -/
def during (start world : World Page) (duties : Array Duty) (place : Nat → Prop) : View where
  duties := duties
  dom := world.dom
  store := world.store
  pending _ := False
  faulty := start.faults < world.faults
  era past := start.store.heap.Grows past.heap ∧ past.heap.Grows world.store.heap
  place := place

variable {data : ContainerId} {kept : ContainerId → Prop}

/-- An effect that was in step with the data is so as long as nothing is written. -/
theorem Settled.advance {before after : View} {effect : EffectId} {duty : Duty} {past middle : Store}
    {result : Except Fault Sight} {trace : Trace}
    (settled : before.Settled data kept effect duty past result middle trace)
    (advances : before.store.Advances after.store) (era : before.era past → after.era past) :
    after.Settled data kept effect duty past result middle trace where
  yields := settled.yields
  era := era settled.era
  simple := settled.simple
  data := settled.data
  encloses := settled.encloses
  apart := settled.apart
  keeps := settled.keeps.trans advances.heap.keeps
  frozen id outside known := by
    have still := Nat.lt_of_lt_of_le known settled.keeps.size_le
    rw [Heap.contents, advances.heap.container id still]
    exact settled.frozen id outside known
  reads access member inside known := by
    have still := Nat.lt_of_lt_of_le known settled.keeps.size_le
    obtain ⟨alike, subscribed⟩ := settled.reads access member inside known
    refine ⟨?_, advances.mem_dependents still subscribed⟩
    rw [Heap.contents, Heap.contents, advances.heap.container _ still]
    exact alike

end View

namespace World

variable {config : Config} {data : ContainerId} {kept : ContainerId → Prop} {low high : Nat}
  {start later world after : World Page} {duties dutiesAfter : Array Duty}
  {place placeAfter : Nat → Prop}

theorem Advance.leads (advance : Advance config data kept low high world duties after dutiesAfter)
    (earlier : start.store.Advances later.store) (wider : ∀ index, place index → placeAfter index) :
    View.Leads data kept kept (.during later world duties place)
      (.during start after dutiesAfter placeAfter)
      (fun index => low ≤ index ∧ index < high) fun _ => False where
  duties effect duty assigned := by
    obtain ⟨more, rfl, _⟩ := advance.duties
    exact (Array.getElem?_append_left (Array.getElem?_eq_some_iff.mp assigned).1).trans assigned
  fresh effect duty assigned := by
    obtain ⟨more, rfl, occupied⟩ := advance.duties
    change (duties ++ more)[effect.index]? = some duty at assigned
    rw [Array.getElem?_append] at assigned
    split at assigned
    · exact .inl assigned
    · exact .inr (occupied duty (Array.mem_of_getElem? assigned) _ (.inl rfl))
  size := advance.size
  grown := advance.store.heap.size_le
  face id known unchanged := advance.face id known (by omega)
  settled effect duty past result middle trace settled :=
    .inl (settled.advance advance.store fun era =>
      ⟨earlier.heap.trans era.1, era.2.trans advance.store.heap⟩)
  pending _ waiting := waiting.elim
  ran _ running := running.elim
  faulty reported :=
    Nat.lt_of_le_of_lt (earlier.errors ⟨0⟩) (Nat.lt_of_lt_of_le reported (advance.store.errors ⟨0⟩))
  place := wider

/-- What is live stays live while elements elsewhere are bound. -/
theorem Advance.live (advance : Advance config data kept low high world duties after dutiesAfter)
    (earlier : start.store.Advances later.store) (wider : ∀ index, place index → placeAfter index)
    (elsewhere : ∀ index, place index → index < world.dom.size → index < low ∨ high ≤ index)
    {part : Part}
    (live : (View.during later world duties place).Live data kept config.binder part) :
    (View.during start after dutiesAfter placeAfter).Live data kept config.binder part := by
  refine live.lead (advance.leads earlier wider) fun index inside known changed => ?_
  have bounds := elsewhere index inside known
  omega

/-- Whether all duties that were added are about new elements. -/
def OnlyNew (world : World Page) (duties dutiesAfter : Array Duty) : Prop :=
  ∃ more : Array Duty, dutiesAfter = duties ++ more ∧
    ∀ duty ∈ more, ∀ index, duty.Occupies index → world.dom.size ≤ index

theorem OnlyNew.refl (world : World Page) (duties : Array Duty) : OnlyNew world duties duties :=
  ⟨#[], Array.append_empty.symm, fun _ member => absurd member (Array.not_mem_empty _)⟩

theorem OnlyNew.mono (onlyNew : OnlyNew later duties dutiesAfter)
    (grown : start.dom.size ≤ later.dom.size) : OnlyNew start duties dutiesAfter := by
  obtain ⟨more, rfl, occupied⟩ := onlyNew
  exact ⟨more, rfl, fun duty member index occupies =>
    Nat.le_trans grown (occupied duty member index occupies)⟩

theorem OnlyNew.advance {first : Array Duty} (onlyNew : OnlyNew start first duties)
    (advance : Advance config data kept low high world duties after dutiesAfter)
    (behind : start.dom.size ≤ low) (grown : start.dom.size ≤ world.dom.size) :
    OnlyNew start first dutiesAfter := by
  obtain ⟨old, rfl, occupiedOld⟩ := onlyNew
  obtain ⟨more, rfl, occupied⟩ := advance.duties
  refine ⟨old ++ more, Array.append_assoc, fun duty member index occupies => ?_⟩
  rcases Array.mem_append.mp member with before | new
  · exact occupiedOld duty before index occupies
  · have place := occupied duty new index occupies
    omega

/-! ## Where something can be bound -/

/-- Whether what stands between two places can be bound: no effect has to do with it, and effects
may be nested as deep as that takes. -/
structure Site (config : Config) (data : ContainerId) (kept : ContainerId → Prop) (bound : Nat)
    (world : World Page) (duties : Array Duty) (place count nesting since : Nat) : Prop where
  /-- The page is sound. -/
  sound : world.Sound config data kept duties
  /-- The elements are there. -/
  inside : place + count ≤ world.dom.size
  /-- No effect has to do with them. -/
  clear : ∀ duty ∈ duties, ∀ index, place ≤ index → index < place + count → ¬duty.Occupies index
  /-- Effects may be nested. -/
  room : world.frames.length + nesting + 1 ≤ config.maxEffectDepth
  /-- The bound on nested effects is no smaller than the limit. -/
  bound : config.maxEffectDepth ≤ world.frames.length + bound
  /-- Containers have been made since. -/
  since : since ≤ world.store.heap.containers.size

namespace Site

variable {bound count nesting since : Nat} {site : Nat}

/-- A tree that was built behind all elements can be bound. -/
theorem build (sound : world.Sound config data kept duties) {tree : Tree}
    {change : Dom Handler → Dom Handler} (builds : world.dom.Builds (change world.dom) tree)
    (room : world.frames.length + tree.nesting config.binder + 1 ≤ config.maxEffectDepth)
    (enough : config.maxEffectDepth ≤ world.frames.length + bound)
    (recent : since ≤ world.store.heap.containers.size) :
    Site config data kept bound (world.editDom change) duties world.dom.size tree.count
      (tree.nesting config.binder) since where
  sound := (Advance.build sound builds 0).sound
  inside := Nat.le_of_eq builds.size.symm
  clear duty member index behind _ occupies := by
    rcases occupies with rfl | covers
    · exact Nat.not_lt.mpr behind (sound.host duty member)
    · exact Nat.not_lt.mpr behind ((sound.ready duty member).lt_of_covers covers)
  room := room
  bound := enough
  since := recent

/-- A part of what stands there can be bound. -/
theorem narrow (whole : Site config data kept bound world duties site count nesting since)
    {first less fewer : Nat} (behind : site ≤ first) (ends : first + less ≤ site + count)
    (shallower : fewer ≤ nesting) :
    Site config data kept bound world duties first less fewer since where
  sound := whole.sound
  inside := Nat.le_trans ends whole.inside
  clear duty member index after before := whole.clear duty member index (by omega) (by omega)
  room := by
    have room := whole.room
    omega
  bound := whole.bound
  since := whole.since

/-- It can still be bound after something elsewhere was bound. -/
theorem advance (whole : Site config data kept bound world duties site count nesting since)
    (advance : Advance config data kept low high world duties after dutiesAfter)
    (frames : after.frames = world.frames) (elsewhere : high ≤ site ∨ site + count ≤ low) :
    Site config data kept bound after dutiesAfter site count nesting since where
  sound := advance.sound
  inside := Nat.le_trans whole.inside advance.size
  clear duty member index behind before occupies := by
    obtain ⟨more, rfl, occupied⟩ := advance.duties
    have inside := whole.inside
    rcases Array.mem_append.mp member with old | new
    · exact whole.clear duty old index behind before occupies
    · have place := occupied duty new index occupies
      omega
  room := frames ▸ whole.room
  bound := frames ▸ whole.bound
  since := Nat.le_trans whole.since advance.store.heap.size_le

end Site

/-! ## Frames -/

theorem frames_fanOut (bound : Nat) (effects : List EffectId) (world : World Page) :
    (world.fanOut (runEffect bound) ⟨0⟩ effects).frames = world.frames :=
  (fanOut_extends (runEffect_extends bound) ⟨0⟩ effects world).stack ⟨0⟩

end World

/-- Whatever ends has closed the frames that it has opened. -/
theorem TaskM.Ends.frames {α : Type} {bound : Nat} {world after : World Page}
    {computation : TaskM Page α} {result : Except Fault α}
    (ends : computation.Ends (World.runEffect bound) world result after) :
    after.frames = world.frames := by
  have extends_ := World.interpret_extends (World.runEffect_extends bound)
    (computation fun _ => .done (.ok .undefined)) world
  rw [ends fun _ => .done (.ok .undefined)] at extends_
  exact extends_.stack ⟨0⟩

end LiveMarkup
