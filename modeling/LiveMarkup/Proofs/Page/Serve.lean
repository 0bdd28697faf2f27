import LiveMarkup.Proofs.Directive.Serving
import LiveMarkup.Proofs.Page.Attach

/-!
# Serving directives

The directives of an element are served one after another.  A directive that can be read attaches an
effect; one that cannot is reported.  What is known after some of them were served is known with the
next one too.
-/

namespace LiveMarkup

/-- An element of a tree at its place, with the bindings around it. -/
structure Spot where
  /-- Its tag. -/
  tag : String
  /-- Its attributes. -/
  attributes : Assoc String String
  /-- Its inline style. -/
  style : Assoc String String
  /-- What stands below it. -/
  children : List Tree
  /-- The bindings around it. -/
  bindings : Bindings
  /-- The number of containers from which on it is bound. -/
  since : Nat
  /-- Its place. -/
  place : Nat

namespace Spot

/-- The element. -/
def id (spot : Spot) : ElementId := ⟨spot.place⟩

/-- The place behind everything below it. -/
def high (spot : Spot) : Nat := spot.place + 1 + Tree.countAll spot.children

/-- How the element is seen while it is bound. -/
def view (spot : Spot) (start world : World Page) (duties : Array Duty) : View :=
  .during start world duties (Region spot.place spot.high start.dom.size)

/-- How that is seen which stands below it. -/
def below (spot : Spot) (start world : World Page) (duties : Array Duty) : View :=
  .during start world duties (Region (spot.place + 1) spot.high start.dom.size)

variable (config : Config) (data : ContainerId) (kept : ContainerId → Prop) (spot : Spot)

/-- Whether what stood below an element stands there still, and no effect has to do with it. -/
structure Untouched (world : World Page) (duties : Array Duty) : Prop where
  /-- It stands. -/
  stands : world.dom.StandsAll spot.children (spot.place + 1)
  /-- No effect has to do with it. -/
  clear : ∀ duty ∈ duties, ∀ index, spot.place < index → index < spot.high → ¬duty.Occupies index

variable (start : World Page) (first : Array Duty) (world : World Page) (duties : Array Duty)

/-- What has become of the children of an element, given the directive about them that was served
and whether they are still to be bound. -/
inductive Offspring : Option Directive → Descent → Prop
  /-- Nothing has happened. -/
  | free (vacant : (spot.view start world duties).Vacant spot.id .children)
      (same : (world.dom.face spot.id).children = Tree.rowAt (spot.place + 1) spot.children)
      (untouched : spot.Untouched world duties) : Offspring none .children
  /-- A text stands in their place, or it could not be found. -/
  | text {directive : Directive}
      (content : (spot.view start world duties).Content data kept spot.bindings spot.since spot.id
        spot.children (some directive) [])
      (same : (world.dom.face spot.id).children = Tree.rowAt (spot.place + 1) spot.children ∨
        ∃ text, (world.dom.face spot.id).children = Dom.textRow text)
      (untouched : spot.Untouched world duties) : Offspring (some directive) .children
  /-- A list stands in their place. -/
  | claimed {directive : Directive} (parts : List Part)
      (content : (spot.view start world duties).Content data kept spot.bindings spot.since spot.id
        spot.children (some directive) parts)
      (live : ∀ part ∈ parts, (spot.below start world duties).Live data kept config.binder part) :
      Offspring (some directive) .claimed

/-- An element after some of its directives were served. -/
structure Serving (served : List Directive) (descent : Descent) : Prop where
  /-- Nothing else has changed. -/
  advance : World.Advance config data kept spot.place spot.high start first world duties
  /-- No frame was left open. -/
  frames : world.frames = start.frames
  /-- The element has its tag. -/
  sameTag : (world.dom.face spot.id).tag = spot.tag
  /-- It has its attributes. -/
  sameAttributes : (world.dom.face spot.id).attributes = spot.attributes
  /-- It stands in no template. -/
  bare : ∀ duty ∈ duties, ¬duty.aim.covers spot.place
  /-- It has the style that it is to have. -/
  style : (spot.view start world duties).Style data kept spot.bindings spot.since spot.id spot.style
    (Directive.about? .style served)
  /-- Its children are what they are to be. -/
  content : spot.Offspring config data kept start world duties (Directive.about? .children served)
    descent

variable {config data kept spot start first world duties} {after : World Page}
  {dutiesAfter : Array Duty}

theorem Untouched.step (untouched : spot.Untouched world duties)
    (step : World.Advance config data kept spot.place (spot.place + 1) world duties after dutiesAfter)
    (inside : spot.high ≤ world.dom.size) : spot.Untouched after dutiesAfter where
  stands := untouched.stands.of_faces _ _ fun id behind before => by
    unfold high at inside
    exact step.face id (by omega) (by omega)
  clear duty member index behind before occupies := by
    obtain ⟨more, rfl, occupied⟩ := step.duties
    rcases Array.mem_append.mp member with old | new
    · exact untouched.clear duty old index behind before occupies
    · have place := occupied duty new index occupies
      omega

theorem Offspring.step {about : Option Directive} {descent : Descent}
    (offspring : spot.Offspring config data kept start world duties about descent)
    (step : World.Advance config data kept spot.place (spot.place + 1) world duties after dutiesAfter)
    (inside : spot.high ≤ start.dom.size) (grown : start.dom.size ≤ world.dom.size)
    (stays : View.Stays (spot.view start world duties) (spot.view start after dutiesAfter) spot.id
      .children)
    (same : (after.dom.face spot.id).children = (world.dom.face spot.id).children) :
    spot.Offspring config data kept start after dutiesAfter about descent := by
  have leads := step.leads (.refl start.store) fun index
    (region : Region spot.place spot.high start.dom.size index) => region
  have insideNow := Nat.le_trans inside grown
  cases offspring with
  | free vacant shown untouched =>
      exact .free (vacant.lead stays) (same.trans shown) (untouched.step step insideNow)
  | text content shown untouched =>
      refine .text (content.lead leads stays (fun _ _ _ _ _ running => running) same) ?_
        (untouched.step step insideNow)
      rw [same]
      exact shown
  | claimed parts content live =>
      refine .claimed parts (content.lead leads stays (fun _ _ _ _ _ running => running) same)
        fun part listed => ?_
      have place : spot.place < spot.high := by
        unfold high
        omega
      refine step.live (.refl start.store) (fun _ region => region) (fun index region _ => ?_)
        (live part listed)
      rcases region with ⟨behind, _⟩ | beyond <;> omega

namespace Serving

variable {served : List Directive} {descent : Descent} {directive : Directive}

theorem grown (serving : spot.Serving config data kept start first world duties served descent) :
    start.dom.size ≤ world.dom.size :=
  serving.advance.size

/-- A directive about nothing changes nothing. -/
theorem skip (serving : spot.Serving config data kept start first world duties served descent)
    (nothing : directive.kind.slot? = none) :
    spot.Serving config data kept start first world duties (served ++ [directive]) descent :=
  { serving with
    style := by
      rw [Directive.about?_append_of_ne (by simp [nothing])]
      exact serving.style
    content := by
      rw [Directive.about?_append_of_ne (by simp [nothing])]
      exact serving.content }

theorem keepStyle (serving : spot.Serving config data kept start first world duties served descent)
    {low high : Nat} (step : World.Advance config data kept low high world duties after dutiesAfter)
    (stays : View.Stays (spot.view start world duties) (spot.view start after dutiesAfter) spot.id
      .style)
    (same : (after.dom.face spot.id).style = (world.dom.face spot.id).style) :
    (spot.view start after dutiesAfter).Style data kept spot.bindings spot.since spot.id spot.style
      (Directive.about? .style served) :=
  serving.style.lead (step.leads (.refl start.store) fun _ region => region) stays
    (fun _ _ _ running => running) same

/-- A directive that cannot be read is reported. -/
theorem garbled (serving : spot.Serving config data kept start first world duties served descent)
    (inside : spot.high ≤ start.dom.size)
    (apart : ∀ slot, directive.kind.slot? = some slot → Directive.about? slot served = none)
    {fault : Fault} (demand : directive.demand? = .error fault) :
    spot.Serving config data kept start first (world.noting ⟨0⟩ (.error fault : Except Fault Descent))
      duties (served ++ [directive])
      (if directive.kind = .repeated then .claimed else descent) := by
  have place : spot.place + 1 ≤ spot.high := Nat.le_add_right _ _
  have step := World.Advance.noting serving.advance.sound (.error fault : Except Fault Descent)
    spot.place (spot.place + 1)
  have stays (slot : Slot) : View.Stays (spot.view start world duties)
      (spot.view start (world.noting ⟨0⟩ (.error fault : Except Fault Descent)) duties) spot.id slot :=
    fun _ _ assigned _ _ => assigned
  have faulty : (spot.view start (world.noting ⟨0⟩ (.error fault : Except Fault Descent))
      duties).faulty := by
    change start.faults < (world.mapStore _).faults
    rw [World.faults_report serving.advance.sound]
    exact Nat.lt_succ_of_le (serving.advance.store.errors ⟨0⟩)
  refine ⟨serving.advance.trans step (Nat.le_refl _) (.inl place),
    (Store.stack_report world.store ⟨0⟩ fault ⟨0⟩).trans serving.frames, serving.sameTag,
    serving.sameAttributes, serving.bare, ?_, ?_⟩
  · by_cases style : directive.kind.slot? = some .style
    · rw [Directive.about?_append_of_eq (apart _ style) style]
      exact .garbled demand faulty
    · rw [Directive.about?_append_of_ne style]
      exact serving.keepStyle step (stays .style) rfl
  · have content := serving.content.step step inside serving.grown (stays .children) rfl
    by_cases children : directive.kind.slot? = some .children
    · rw [Directive.about?_append_of_eq (apart _ children) children]
      rw [apart _ children] at content
      cases content with
      | free vacant shown untouched =>
          split
          · exact .claimed [] (.garbled demand faulty) fun _ listed => absurd listed List.not_mem_nil
          · exact .text (.garbled demand faulty) (.inl shown) untouched
    · rw [Directive.about?_append_of_ne children, if_neg fun kind => ?_]
      · exact content
      · exact children (congrArg DirectiveKind.slot? kind)

/-- An effect that has no template can be attached, if no other has the same to do. -/
theorem attachable (serving : spot.Serving config data kept start first world duties served descent)
    (inside : spot.high ≤ start.dom.size) {expr : Expr} {aim : Aim}
    (plain : expr.isPlain = true) (bald : ∀ index, ¬aim.covers index)
    (ready : aim.Ready config.binder world.dom)
    (vacant : (spot.view start world duties).Vacant spot.id aim.slot)
    (room : start.frames.length + aim.nesting config.binder + 1 ≤ config.maxEffectDepth) :
    World.Attachable config data kept world duties ⟨spot.id, spot.bindings, expr, aim⟩ spot.place
      (spot.place + 1) where
  sound := serving.advance.sound
  place index occupies := by
    rcases occupies with rfl | covers
    · exact ⟨Nat.le_refl _, Nat.lt_succ_self _⟩
    · exact absurd covers (bald index)
  host := by
    have grown := serving.grown
    unfold high at inside
    exact Nat.lt_of_lt_of_le (by omega : spot.place < start.dom.size) grown
  plain := plain
  ready := ready
  free := serving.bare
  clear _ _ := bald _
  own := bald _
  vacant other member host slot := by
    obtain ⟨index, assigned⟩ := Array.getElem?_of_mem member
    exact vacant ⟨index⟩ other assigned host slot
  room := serving.frames ▸ room

/-- An effect of a `show` directive is attached. -/
theorem serveShow (serving : spot.Serving config data kept start first world duties served descent)
    (inside : spot.high ≤ start.dom.size) (kind : directive.kind = .visible)
    (apart : Directive.about? .style served = none) {demand : String × Expr}
    (read : directive.demand? = .ok demand) (plain : demand.2.isPlain = true)
    (room : start.frames.length + 1 ≤ config.maxEffectDepth) {bound : Nat}
    (enough : config.maxEffectDepth ≤ start.frames.length + bound)
    (recent : spot.since ≤ start.store.heap.containers.size) (depth : Nat) :
    ∃ after dutiesAfter,
      (config.binder.serve depth spot.id (.over data) spot.bindings directive.kind demand).Ends
        (World.runEffect bound) world (.ok .children) after ∧
      spot.Serving config data kept start first after dutiesAfter (served ++ [directive]) descent := by
  have place : spot.place + 1 ≤ spot.high := Nat.le_add_right _ _
  have known : spot.place < world.dom.size :=
    Nat.lt_of_lt_of_le (Nat.lt_of_lt_of_le place inside) serving.grown
  have about : directive.kind.slot? = some .style := congrArg DirectiveKind.slot? kind
  have style := serving.style
  rw [apart] at style
  cases style with
  | plain vacant same =>
  have attachable : World.Attachable config data kept world duties
      ⟨spot.id, spot.bindings, demand.2, .visible⟩ spot.place (spot.place + 1) :=
    serving.attachable inside plain (fun _ covers => covers) .visible vacant room
  obtain ⟨after, dutiesAfter, past, result, middle, trace, parts, ends, attached⟩ :=
    attachable.attach bound (fun _ _ _ _ same => nomatch same) (serving.frames ▸ enough)
  have step := attached.advance attachable
  have face := attached.ran.face
  change after.dom.face spot.id = Duty.faceAfter _ (world.dom.face spot.id) parts _ at face
  have children : (after.dom.face spot.id).children = (world.dom.face spot.id).children := by
    rw [face]
    unfold Duty.faceAfter
    split <;> trivial
  refine ⟨after, dutiesAfter, ?_, serving.advance.trans step (Nat.le_refl _) (.inl place),
    ends.frames.trans serving.frames, ?_, ?_,
    attached.uncovered known serving.bare fun covers => covers, ?_, ?_⟩
  · rw [kind]
    exact ends.bind (.pure _ after)
  · rw [face, Duty.faceAfter_tag]
    exact serving.sameTag
  · rw [face, Duty.faceAfter_attributes]
    exact serving.sameAttributes
  · rw [Directive.about?_append_of_eq apart about]
    refine .shown read ?_ (attached.standing attachable serving.advance.store recent _ ?_)
    · change (after.dom.face spot.id).style = _ ∨ ∃ value, (after.dom.face spot.id).style = _
      rw [face]
      unfold Duty.faceAfter
      split
      next => contradiction
      next holds _ _ => exact .inr ⟨_, congrArg (fun style => Assoc.insert style _ _) same⟩
      next => contradiction
      next => exact .inl same
    · intro sight seen
      obtain ⟨holds, rfl, shown⟩ := attached.ran.truth seen
      exact ⟨holds, rfl, shown.trans (congrArg (fun style => Assoc.insert style _ _) same)⟩
  · rw [Directive.about?_append_of_ne (by simp [about])]
    exact serving.content.step step inside serving.grown
      (attached.stays rfl rfl known (fun same => nomatch same)) children

/-- An effect of a `text` directive is attached. -/
theorem serveText (serving : spot.Serving config data kept start first world duties served descent)
    (inside : spot.high ≤ start.dom.size) (kind : directive.kind = .text)
    (apart : Directive.about? .children served = none) {demand : String × Expr}
    (read : directive.demand? = .ok demand) (plain : demand.2.isPlain = true)
    (room : start.frames.length + 1 ≤ config.maxEffectDepth) {bound : Nat}
    (enough : config.maxEffectDepth ≤ start.frames.length + bound)
    (recent : spot.since ≤ start.store.heap.containers.size) (depth : Nat) :
    ∃ after dutiesAfter,
      (config.binder.serve depth spot.id (.over data) spot.bindings directive.kind demand).Ends
        (World.runEffect bound) world (.ok .children) after ∧
      spot.Serving config data kept start first after dutiesAfter (served ++ [directive]) descent := by
  have place : spot.place + 1 ≤ spot.high := Nat.le_add_right _ _
  have known : spot.place < world.dom.size :=
    Nat.lt_of_lt_of_le (Nat.lt_of_lt_of_le place inside) serving.grown
  have about : directive.kind.slot? = some .children := congrArg DirectiveKind.slot? kind
  have content := serving.content
  rw [apart] at content
  cases content with
  | free vacant same untouched =>
  have attachable : World.Attachable config data kept world duties
      ⟨spot.id, spot.bindings, demand.2, .text⟩ spot.place (spot.place + 1) :=
    serving.attachable inside plain (fun _ covers => covers) .text vacant room
  obtain ⟨after, dutiesAfter, past, result, middle, trace, parts, ends, attached⟩ :=
    attachable.attach bound (fun _ _ _ _ same => nomatch same) (serving.frames ▸ enough)
  have step := attached.advance attachable
  have face := attached.ran.face
  change after.dom.face spot.id = Duty.faceAfter _ (world.dom.face spot.id) parts _ at face
  have style : (after.dom.face spot.id).style = (world.dom.face spot.id).style := by
    rw [face]
    unfold Duty.faceAfter
    split <;> trivial
  refine ⟨after, dutiesAfter, ?_, serving.advance.trans step (Nat.le_refl _) (.inl place),
    ends.frames.trans serving.frames, ?_, ?_,
    attached.uncovered known serving.bare fun covers => covers, ?_, ?_⟩
  · rw [kind]
    exact ends.bind (.pure _ after)
  · rw [face, Duty.faceAfter_tag]
    exact serving.sameTag
  · rw [face, Duty.faceAfter_attributes]
    exact serving.sameAttributes
  · rw [Directive.about?_append_of_ne (by simp [about])]
    exact serving.keepStyle step (attached.stays rfl rfl known (fun same => nomatch same)) style
  · rw [Directive.about?_append_of_eq apart about]
    refine .text (.text kind read (attached.standing attachable serving.advance.store recent _
      fun sight seen => attached.ran.text seen)) ?_
        (untouched.step step (Nat.le_trans inside serving.grown))
    rw [face]
    unfold Duty.faceAfter
    split
    next text _ _ => exact .inr ⟨text, rfl⟩
    next => contradiction
    next => contradiction
    next => exact .inl same

/-- Without anything to repeat, a `for` directive does nothing. -/
theorem serveNone (serving : spot.Serving config data kept start first world duties served descent)
    (kind : directive.kind = .repeated) (apart : Directive.about? .children served = none)
    {demand : String × Expr} (read : directive.demand? = .ok demand) (empty : spot.children = [])
    (runner : World.Runner Page) (depth : Nat) :
    (config.binder.serve depth spot.id (.over data) spot.bindings directive.kind demand).Ends runner
        world (.ok .claimed) world ∧
      spot.Serving config data kept start first world duties (served ++ [directive]) .claimed := by
  have about : directive.kind.slot? = some .children := congrArg DirectiveKind.slot? kind
  have content := serving.content
  rw [apart] at content
  cases content with
  | free vacant same untouched =>
  rw [empty] at same
  constructor
  · have see : (Page.see fun dom => (dom.takeFirst spot.id).1).Ends runner world (.ok none) world :=
      Dom.takeFirst_of_empty same ▸ .survey _ world
    rw [kind]
    exact see.bind (.pure _ world)
  · exact
      { serving with
        style := by
          rw [Directive.about?_append_of_ne (by simp [about])]
          exact serving.style
        content := by
          rw [Directive.about?_append_of_eq apart about]
          exact .claimed [] (.bare kind read vacant empty same) fun _ listed =>
            absurd listed List.not_mem_nil }

/-- When the first tree was taken as its template, an effect of a `for` directive can be attached. -/
theorem repeatable (serving : spot.Serving config data kept start first world duties served descent)
    (inside : spot.high ≤ start.dom.size) {expr : Expr} (plain : expr.isPlain = true) {name : String}
    {template : Tree} {rest : List Tree} (children : spot.children = template :: rest)
    (admissible : template.Admissible config.binder) {depth : Nat} (height : template.height ≤ depth)
    (room : start.frames.length + (template.nesting config.binder + 1) + 1 ≤ config.maxEffectDepth)
    (vacant : (spot.view start world duties).Vacant spot.id .children)
    (untouched : spot.Untouched world duties) {between : World Page}
    (take : World.Advance config data kept spot.place (spot.place + 1) world duties between duties)
    (frames : between.frames = world.frames) :
    World.Attachable config data kept between duties
      ⟨spot.id, spot.bindings, expr, .repeated template (spot.place + 1) name depth⟩ spot.place
      spot.high := by
  have place : spot.place + 1 ≤ spot.high := Nat.le_add_right _ _
  have ends : spot.place + 1 + template.count ≤ spot.high := by
    rw [high, children, Tree.countAll]
    omega
  have insideNow := Nat.le_trans inside serving.grown
  have insideBetween := Nat.le_trans insideNow take.size
  have stands := (untouched.step take insideNow).stands
  rw [children] at stands
  exact
    { sound := take.sound
      place := fun index occupies => by
        rcases occupies with rfl | ⟨behind, before⟩
        · exact ⟨Nat.le_refl _, place⟩
        · omega
      host := Nat.lt_of_lt_of_le place insideBetween
      plain := plain
      ready := .repeated name stands.1 (Nat.le_trans ends insideBetween) admissible height
      free := serving.bare
      clear := fun other member covers => untouched.clear other member _ covers.1
        (Nat.lt_of_lt_of_le covers.2 ends) (.inl rfl)
      own := fun covers => Nat.lt_irrefl _ covers.1
      vacant := fun other member host slot => by
        obtain ⟨index, assigned⟩ := Array.getElem?_of_mem member
        exact vacant ⟨index⟩ other assigned host slot
      room := by
        rw [frames, serving.frames]
        exact room }

/-- An effect of a `for` directive takes the first tree as its template and is attached. -/
theorem serveFor (serving : spot.Serving config data kept start first world duties served descent)
    (inside : spot.high ≤ start.dom.size) (kind : directive.kind = .repeated)
    (apart : Directive.about? .children served = none) {demand : String × Expr}
    (read : directive.demand? = .ok demand) (plain : demand.2.isPlain = true) {template : Tree}
    {rest : List Tree} (children : spot.children = template :: rest)
    (admissible : template.Admissible config.binder) {depth : Nat} (height : template.height ≤ depth)
    (walks : World.Walks config data kept depth)
    (room : start.frames.length + (template.nesting config.binder + 1) + 1 ≤ config.maxEffectDepth)
    {bound : Nat} (enough : config.maxEffectDepth ≤ start.frames.length + bound)
    (recent : spot.since ≤ start.store.heap.containers.size) :
    ∃ after dutiesAfter,
      (config.binder.serve depth spot.id (.over data) spot.bindings directive.kind demand).Ends
        (World.runEffect bound) world (.ok .claimed) after ∧
      spot.Serving config data kept start first after dutiesAfter (served ++ [directive])
        .claimed := by
  have sound := serving.advance.sound
  have place : spot.place + 1 ≤ spot.high := Nat.le_add_right _ _
  have known : spot.place < world.dom.size :=
    Nat.lt_of_lt_of_le place (Nat.le_trans inside serving.grown)
  have about : directive.kind.slot? = some .children := congrArg DirectiveKind.slot? kind
  have content := serving.content
  rw [apart] at content
  cases content with
  | free vacant same untouched =>
  rw [children] at same
  obtain ⟨taken, edits⟩ := Dom.takeFirst_edits sound.ordered
    (show spot.id.index < world.dom.size from known) same
  let between := world.editDom fun dom => (dom.takeFirst spot.id).2
  have take : World.Advance config data kept spot.place (spot.place + 1) world duties between duties :=
    .edit sound _ edits (fun child listed => sound.ordered spot.id child
      (same ▸ List.mem_cons_of_mem _ listed)) serving.bare
  have attachable : World.Attachable config data kept between duties
      ⟨spot.id, spot.bindings, demand.2, .repeated template (spot.place + 1) demand.1 depth⟩
      spot.place spot.high :=
    serving.repeatable inside plain children admissible height room vacant untouched take rfl
  obtain ⟨after, dutiesAfter, past, result, middle, trace, parts, ends, attached⟩ :=
    attachable.attach bound (fun _ _ _ _ same => by cases same; exact walks) (by
      change _ ≤ world.frames.length + _
      rw [serving.frames]
      exact enough)
  have advance := attached.advance attachable
  have step := (take.mono (Nat.le_refl _) (.inl place)).trans advance (Nat.le_refl _)
    (.inl (Nat.le_refl _))
  have earlier := serving.advance.store.trans take.store
  have face := attached.ran.face
  change after.dom.face spot.id = Duty.faceAfter _ (between.dom.face spot.id) parts _ at face
  rw [show between.dom.face spot.id = _ from edits.here] at face
  refine ⟨after, dutiesAfter, ?_, serving.advance.trans step (Nat.le_refl _) (.inl (Nat.le_refl _)),
    ends.frames.trans serving.frames, ?_, ?_,
    attached.uncovered (Nat.lt_of_lt_of_le known take.size) serving.bare attachable.own, ?_, ?_⟩
  · have see : (Page.see fun dom => (dom.takeFirst spot.id).1).Ends (World.runEffect bound) world
        (.ok (some (template.childAt (spot.place + 1)))) world := taken ▸ .survey _ world
    rw [← Duty.body_repeated] at ends
    rw [kind]
    exact see.bind (.bind (.alter _ world) (ends.bind (.pure _ after)))
  · rw [face, Duty.faceAfter_tag]
    exact serving.sameTag
  · rw [face, Duty.faceAfter_attributes]
    exact serving.sameAttributes
  · rw [Directive.about?_append_of_ne (by simp [about])]
    refine serving.keepStyle step (attached.stays rfl rfl (Nat.lt_of_lt_of_le known take.size)
      (fun same => nomatch same)) ?_
    rw [face]
    rfl
  · rw [Directive.about?_append_of_eq apart about]
    refine .claimed parts (.repeated (spot.place + 1) depth kind read children
      (attached.standing attachable earlier recent _ fun sight seen => attached.ran.items seen))
        fun part listed => ?_
    refine (World.Advance.refl advance.sound 0 0).live (earlier.trans attachable.define.store)
      (fun index beyond => .inr ?_) (fun index _ _ => .inr (Nat.zero_le index))
      (attached.ran.live part listed)
    exact Nat.le_trans serving.grown (Nat.le_trans take.size beyond)

end Serving

/-- The tree that the element is to become. -/
def tree (spot : Spot) : Tree := .element spot.tag spot.attributes spot.style spot.children

theorem high_eq (spot : Spot) : spot.high = spot.place + spot.tree.count := by
  unfold high tree Tree.count
  omega

/-- Whether an element can be bound, with everything below it no deeper than a bound. -/
structure Bindable (config : Config) (data : ContainerId) (kept : ContainerId → Prop)
    (bound depth : Nat) (spot : Spot) (start : World Page) (first : Array Duty) : Prop where
  /-- It can be bound there. -/
  site : World.Site config data kept bound start first spot.place spot.tree.count
    (spot.tree.nesting config.binder) spot.since
  /-- Its directives are permitted. -/
  permits : config.binder.Permits spot.attributes.entries
  /-- What stands below it is admissible. -/
  admissible : Tree.AdmissibleAll config.binder spot.children
  /-- It is no higher than the bound. -/
  height : Tree.heightAll spot.children ≤ depth
  /-- What is no higher than the bound can be bound. -/
  walks : World.Walks config data kept depth

namespace Bindable

variable {bound depth : Nat}

theorem inside (bindable : spot.Bindable config data kept bound depth start first) :
    spot.high ≤ start.dom.size := by
  rw [high_eq]
  exact bindable.site.inside

theorem room (bindable : spot.Bindable config data kept bound depth start first) :
    start.frames.length + 1 ≤ config.maxEffectDepth := by
  have room := bindable.site.room
  omega

/-- One directive is bound. -/
theorem serve (bindable : spot.Bindable config data kept bound depth start first)
    {served later : List Directive} {directive : Directive}
    (all : config.binder.directives spot.attributes.entries = served ++ directive :: later)
    {descent : Descent}
    (serving : spot.Serving config data kept start first world duties served descent) :
    ∃ result between dutiesBetween,
      (config.binder.bindDirective (config.binder.bindWithin depth) spot.id directive (.over data)
        spot.bindings).Ends (World.runEffect bound) world result between ∧
      spot.Serving config data kept start first (between.noting ⟨0⟩ result) dutiesBetween
        (served ++ [directive]) (descent.next directive.kind result) := by
  have member : directive ∈ config.binder.directives spot.attributes.entries := by
    rw [all]
    exact List.mem_append_right _ List.mem_cons_self
  have apart (slot : Slot) (about : directive.kind.slot? = some slot) :
      Directive.about? slot served = none :=
    Directive.about?_of_apart (all ▸ bindable.permits.apart) about
  have room := bindable.site.room
  have enough := bindable.site.bound
  have recent := bindable.site.since
  by_cases nothing : directive.kind.slot? = none
  · refine ⟨.ok .children, world, duties, ?_, serving.skip nothing⟩
    unfold Binder.bindDirective
    cases kind : directive.kind with
    | data => exact .pure _ world
    | unknown => exact .pure _ world
    | on => exact absurd kind (bindable.permits.silent directive member)
    | text => exact nomatch nothing.symm.trans (congrArg DirectiveKind.slot? kind)
    | visible => exact nomatch nothing.symm.trans (congrArg DirectiveKind.slot? kind)
    | repeated => exact nomatch nothing.symm.trans (congrArg DirectiveKind.slot? kind)
  · rw [Binder.bindDirective_eq _ _ _ _ _ nothing]
    cases demand : directive.demand? with
    | error fault =>
        exact ⟨.error fault, world, duties, .bind_error (.ofExcept _ world),
          serving.garbled bindable.inside apart demand⟩
    | ok demanded =>
        have plain := bindable.permits.plain directive member nothing demanded demand
        cases kind : directive.kind with
        | data => exact absurd (congrArg DirectiveKind.slot? kind) nothing
        | on => exact absurd (congrArg DirectiveKind.slot? kind) nothing
        | unknown => exact absurd (congrArg DirectiveKind.slot? kind) nothing
        | text =>
            obtain ⟨after, dutiesAfter, ends, served⟩ := serving.serveText bindable.inside kind
              (apart _ (congrArg DirectiveKind.slot? kind)) demand plain bindable.room enough recent
              depth
            exact ⟨.ok .children, after, dutiesAfter, .bind (.ofExcept _ world) (kind ▸ ends), served⟩
        | visible =>
            obtain ⟨after, dutiesAfter, ends, served⟩ := serving.serveShow bindable.inside kind
              (apart _ (congrArg DirectiveKind.slot? kind)) demand plain bindable.room enough recent
              depth
            exact ⟨.ok .children, after, dutiesAfter, .bind (.ofExcept _ world) (kind ▸ ends), served⟩
        | repeated =>
            have apart := apart _ (congrArg DirectiveKind.slot? kind)
            cases children : spot.children with
            | nil =>
                obtain ⟨ends, served⟩ := serving.serveNone kind apart demand children
                  (World.runEffect bound) depth
                exact ⟨.ok .claimed, world, duties, .bind (.ofExcept _ world) (kind ▸ ends), served⟩
            | cons template rest =>
                have admissible := bindable.admissible
                have height := bindable.height
                have repeats : (config.binder.directives spot.attributes.entries).any
                    (fun directive => directive.kind = .repeated) = true :=
                  List.any_eq_true.mpr ⟨directive, member, decide_eq_true kind⟩
                rw [children] at admissible height
                simp only [Tree.heightAll] at height
                simp only [tree, Tree.nesting, repeats, children, Tree.nestingAll, if_pos] at room
                obtain ⟨after, dutiesAfter, ends, served⟩ :=
                  serving.serveFor bindable.inside kind apart demand plain children admissible.2.1
                    (by omega) bindable.walks (by omega) enough recent
                exact ⟨.ok .claimed, after, dutiesAfter,
                  .bind (.ofExcept _ world) (kind ▸ ends), served⟩

/-- All directives of an element are bound. -/
theorem serveAll (bindable : spot.Bindable config data kept bound depth start first)
    {served : List Directive} (attributes : List (String × String))
    (all : config.binder.directives spot.attributes.entries =
      served ++ config.binder.directives attributes)
    {descent : Descent}
    (serving : spot.Serving config data kept start first world duties served descent) :
    ∃ final after dutiesAfter,
      (config.binder.bindDirectives (config.binder.bindWithin depth) spot.id (.over data)
        spot.bindings descent attributes).Ends (World.runEffect bound) world (.ok final) after ∧
      spot.Serving config data kept start first after dutiesAfter
        (config.binder.directives spot.attributes.entries) final := by
  induction attributes generalizing served world duties descent with
  | nil =>
      refine ⟨descent, world, duties, .pure _ world, ?_⟩
      rw [all, Binder.directives, List.filterMap_nil, List.append_nil]
      exact serving
  | cons entry rest ih =>
      obtain ⟨name, value⟩ := entry
      cases found : Directive.ofAttribute? config.binder.attributePrefix name value with
      | none =>
          have same : config.binder.directives ((name, value) :: rest) =
              config.binder.directives rest := List.filterMap_cons_none found
          rw [same] at all
          rw [Binder.bindDirectives]
          simp only [found]
          exact ih all serving
      | some directive =>
          have same : config.binder.directives ((name, value) :: rest) =
              directive :: config.binder.directives rest := List.filterMap_cons_some found
          rw [same] at all
          obtain ⟨result, between, dutiesBetween, ends, next⟩ := bindable.serve all serving
          rw [← List.singleton_append, ← List.append_assoc] at all
          obtain ⟨final, after, dutiesAfter, later, done⟩ := ih all next
          exact ⟨final, after, dutiesAfter,
            config.binder.bindDirectives_cons spot.id _ _ found ends later, done⟩

end Bindable

end Spot

end LiveMarkup
