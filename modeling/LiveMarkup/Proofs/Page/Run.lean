import LiveMarkup.Proofs.Page.Course

/-!
# Running an effect

When an effect runs, it looks at its expression and then shows at its element what it has seen.  An
effect of a `for` directive stamps its template and binds every copy, provided that whatever stands
no deeper than its bound can be bound.
-/

namespace LiveMarkup

/-- Binds a child of an element, if it is an element. -/
def Binder.bindChild (binder : Binder) (depth : Nat) (scope : Scope) (bindings : Bindings) :
    Child → TaskM Page Unit
  | .text _ => pure ()
  | .element id => binder.bindWithin depth id scope bindings

namespace Duty

/-- The face of an element after its effect has seen something or has failed to, and has bound some
parts. -/
def faceAfter (duty : Duty) (before : Face) (parts : List Part) (seen : Option Sight) : Face :=
  match duty.aim, seen with
  | .text, some (.text content) => { before with children := Dom.textRow content }
  | .visible, some (.truth holds) =>
      { before with style := before.style.insert "display" (if holds then "block" else "none") }
  | .repeated _ _ _ _, _ => { before with children := parts.map Part.child }
  | _, _ => before

/-- What an effect binds when it has seen something. -/
def framesAfter (duty : Duty) (since : Nat) (seen : Option Sight) : List (Tree × Bindings × Nat) :=
  match duty.aim, seen with
  | .repeated template _ name _, some (.items (some items)) =>
      items.map fun item => (template, duty.bindings.insert name item, since)
  | _, _ => []

theorem faceAfter_faceAfter (duty : Duty) (before : Face) (parts : List Part)
    (seen : Option Sight) :
    duty.faceAfter (duty.faceAfter before [] none) parts seen = duty.faceAfter before parts seen := by
  unfold faceAfter
  cases duty.aim <;> rfl

theorem faceAfter_tag (duty : Duty) (before : Face) (parts : List Part) (seen : Option Sight) :
    (duty.faceAfter before parts seen).tag = before.tag := by
  unfold faceAfter
  split <;> rfl

theorem faceAfter_attributes (duty : Duty) (before : Face) (parts : List Part)
    (seen : Option Sight) : (duty.faceAfter before parts seen).attributes = before.attributes := by
  unfold faceAfter
  split <;> rfl

end Duty

namespace World

variable (config : Config) (data : ContainerId) (kept : ContainerId → Prop)

/-- Whether a tree that stands at a place has become live. -/
structure Walked (bound depth : Nat) (tree : Tree) (place since : Nat) (bindings : Bindings)
    (world : World Page) (duties : Array Duty) (after : World Page) (dutiesAfter : Array Duty) :
    Prop where
  /-- Binding comes to an end. -/
  ends : (config.binder.bindChild depth (.over data) bindings (tree.childAt place)).Ends
    (runEffect bound) world (.ok ()) after
  /-- Nothing else has changed. -/
  advance : Advance config data kept place (place + tree.count) world duties after dutiesAfter
  /-- The tree is live. -/
  live : (View.during world after dutiesAfter
    (Region place (place + tree.count) world.dom.size)).Live data kept config.binder
      ⟨tree, bindings, since, tree.childAt place⟩

/-- Whether every admissible tree that is no higher than a bound becomes live when it is bound. -/
def Walks (depth : Nat) : Prop :=
  ∀ (bound : Nat) (tree : Tree) (place since : Nat) (bindings : Bindings) (world : World Page)
    (duties : Array Duty),
    Site config data kept bound world duties place tree.count (tree.nesting config.binder) since →
    world.dom.Stands tree place → tree.Admissible config.binder → tree.height ≤ depth →
    ∃ after dutiesAfter,
      Walked config data kept bound depth tree place since bindings world duties after dutiesAfter

/-- The page after some copies were stamped at an element. -/
structure Stamping (start : World Page) (first : Array Duty) (host : ElementId) (world : World Page)
    (duties : Array Duty) (parts : List Part) : Prop where
  /-- Only the element has changed. -/
  advance : Advance config data kept host.index (host.index + 1) start first world duties
  /-- No frame was left open. -/
  frames : world.frames = start.frames
  /-- New duties are about the copies. -/
  onlyNew : OnlyNew start first duties
  /-- The copies are the children of the element. -/
  face : world.dom.face host = { start.dom.face host with children := parts.map Part.child }
  /-- The copies are live. -/
  live : ∀ part ∈ parts, (View.during start world duties fun index => start.dom.size ≤ index).Live
    data kept config.binder part

variable {config data kept} {start world after : World Page} {first duties dutiesAfter : Array Duty}

theorem stampAll_cons (binder : Binder) (depth : Nat) (host : ElementId) (template : Child)
    (name : String) (scope : Scope) (bindings : Bindings) (item : Value) (rest : List Value) :
    Binder.stampAll (binder.bindWithin depth) host template name scope bindings (item :: rest) = (do
      let copy ← Page.see fun dom => (dom.copy template).1
      Page.edit fun dom => (dom.copy template).2
      binder.bindChild depth scope (bindings.insert name item) copy
      Page.edit fun dom => dom.append host copy
      Binder.stampAll (binder.bindWithin depth) host template name scope bindings rest) := by
  rw [Binder.stampAll]
  refine congrArg (fun next => Page.see (fun dom => (dom.copy template).1) >>= next)
    (funext fun copy => ?_)
  refine congrArg (fun next => Page.edit (fun dom => (dom.copy template).2) >>= next)
    (funext fun _ => ?_)
  cases copy <;> rfl

/-- A copy of a template that was built behind all elements and then bound. -/
structure Filled (config : Config) (data : ContainerId) (kept : ContainerId → Prop)
    (bound depth place : Nat) (template : Tree) (bindings : Bindings) (since : Nat)
    (world : World Page) (duties : Array Duty) (after : World Page) (dutiesAfter : Array Duty) :
    Prop where
  /-- The copy stands behind all elements. -/
  copied : (world.dom.copy (template.childAt place)).1 = template.childAt world.dom.size
  /-- Binding it comes to an end. -/
  ends : (config.binder.bindChild depth (.over data) bindings
    (template.childAt world.dom.size)).Ends (runEffect bound)
      (world.editDom fun dom => (dom.copy (template.childAt place)).2) (.ok ()) after
  /-- Nothing else has changed. -/
  advance : Advance config data kept world.dom.size (world.dom.size + template.count) world duties
    after dutiesAfter
  /-- It has not been put anywhere. -/
  loose : ∀ id, template.childAt world.dom.size = .element id → after.dom.parent id = none
  /-- It is there. -/
  known : world.dom.size + template.count ≤ after.dom.size
  /-- It is live. -/
  live : (View.during world after dutiesAfter fun index => world.dom.size ≤ index).Live data kept
    config.binder ⟨template, bindings, since, template.childAt world.dom.size⟩

/-- A template that stands is copied, and the copy is bound. -/
theorem Sound.fill (sound : world.Sound config data kept duties) {bound depth : Nat}
    (walks : Walks config data kept depth) {template : Tree} {place : Nat}
    (stands : world.dom.Stands template place) (inside : place + template.count ≤ world.dom.size)
    (admissible : template.Admissible config.binder) (height : template.height ≤ depth)
    (room : world.frames.length + template.nesting config.binder + 1 ≤ config.maxEffectDepth)
    (enough : config.maxEffectDepth ≤ world.frames.length + bound) {since : Nat}
    (recent : since ≤ world.store.heap.containers.size) (bindings : Bindings) :
    ∃ after dutiesAfter, Filled config data kept bound depth place template bindings since world
      duties after dutiesAfter := by
  obtain ⟨copied, builds⟩ := Dom.copy_builds stands inside
  let built := world.editDom fun dom => (dom.copy (template.childAt place)).2
  have size : built.dom.size = world.dom.size + template.count := builds.size
  have build : Advance config data kept world.dom.size world.dom.size world duties built duties :=
    .build sound builds _
  obtain ⟨after, dutiesAfter, walked⟩ := walks bound template _ since bindings built duties
    (.build sound builds room enough recent) builds.stands admissible height
  refine ⟨after, dutiesAfter, copied, walked.ends, ?_, fun id same => ?_, ?_, ?_⟩
  · exact (build.mono (Nat.le_refl _) (.inl (Nat.le_add_right _ _))).trans walked.advance
      (Nat.le_refl _) (.inl (Nat.le_refl _))
  · obtain ⟨rfl, positive⟩ := Tree.eq_of_childAt_eq_element same
    have before : world.dom.size < built.dom.size := by omega
    exact (walked.advance.parent _ before (Nat.le_refl _)).trans (builds.root _ same)
  · exact size ▸ walked.advance.size
  · refine (Advance.refl walked.advance.sound 0 0).live build.store (fun index region => ?_)
      (fun index _ _ => .inr (Nat.zero_le index)) walked.live
    rcases region with ⟨behind, _⟩ | beyond <;> omega

/-- Stamping one more copy. -/
theorem Stamping.stamp {bound depth : Nat} (walks : Walks config data kept depth)
    {host : ElementId} {bindings : Bindings} {expr : Expr} {template : Tree} {place : Nat}
    {name : String} (sound : start.Sound config data kept first)
    (member : ⟨host, bindings, expr, .repeated template place name depth⟩ ∈ first)
    (room : start.frames.length + template.nesting config.binder + 1 ≤ config.maxEffectDepth)
    (enough : config.maxEffectDepth ≤ start.frames.length + bound) {since : Nat}
    (recent : since ≤ start.store.heap.containers.size) {parts : List Part}
    (stamping : Stamping config data kept start first host world duties parts) (item : Value) :
    ∃ after dutiesAfter,
      (∀ rest final, (Binder.stampAll (config.binder.bindWithin depth) host
          (template.childAt place) name (.over data) bindings rest).Ends (runEffect bound) after
            (.ok ()) final →
        (Binder.stampAll (config.binder.bindWithin depth) host (template.childAt place) name
          (.over data) bindings (item :: rest)).Ends (runEffect bound) world (.ok ()) final) ∧
      Stamping config data kept start first host after dutiesAfter
        (parts ++
          [⟨template, bindings.insert name item, since, template.childAt world.dom.size⟩]) := by
  have now := stamping.advance.sound
  have grown := stamping.advance.size
  have known : host.index < start.dom.size := sound.host _ member
  have memberNow : ⟨host, bindings, expr, .repeated template place name depth⟩ ∈ duties := by
    obtain ⟨more, rfl, _⟩ := stamping.advance.duties
    exact Array.mem_append_left _ member
  obtain ⟨stands, inside, admissible, height⟩ := (now.ready _ memberNow).template
  rw [← stamping.frames] at room enough
  obtain ⟨between, dutiesBetween, filled⟩ := now.fill walks stands inside admissible height room
    enough (Nat.le_trans recent stamping.advance.store.heap.size_le) (bindings.insert name item)
  have bind := filled.advance
  have memberFilled : ⟨host, bindings, expr, .repeated template place name depth⟩ ∈
      dutiesBetween := by
    obtain ⟨more, rfl, _⟩ := bind.duties
    exact Array.mem_append_left _ memberNow
  have knownFilled : host.index < between.dom.size := Nat.lt_of_lt_of_le (by omega) bind.size
  have face : between.dom.face host =
      { start.dom.face host with children := parts.map Part.child } :=
    (bind.face host (by omega) (by omega)).trans stamping.face
  -- The copy is the child of no element yet, and stands behind the element that it is put in.
  have appends := Dom.append_edits knownFilled (template.childAt world.dom.size) fun other same => by
    refine ⟨filled.loose other same, ?_⟩
    obtain ⟨rfl, _⟩ := Tree.eq_of_childAt_eq_element same
    exact Nat.lt_of_lt_of_le known grown
  let after := between.editDom fun dom => dom.append host (template.childAt world.dom.size)
  have append : Advance config data kept host.index (host.index + 1) between dutiesBetween after
      dutiesBetween := by
    refine .edit bind.sound _ appends (fun child listed => ?_) fun duty listed =>
      bind.sound.apart duty listed _ memberFilled
    rcases List.mem_append.mp listed with old | new
    · exact bind.sound.ordered host child old
    · have fits := filled.known
      obtain ⟨rfl, positive⟩ := Tree.eq_of_childAt_eq_element (List.mem_singleton.mp new).symm
      dsimp only
      omega
  refine ⟨after, dutiesBetween, fun rest final later => ?_, ?_, ?_, ?_, ?_, fun part listed => ?_⟩
  · have see : (Page.see fun dom => (dom.copy (template.childAt place)).1).Ends (runEffect bound)
        world (.ok (template.childAt world.dom.size)) world := filled.copied ▸ .survey _ world
    rw [stampAll_cons]
    exact see.bind (.bind (.alter _ world) (filled.ends.bind (.bind (.alter _ between) later)))
  · exact (stamping.advance.trans bind (by omega) (.inr grown)).trans append (Nat.le_refl _)
      (.inl (Nat.le_refl _))
  · exact filled.ends.frames.trans stamping.frames
  · exact stamping.onlyNew.advance bind grown grown
  · rw [List.map_append, ← List.map_singleton]
    refine appends.here.trans ?_
    rw [face]
    rfl
  · rcases List.mem_append.mp listed with old | new
    · have live := bind.live (.refl start.store) (fun _ behind => behind)
        (fun _ _ known => .inl known) (stamping.live part old)
      exact append.live (.refl start.store) (fun _ behind => behind) (fun _ _ _ => by omega) live
    · obtain rfl := List.mem_singleton.mp new
      exact append.live stamping.advance.store (fun _ behind => Nat.le_trans grown behind)
        (fun index behind _ => by omega) filled.live

/-- Stamping all copies. -/
theorem Stamping.stampAll {bound depth : Nat} (walks : Walks config data kept depth)
    {host : ElementId} {bindings : Bindings} {expr : Expr} {template : Tree} {place : Nat}
    {name : String} (sound : start.Sound config data kept first)
    (member : ⟨host, bindings, expr, .repeated template place name depth⟩ ∈ first)
    (room : start.frames.length + template.nesting config.binder + 1 ≤ config.maxEffectDepth)
    (enough : config.maxEffectDepth ≤ start.frames.length + bound) {since : Nat}
    (recent : since ≤ start.store.heap.containers.size) (items : List Value) {parts : List Part}
    (stamping : Stamping config data kept start first host world duties parts) :
    ∃ after dutiesAfter others,
      (Binder.stampAll (config.binder.bindWithin depth) host (template.childAt place) name
        (.over data) bindings items).Ends (runEffect bound) world (.ok ()) after ∧
      Stamping config data kept start first host after dutiesAfter (parts ++ others) ∧
      others.map Part.frame = items.map fun item => (template, bindings.insert name item, since) := by
  induction items generalizing world duties parts with
  | nil =>
      refine ⟨world, duties, [], .pure () world, ?_, rfl⟩
      rw [List.append_nil]
      exact stamping
  | cons item rest ih =>
      obtain ⟨between, dutiesBetween, ends, stamped⟩ :=
        stamping.stamp walks sound member room enough recent item
      obtain ⟨after, dutiesAfter, others, later, done, frames⟩ := ih stamped
      rw [List.append_assoc] at done
      refine ⟨after, dutiesAfter, _, ends rest after later, done, ?_⟩
      rw [List.singleton_append, List.map_cons, List.map_cons, frames]
      rfl

/-! ## One run -/

/-- What an effect has done in one run: it has looked at its expression in some state and shown at
its element what it has seen. -/
structure Ran (config : Config) (data : ContainerId) (kept : ContainerId → Prop) (world : World Page)
    (duties : Array Duty) (effect : EffectId) (duty : Duty) (after : World Page)
    (dutiesAfter : Array Duty) (past : Store) (result : Except Fault Sight) (middle : Store)
    (trace : Trace) (parts : List Part) : Prop where
  /-- Only its element has changed. -/
  advance : Advance config data kept duty.host.index (duty.host.index + 1) world duties after
    dutiesAfter
  /-- New duties are about what it has stamped. -/
  onlyNew : OnlyNew world duties dutiesAfter
  /-- The effect is in step with the data. -/
  settled : (View.during world after dutiesAfter fun _ => True).Settled data kept effect duty past
    result middle trace
  /-- It has seen what it was to look for. -/
  glance : ∀ sight, result = .ok sight → sight.glance = duty.aim.glance
  /-- What it has seen is shown. -/
  face : after.dom.face duty.host =
    duty.faceAfter (world.dom.face duty.host) parts result.toOption
  /-- What it has stamped is bound. -/
  frames : parts.map Part.frame =
    duty.framesAfter middle.heap.containers.size result.toOption
  /-- What it has stamped is live. -/
  live : ∀ part ∈ parts, (View.during world after dutiesAfter fun index => world.dom.size ≤ index).Live
    data kept config.binder part

namespace Ran

variable {effect : EffectId} {host : ElementId} {bindings : Bindings} {expr : Expr}
  {past middle : Store} {result : Except Fault Sight} {trace : Trace} {parts : List Part}
  {sight : Sight}

/-- What a `text` effect has seen is the only child. -/
theorem text (ran : Ran config data kept world duties effect ⟨host, bindings, expr, .text⟩ after
      dutiesAfter past result middle trace parts) (seen : result = .ok sight) :
    ∃ content, sight = .text content ∧
      (after.dom.face host).children = Dom.textRow content := by
  have glance := ran.glance sight seen
  have face := congrArg Face.children ran.face
  subst seen
  cases sight with
  | text content => exact ⟨content, rfl, face⟩
  | truth holds => contradiction
  | items items => contradiction

/-- What a `show` effect has seen is in the style. -/
theorem truth (ran : Ran config data kept world duties effect ⟨host, bindings, expr, .visible⟩ after
      dutiesAfter past result middle trace parts) (seen : result = .ok sight) :
    ∃ holds, sight = .truth holds ∧ (after.dom.face host).style =
      (world.dom.face host).style.insert "display" (if holds then "block" else "none") := by
  have glance := ran.glance sight seen
  have face := congrArg Face.style ran.face
  subst seen
  cases sight with
  | truth holds => exact ⟨holds, rfl, face⟩
  | text content => contradiction
  | items items => contradiction

/-- For what a `for` effect has seen there are copies. -/
theorem items {template : Tree} {place : Nat} {name : String} {depth : Nat}
    (ran : Ran config data kept world duties effect
      ⟨host, bindings, expr, .repeated template place name depth⟩ after dutiesAfter past result middle
        trace parts) (seen : result = .ok sight) :
    ∃ items, sight = .items items ∧ (after.dom.face host).children = parts.map Part.child ∧
      parts.map Part.frame = (items.getD []).map fun item =>
        (template, bindings.insert name item, middle.heap.containers.size) := by
  have glance := ran.glance sight seen
  have face := congrArg Face.children ran.face
  have frames := ran.frames
  subst seen
  cases sight with
  | items items =>
      refine ⟨items, rfl, face, frames.trans ?_⟩
      cases items <;> rfl
  | text content => contradiction
  | truth holds => contradiction

end Ran

/-- Looking at an expression leaves an effect in step with the data. -/
theorem Sound.settled (sound : world.Sound config data kept duties) {effect : EffectId} {duty : Duty}
    {rest : List (Option EffectId)} (current : world.frames = some effect :: rest)
    {result : Except Fault Sight} {middle : Store} {trace : Trace}
    (yields : (duty.read (σ := Page) (.over data)).Yields world.store result middle trace)
    (place : Nat → Prop) :
    (View.during world { world with store := middle } duties place).Settled data kept effect duty
      world.store result middle trace where
  yields := yields
  era := ⟨.refl _, yields.steady.heap⟩
  simple := sound.simple
  data := sound.known data sound.root
  encloses id inside value member := (sound.encloses id inside.1 value member).mono fun other held =>
    ⟨held, sound.known other held⟩
  apart id beyond _ held := Nat.not_lt.mpr beyond (sound.known id held)
  keeps := .refl _
  frozen _ _ _ := rfl
  reads access member held _ := by
    have known := sound.known _ held
    refine ⟨.refl _ _, (yields.mem_dependents known).mpr (.inr ⟨member, ?_⟩)⟩
    rw [sound.simple.owner]
    refine ⟨sound.hasTracker, ?_⟩
    change (world.frames).head?.join = _
    rw [current]
    rfl

/-- An effect first clears what it is going to replace. -/
theorem Sound.prepare (sound : world.Sound config data kept duties) {duty : Duty}
    (member : duty ∈ duties) (runner : Runner Page) :
    ∃ after, duty.prepare.Ends runner world (.ok ()) after ∧
      Advance config data kept duty.host.index (duty.host.index + 1) world duties after duties ∧
      after.dom.face duty.host = duty.faceAfter (world.dom.face duty.host) [] none := by
  unfold Duty.prepare Duty.faceAfter
  cases duty.aim with
  | text => exact ⟨world, .pure () world, .refl sound _ _, rfl⟩
  | visible => exact ⟨world, .pure () world, .refl sound _ _, rfl⟩
  | repeated template place name depth =>
      have clears := Dom.clear_edits sound.ordered (sound.host duty member)
      have advance := Advance.edit sound (fun dom => dom.clear duty.host) clears
        (fun _ listed => absurd listed List.not_mem_nil)
        fun other memberOther => sound.apart other memberOther duty member
      exact ⟨_, .alter _ world, advance, clears.here⟩

/-- An effect then shows what it has seen. -/
theorem Sound.present (sound : world.Sound config data kept duties) {duty : Duty}
    (member : duty ∈ duties) {bound : Nat}
    (walks : ∀ template place name depth, duty.aim = .repeated template place name depth →
      Walks config data kept depth)
    (room : world.frames.length + duty.aim.nesting config.binder ≤ config.maxEffectDepth)
    (enough : config.maxEffectDepth ≤ world.frames.length + bound) {sight : Sight}
    (glance : sight.glance = duty.aim.glance)
    (cleared : duty.faceAfter (world.dom.face duty.host) [] none = world.dom.face duty.host) :
    ∃ value after dutiesAfter parts,
      (duty.present config.binder (.over data) sight).Ends (runEffect bound) world (.ok value) after ∧
      Advance config data kept duty.host.index (duty.host.index + 1) world duties after dutiesAfter ∧
      OnlyNew world duties dutiesAfter ∧
      after.dom.face duty.host = duty.faceAfter (world.dom.face duty.host) parts (some sight) ∧
      parts.map Part.frame = duty.framesAfter world.store.heap.containers.size (some sight) ∧
      ∀ part ∈ parts, (View.during world after dutiesAfter fun index => world.dom.size ≤ index).Live
        data kept config.binder part := by
  have known := sound.host duty member
  have free (other : Duty) (memberOther : other ∈ duties) :=
    sound.apart other memberOther duty member
  have old := OnlyNew.refl world duties
  obtain ⟨host, bindings, expr, aim⟩ := duty
  cases aim with
  | text =>
      cases sight with
      | text content =>
          have edits := Dom.setText_edits sound.ordered known content
          have advance := Advance.edit sound (fun dom => dom.setText host content) edits
            (fun child listed => ?_) free
          · exact ⟨_, _, _, [], .bind (.alter _ world) (.pure _ _), advance, old, edits.here, rfl,
              fun _ listed => absurd listed List.not_mem_nil⟩
          · simp only [Dom.textRow] at listed
            split at listed
            · contradiction
            · exact nomatch List.mem_singleton.mp listed
      | truth holds => contradiction
      | items items => contradiction
  | visible =>
      cases sight with
      | text content => contradiction
      | truth holds =>
          have edits := Dom.setStyle_edits known "display" (if holds then "block" else "none")
          have advance := Advance.edit sound (fun dom =>
            dom.setStyle host "display" (if holds then "block" else "none")) edits
            (fun child listed => sound.ordered host child listed) free
          exact ⟨_, _, _, [], .bind (.alter _ world) (.pure _ _), advance, old, edits.here, rfl,
            fun _ listed => absurd listed List.not_mem_nil⟩
      | items items => contradiction
  | repeated template place name depth =>
      cases sight with
      | text content => contradiction
      | truth holds => contradiction
      | items seen =>
          cases seen with
          | none =>
              exact ⟨_, world, duties, [], .pure _ world, .refl sound _ _, old, cleared.symm, rfl,
                fun _ listed => absurd listed List.not_mem_nil⟩
          | some items =>
              have stamping : Stamping config data kept world duties host world duties [] :=
                ⟨.refl sound _ _, rfl, old, cleared.symm,
                  fun _ listed => absurd listed List.not_mem_nil⟩
              obtain ⟨after, dutiesAfter, parts, ends, stamped, frames⟩ :=
                stamping.stampAll (walks _ _ _ _ rfl) sound member room enough (Nat.le_refl _) items
              exact ⟨_, after, dutiesAfter, parts, ends.bind (.pure _ after), stamped.advance,
                stamped.onlyNew, stamped.face, frames, stamped.live⟩

/-- What an effect has done, it has done in the frame around it too. -/
theorem Ran.within {begun done : World Page} {effect : EffectId} {duty : Duty} {past middle : Store}
    {result : Except Fault Sight} {trace : Trace} {parts : List Part}
    (ran : Ran config data kept begun duties effect duty after dutiesAfter past result middle trace
      parts)
    (opens : ∀ low high, Advance config data kept low high world duties begun duties)
    (closes : ∀ low high, Advance config data kept low high after dutiesAfter done dutiesAfter)
    (same : begun.dom = world.dom) (sameAfter : done.dom = after.dom) :
    Ran config data kept world duties effect duty done dutiesAfter past result middle trace parts where
  advance := ((opens _ _).trans ran.advance (Nat.le_refl _) (.inl (Nat.le_refl _))).trans (closes _ _)
    (Nat.le_refl _) (.inl (Nat.le_refl _))
  onlyNew := ran.onlyNew.mono (Nat.le_of_eq (congrArg Dom.size same).symm)
  settled := ran.settled.advance (closes 0 0).store fun era =>
    ⟨(opens 0 0).store.heap.trans era.1, era.2.trans (closes 0 0).store.heap⟩
  glance := ran.glance
  face := by rw [sameAfter, ran.face, same]
  frames := ran.frames
  live part member := (closes 0 0).live (opens 0 0).store (fun _ beyond => same ▸ beyond)
    (fun index _ _ => .inr (Nat.zero_le index)) (ran.live part member)

/-- What an effect does within its frame. -/
theorem Sound.act (sound : world.Sound config data kept duties) {effect : EffectId} {duty : Duty}
    (member : duty ∈ duties) {rest : List (Option EffectId)}
    (current : world.frames = some effect :: rest) (bound : Nat)
    (walks : ∀ template place name depth, duty.aim = .repeated template place name depth →
      Walks config data kept depth)
    (room : world.frames.length + duty.aim.nesting config.binder ≤ config.maxEffectDepth)
    (enough : config.maxEffectDepth ≤ world.frames.length + bound) :
    ∃ outcome after dutiesAfter past result middle trace parts,
      (duty.body config.binder (.over data)).Ends (runEffect bound) world outcome after ∧
      (outcome.map fun _ => ()) = (result.map fun _ => ()) ∧
      Ran config data kept world duties effect duty after dutiesAfter past result middle trace
        parts := by
  obtain ⟨prepared, prepares, prepare, cleared⟩ := sound.prepare member (runEffect bound)
  have frames := prepares.frames
  obtain ⟨result, middle, trace, concludes⟩ := prepare.sound.concludes (sound.plain duty member)
  have steady := concludes.yields.steady
  have look : Advance config data kept duty.host.index (duty.host.index + 1) prepared duties
      { prepared with store := middle } duties := by
    refine .ofStore prepare.sound (.of_steady steady concludes.closures concludes.events)
      (concludes.calm.owner_of_grows steady.heap (Nat.le_refl _) prepare.sound.simple.owner)
      (fun other running => ?_) _ _
    rw [steady.stack] at running
    exact .inl running
  have settled := prepare.sound.settled (frames.trans current) concludes.yields fun _ => True
  have reads := concludes.yields.ends (runEffect bound) prepared rfl
  have looked := prepare.trans look (Nat.le_refl _) (.inl (Nat.le_refl _))
  cases result with
  | error fault =>
      refine ⟨_, _, duties, prepared.store, .error fault, middle, trace, [],
        prepares.bind reads.bind_error, rfl, looked, .refl _ _, ?_, fun _ same => (nomatch same),
        cleared, ?_, fun _ listed => absurd listed List.not_mem_nil⟩
      · exact settled.advance (.refl _) fun era => ⟨prepare.store.heap.trans era.1, era.2⟩
      · unfold Duty.framesAfter
        cases duty.aim <;> rfl
  | ok sight =>
      have glance := (concludes.good sight rfl).glance
      have still : duty.faceAfter (prepared.dom.face duty.host) [] none =
          prepared.dom.face duty.host := by
        rw [cleared, Duty.faceAfter_faceAfter]
      have same : World.frames { prepared with store := middle } = world.frames :=
        (steady.stack ⟨0⟩).trans frames
      rw [← same] at room enough
      obtain ⟨value, after, dutiesAfter, parts, ends, advance, onlyNew, face, bound, live⟩ :=
        look.sound.present member walks room enough glance still
      refine ⟨_, after, dutiesAfter, prepared.store, .ok sight, middle, trace, parts,
        prepares.bind (reads.bind ends), rfl, ?_, onlyNew.mono looked.size, ?_, ?_, ?_, bound,
        fun part listed => ?_⟩
      · exact looked.trans advance (Nat.le_refl _) (.inl (Nat.le_refl _))
      · exact settled.advance advance.store fun era =>
          ⟨prepare.store.heap.trans era.1, era.2.trans advance.store.heap⟩
      · exact fun other same => Except.ok.inj same ▸ glance
      · rw [face]
        change duty.faceAfter (prepared.dom.face duty.host) parts _ = _
        rw [cleared, Duty.faceAfter_faceAfter]
        rfl
      · exact (Advance.refl advance.sound 0 0).live looked.store
          (fun _ beyond => Nat.le_trans looked.size beyond) (fun index _ _ => .inr (Nat.zero_le index))
          (live part listed)

theorem faults_report (sound : world.Sound config data kept duties) (fault : Fault) :
    (world.mapStore fun store => store.report ⟨0⟩ fault).faults = world.faults + 1 := by
  change ((world.store.modifyTracker ⟨0⟩ _).tracker ⟨0⟩).errors.size = _
  rw [Store.tracker_modifyTracker, if_pos ⟨rfl, sound.hasTracker⟩]
  exact Array.size_push _

theorem Advance.noting {α : Type} (sound : world.Sound config data kept duties)
    (result : Except Fault α) (low high : Nat) :
    Advance config data kept low high world duties (world.noting ⟨0⟩ result) duties := by
  cases result with
  | ok _ => exact .refl sound low high
  | error fault => exact .report sound fault low high

/-- From a sound page an effect that is not running runs once, if it may be nested so deep. -/
theorem Sound.run (sound : world.Sound config data kept duties) {effect : EffectId} {duty : Duty}
    (assigned : duties[effect.index]? = some duty) (idle : some effect ∉ world.frames) {bound : Nat}
    (walks : ∀ template place name depth, duty.aim = .repeated template place name depth →
      Walks config data kept depth)
    (room : world.frames.length + duty.aim.nesting config.binder + 1 ≤ config.maxEffectDepth)
    (enough : config.maxEffectDepth ≤ world.frames.length + bound) :
    ∃ dutiesAfter past result middle trace parts,
      Ran config data kept world duties effect duty
        (world.fanOut (runEffect bound) ⟨0⟩ [effect]) dutiesAfter past result middle trace parts ∧
      ∀ fault, result = .error fault →
        world.faults < (world.fanOut (runEffect bound) ⟨0⟩ [effect]).faults := by
  obtain ⟨bound, rfl⟩ : ∃ less, bound = less + 1 := ⟨bound - 1, by omega⟩
  have begin_ := Advance.begin sound (Array.getElem?_eq_some_iff.mp assigned).1
  have frames := sound.frames_begin effect
  have length := congrArg List.length frames
  rw [List.length_cons] at length
  obtain ⟨outcome, after, dutiesAfter, past, result, middle, trace, parts, ends, same, ran⟩ :=
    (begin_ 0 0).sound.act (Array.mem_of_getElem? assigned) frames bound walks (by omega) (by omega)
  have leave := Advance.leave ran.advance.sound
  have allowed : world.refusal? ⟨0⟩ effect = none := by
    change (if world.frames.contains (some effect) = true then some (ReactiveFault.cycle effect)
      else if (world.store.tracker ⟨0⟩).config.maxEffectDepth ≤ world.frames.length then _
      else none) = none
    rw [if_neg (by simpa using idle), if_neg]
    rw [sound.configured]
    omega
  have body : world.body effect = (duty.body config.binder (.over data)).toTask := by
    rw [World.body, sound.bodies, Array.getElem?_map, assigned]
    rfl
  rw [fanOut_singleton (runEffect_of_ends allowed body ends), same]
  refine ⟨dutiesAfter, past, result, middle, trace, parts, ran.within (begin_ · ·) (fun low high =>
    (leave low high).trans (.noting (leave 0 0).sound _ low high) (Nat.le_refl _)
      (.inl (Nat.le_refl _))) rfl ?_, fun fault failed => ?_⟩
  · cases result <;> rfl
  · subst failed
    have grown := ((begin_ 0 0).store.trans (ran.advance.store.trans (leave 0 0).store)).errors ⟨0⟩
    change _ < ((after.leave ⟨0⟩).mapStore fun store => store.report ⟨0⟩ fault).faults
    rw [faults_report (leave 0 0).sound]
    exact Nat.lt_succ_of_le grown

end World

end LiveMarkup
