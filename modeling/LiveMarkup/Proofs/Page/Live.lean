import LiveMarkup.Proofs.Directive.Slot

/-!
# Live trees

A tree that was bound is live: at every element stands what its directives have made of it.  An
effect is either pending, or it has looked at its expression in some earlier state and its element
shows what it saw, and nothing that it has read has changed since.  Bound children are live in turn,
and so are the copies that a `for` directive has stamped.
-/

namespace LiveMarkup

/-- Whether a heap has one tracker, no function and no event. -/
structure Heap.Simple (heap : Heap) : Prop where
  /-- Every container belongs to the first tracker. -/
  owner : ∀ id, heap.owner id = ⟨0⟩
  /-- There is no function. -/
  closures : heap.closures = #[]
  /-- There is no event. -/
  events : heap.events = #[]

/-- Part of a document: a tree that was bound with some bindings when there were a number of
containers, and the child that it has become. -/
structure Part where
  /-- The tree. -/
  tree : Tree
  /-- The bindings around it. -/
  bindings : Bindings
  /-- The number of containers at the time. -/
  since : Nat
  /-- The child. -/
  child : Child

/-- What was bound, with which bindings and when. -/
def Part.frame (part : Part) : Tree × Bindings × Nat := (part.tree, part.bindings, part.since)

/-- How far the elements of a document are in step with their directives. -/
structure View where
  /-- What each effect has to do. -/
  duties : Array Duty
  /-- The document. -/
  dom : Dom Handler
  /-- The reactive state. -/
  store : Store
  /-- The effects that are still to run. -/
  pending : EffectId → Prop
  /-- Whether a fault was reported. -/
  faulty : Prop
  /-- The states in which effects have looked at their expressions. -/
  era : Store → Prop
  /-- Where live elements may stand. -/
  place : Nat → Prop

namespace View

variable (data : ContainerId) (kept : ContainerId → Prop)

/-- What is known once an effect has looked at its expression and nothing that it has read has
changed since.  Only the containers of the data may have changed at all. -/
structure Settled (view : View) (effect : EffectId) (duty : Duty) (past : Store)
    (result : Except Fault Sight) (after : Store) (trace : Trace) : Prop where
  /-- This is what the effect saw. -/
  yields : (duty.read (σ := Page) ⟨⟨0⟩, some data⟩).Yields past result after trace
  /-- This is when. -/
  era : view.era past
  /-- There was one tracker. -/
  simple : past.heap.Simple
  /-- The data was there. -/
  data : data.index < past.heap.containers.size
  /-- The data held nothing else. -/
  encloses : past.heap.Encloses fun id => kept id ∧ id.index < past.heap.containers.size
  /-- What the effect has made is no data. -/
  apart : ∀ id : ContainerId, past.heap.containers.size ≤ id.index →
    id.index < after.heap.containers.size → ¬kept id
  /-- Containers are still there. -/
  keeps : after.heap.Keeps view.store.heap
  /-- What is no data has not changed. -/
  frozen : ∀ id : ContainerId, ¬kept id → id.index < after.heap.containers.size →
    view.store.heap.contents id = after.heap.contents id
  /-- What was read of the data has not changed, and the effect is subscribed to it. -/
  reads : ∀ access ∈ trace.reads, kept access.container →
    access.container.index < after.heap.containers.size →
      (after.heap.contents access.container).Alike (view.store.heap.contents access.container)
          access.key ∧
        effect ∈ view.store.dependents access

/-- Whether an effect has a duty, and no other has one about the same element and thing. -/
structure Serves (view : View) (effect : EffectId) (duty : Duty) : Prop where
  /-- The effect has the duty. -/
  assigned : view.duties[effect.index]? = some duty
  /-- No other effect interferes. -/
  sole : ∀ (other : EffectId) (task : Duty), view.duties[other.index]? = some task →
    task.host = duty.host → task.aim.slot = duty.aim.slot → other = effect

/-- Whether no effect has a duty about an element and thing. -/
def Vacant (view : View) (id : ElementId) (slot : Slot) : Prop :=
  ∀ (effect : EffectId) (duty : Duty), view.duties[effect.index]? = some duty →
    duty.host = id → duty.aim.slot ≠ slot

/-- Whether an effect does its duty: it is pending, or what it saw after a number of containers were
there is shown, or it failed. -/
inductive Standing (view : View) (duty : Duty) (since : Nat) (shows : Sight → Store → Prop) : Prop
  /-- The effect is to run. -/
  | pending (effect : EffectId) (serves : view.Serves effect duty) (pending : view.pending effect)
  /-- The effect has run. -/
  | settled (effect : EffectId) (past after : Store) (result : Except Fault Sight) (trace : Trace)
      (serves : view.Serves effect duty)
      (settled : view.Settled data kept effect duty past result after trace)
      (since : since ≤ past.heap.containers.size)
      (shown : ∀ sight, result = .ok sight → shows sight after)
      (faulty : ∀ fault, result = .error fault → view.faulty)

/-- Some effect serves the duty. -/
theorem Standing.serves {view : View} {data : ContainerId} {kept : ContainerId → Prop} {duty : Duty}
    {since : Nat} {shows : Sight → Store → Prop}
    (standing : view.Standing data kept duty since shows) : ∃ effect, view.Serves effect duty := by
  cases standing with
  | pending effect serves pending => exact ⟨effect, serves⟩
  | settled effect past after result trace serves => exact ⟨effect, serves⟩

/-- An effect with a duty about the same element and thing is the one that serves. -/
theorem Serves.unique {view : View} {effect other : EffectId} {duty task : Duty}
    (serves : view.Serves effect duty) (assigned : view.duties[other.index]? = some task)
    (host : task.host = duty.host) (slot : task.aim.slot = duty.aim.slot) :
    other = effect ∧ task = duty := by
  obtain rfl := serves.sole other task assigned host slot
  exact ⟨rfl, Option.some.inj (assigned.symm.trans serves.assigned)⟩

variable (view : View) (bindings : Bindings) (since : Nat) (id : ElementId)

/-- Whether the style of an element is what its `show` directive, if it has one, makes of a style.
-/
inductive Style (style : Assoc String String) : Option Directive → Prop
  /-- Without a directive the style stays. -/
  | plain (vacant : view.Vacant id .style) (same : (view.dom.face id).style = style) :
      Style style none
  /-- A directive that cannot be read is a fault. -/
  | garbled {directive : Directive} {fault : Fault} (demand : directive.demand? = .error fault)
      (faulty : view.faulty) : Style style (some directive)
  /-- An effect shows or hides the element. -/
  | shown {directive : Directive} {demand : String × Expr} (read : directive.demand? = .ok demand)
      (styled : (view.dom.face id).style = style ∨
        ∃ value, (view.dom.face id).style = style.insert "display" value)
      (standing : view.Standing data kept ⟨id, bindings, demand.2, .visible⟩ since fun sight _ =>
        ∃ holds, sight = .truth holds ∧ (view.dom.face id).style =
          style.insert "display" (if holds then "block" else "none")) :
      Style style (some directive)

/-- Whether the children of an element are what its `text` or `for` directive, if it has one, makes
of some trees, given the parts that these have become. -/
inductive Content (children : List Tree) : Option Directive → List Part → Prop
  /-- Without a directive every tree has become a child. -/
  | bound {parts : List Part} (vacant : view.Vacant id .children)
      (frames : parts.map Part.frame = children.map fun tree => (tree, bindings, since))
      (same : (view.dom.face id).children = parts.map Part.child) : Content children none parts
  /-- A directive that cannot be read is a fault. -/
  | garbled {directive : Directive} {fault : Fault} (demand : directive.demand? = .error fault)
      (faulty : view.faulty) : Content children (some directive) []
  /-- An effect shows a text. -/
  | text {directive : Directive} {demand : String × Expr} (kind : directive.kind = .text)
      (read : directive.demand? = .ok demand)
      (standing : view.Standing data kept ⟨id, bindings, demand.2, .text⟩ since fun sight _ =>
        ∃ content, sight = .text content ∧ (view.dom.face id).children = Dom.textRow content) :
      Content children (some directive) []
  /-- There is nothing to repeat. -/
  | bare {directive : Directive} {demand : String × Expr} (kind : directive.kind = .repeated)
      (read : directive.demand? = .ok demand) (vacant : view.Vacant id .children)
      (empty : children = []) (same : (view.dom.face id).children = []) :
      Content children (some directive) []
  /-- An effect repeats the first tree for every item of a list. -/
  | repeated {directive : Directive} {demand : String × Expr} {template : Tree} {rest : List Tree}
      {parts : List Part} (place depth : Nat) (kind : directive.kind = .repeated)
      (read : directive.demand? = .ok demand) (first : children = template :: rest)
      (standing : view.Standing data kept
        ⟨id, bindings, demand.2, .repeated template place demand.1 depth⟩ since fun sight after =>
          ∃ items, sight = .items items ∧
            (view.dom.face id).children = parts.map Part.child ∧
            parts.map Part.frame = (items.getD []).map fun item =>
              (template, bindings.insert demand.1 item, after.heap.containers.size)) :
      Content children (some directive) parts

/-- Whether an element is what its directives make of an element of a tree, given the parts that
stand below it. -/
structure Node (binder : Binder) (tag : String) (attributes style : Assoc String String)
    (children : List Tree) (parts : List Part) : Prop where
  /-- The element is there. -/
  known : id.index < view.dom.size
  /-- It stands where it may. -/
  place : view.place id.index
  /-- The containers of its time are there. -/
  recent : since ≤ view.store.heap.containers.size
  /-- It has its tag. -/
  sameTag : (view.dom.face id).tag = tag
  /-- It has its attributes. -/
  sameAttributes : (view.dom.face id).attributes = attributes
  /-- It has the style that it is to have. -/
  style : view.Style data kept bindings since id style
    (Directive.about? .style (binder.directives attributes.entries))
  /-- It has the children that it is to have. -/
  content : view.Content data kept bindings since id children
    (Directive.about? .children (binder.directives attributes.entries)) parts

/-- Whether a part is what its directives and those below it make of its tree. -/
inductive Live (binder : Binder) : Part → Prop
  /-- A text has no directives. -/
  | text (content : String) (bindings : Bindings) (since : Nat) :
      Live binder ⟨.text content, bindings, since, .text content⟩
  /-- An element and the parts below it. -/
  | element {tag : String} {attributes style : Assoc String String} {children : List Tree}
      {bindings : Bindings} {since : Nat} {id : ElementId} (parts : List Part)
      (node : view.Node data kept bindings since id binder tag attributes style children parts)
      (below : ∀ part ∈ parts, Live binder part) :
      Live binder ⟨.element tag attributes style children, bindings, since, .element id⟩

/-! ## What stays live -/

/-- How a view may follow on another one, in which only the elements at changed places differ and
some effects have run. -/
structure Leads (keptAfter : ContainerId → Prop) (before after : View) (changed : Nat → Prop)
    (ran : EffectId → Prop) : Prop where
  /-- Effects keep their duties. -/
  duties : ∀ (effect : EffectId) (duty : Duty), before.duties[effect.index]? = some duty →
    after.duties[effect.index]? = some duty
  /-- New duties are about changed or new elements. -/
  fresh : ∀ (effect : EffectId) (duty : Duty), after.duties[effect.index]? = some duty →
    before.duties[effect.index]? = some duty ∨ changed duty.host.index ∨
      before.dom.size ≤ duty.host.index
  /-- Elements are only added. -/
  size : before.dom.size ≤ after.dom.size
  /-- Containers are only added. -/
  grown : before.store.heap.containers.size ≤ after.store.heap.containers.size
  /-- Unchanged elements have their faces. -/
  face : ∀ id : ElementId, id.index < before.dom.size → ¬changed id.index →
    after.dom.face id = before.dom.face id
  /-- What has changed for an effect makes it pending. -/
  settled : ∀ effect duty past result earlier trace,
    before.Settled data kept effect duty past result earlier trace →
      after.Settled data keptAfter effect duty past result earlier trace ∨ after.pending effect
  /-- Effects stay pending until they run. -/
  pending : ∀ effect, before.pending effect → after.pending effect ∨ ran effect
  /-- Effects that have run have changed their elements. -/
  ran : ∀ effect, ran effect → ∀ duty : Duty, before.duties[effect.index]? = some duty →
    changed duty.host.index
  /-- Faults are not forgotten. -/
  faulty : before.faulty → after.faulty
  /-- Elements stand where they may. -/
  place : ∀ index, before.place index → after.place index

section Leads

variable {data kept bindings since id} {keptAfter : ContainerId → Prop} {before after : View}
  {changed : Nat → Prop}
  {ran : EffectId → Prop}

/-- Whether no effect has got a new duty about an element and thing. -/
def Stays (before after : View) (id : ElementId) (slot : Slot) : Prop :=
  ∀ (effect : EffectId) (duty : Duty), after.duties[effect.index]? = some duty → duty.host = id →
    duty.aim.slot = slot → before.duties[effect.index]? = some duty

theorem Leads.stays (leads : Leads data kept keptAfter before after changed ran)
    (known : id.index < before.dom.size) (unchanged : ¬changed id.index) (slot : Slot) :
    Stays before after id slot := by
  intro effect duty assigned host _
  subst host
  rcases leads.fresh effect duty assigned with old | new | beyond
  · exact old
  · exact absurd new unchanged
  · exact absurd known (Nat.not_lt.mpr beyond)

theorem Vacant.lead {slot : Slot} (vacant : before.Vacant id slot)
    (stays : Stays before after id slot) : after.Vacant id slot :=
  fun effect duty assigned host same =>
    vacant effect duty (stays effect duty assigned host same) host same

theorem Standing.lead {duty : Duty} {shows showsAfter : Sight → Store → Prop}
    (standing : before.Standing data kept duty since shows)
    (leads : Leads data kept keptAfter before after changed ran)
    (stays : Stays before after duty.host duty.aim.slot)
    (idle : ∀ effect, before.Serves effect duty → ¬ran effect)
    (shown : ∀ sight store, shows sight store → showsAfter sight store) :
    after.Standing data keptAfter duty since showsAfter := by
  have serve {effect : EffectId} (serves : before.Serves effect duty) : after.Serves effect duty :=
    ⟨leads.duties effect duty serves.assigned, fun other task assigned host slot =>
      serves.sole other task (stays other task assigned host slot) host slot⟩
  cases standing with
  | pending effect serves pending =>
      exact .pending effect (serve serves)
        ((leads.pending effect pending).resolve_right (idle effect serves))
  | settled effect past store result trace serves settled since shows faulty =>
      rcases leads.settled effect duty past result store trace settled with settledAfter | pending
      · exact .settled effect past store result trace (serve serves) settledAfter since
          (fun sight same => shown sight store (shows sight same))
          fun fault same => leads.faulty (faulty fault same)
      · exact .pending effect (serve serves) pending

theorem Style.lead {style : Assoc String String} {directive : Option Directive}
    (holds : before.Style data kept bindings since id style directive)
    (leads : Leads data kept keptAfter before after changed ran)
    (stays : Stays before after id .style)
    (idle : ∀ effect expr, before.Serves effect ⟨id, bindings, expr, .visible⟩ → ¬ran effect)
    (same : (after.dom.face id).style = (before.dom.face id).style) :
    after.Style data keptAfter bindings since id style directive := by
  cases holds with
  | plain vacant plain => exact .plain (vacant.lead stays) (same.trans plain)
  | garbled demand faulty => exact .garbled demand (leads.faulty faulty)
  | @shown _ demand read styled standing =>
      refine .shown read (same ▸ styled) (standing.lead leads stays (fun effect => idle effect _) ?_)
      rw [same]
      exact fun _ _ shown => shown

theorem Content.lead {children : List Tree} {directive : Option Directive} {parts : List Part}
    (holds : before.Content data kept bindings since id children directive parts)
    (leads : Leads data kept keptAfter before after changed ran)
    (stays : Stays before after id .children)
    (idle : ∀ effect duty, duty.host = id → before.Serves effect duty →
      duty.aim.slot = .children → ¬ran effect)
    (same : (after.dom.face id).children = (before.dom.face id).children) :
    after.Content data keptAfter bindings since id children directive parts := by
  cases holds with
  | bound vacant frames shown => exact .bound (vacant.lead stays) frames (same.trans shown)
  | garbled demand faulty => exact .garbled demand (leads.faulty faulty)
  | text kind read standing =>
      refine .text kind read (standing.lead leads stays
        (fun effect serves => idle effect _ rfl serves rfl) ?_)
      rw [same]
      exact fun _ _ shown => shown
  | bare kind read vacant empty shown =>
      exact .bare kind read (vacant.lead stays) empty (same.trans shown)
  | repeated place depth kind read first standing =>
      refine .repeated place depth kind read first (standing.lead leads stays
        (fun effect serves => idle effect _ rfl serves rfl) ?_)
      rw [same]
      exact fun _ _ shown => shown

/-- An unchanged element stays what it is to be. -/
theorem Node.lead {binder : Binder} {tag : String} {attributes style : Assoc String String}
    {children : List Tree} {parts : List Part}
    (node : before.Node data kept bindings since id binder tag attributes style children parts)
    (leads : Leads data kept keptAfter before after changed ran) (unchanged : ¬changed id.index) :
    after.Node data keptAfter bindings since id binder tag attributes style children parts := by
  have face := leads.face id node.known unchanged
  have idle {effect : EffectId} {duty : Duty} (host : duty.host = id)
      (serves : before.Serves effect duty) : ¬ran effect := by
    intro running
    have differs := leads.ran effect running duty serves.assigned
    rw [host] at differs
    exact unchanged differs
  exact
    { known := Nat.lt_of_lt_of_le node.known leads.size
      place := leads.place _ node.place
      recent := Nat.le_trans node.recent leads.grown
      sameTag := by rw [face, node.sameTag]
      sameAttributes := by rw [face, node.sameAttributes]
      style := node.style.lead leads (leads.stays node.known unchanged .style)
        (fun _ _ serves => idle rfl serves) (by rw [face])
      content := node.content.lead leads (leads.stays node.known unchanged .children)
        (fun _ _ host serves _ => idle host serves) (by rw [face]) }

/-- A part stays live if every changed element of it is again what it is to be. -/
theorem Live.map {binder : Binder} {part : Part} (live : before.Live data kept binder part)
    (leads : Leads data kept keptAfter before after changed ran)
    (replace : ∀ {tag attributes style children bindings since id parts}, changed id.index →
      before.Node data kept bindings since id binder tag attributes style children parts →
      (∀ part ∈ parts, after.Live data keptAfter binder part) →
      ∃ others,
        after.Node data keptAfter bindings since id binder tag attributes style children others ∧
        ∀ part ∈ others, after.Live data keptAfter binder part) :
    after.Live data keptAfter binder part := by
  induction live with
  | text content bindings since => exact .text content bindings since
  | @element tag attributes style children bindings since id parts node _ ih =>
      by_cases same : changed id.index
      · obtain ⟨others, again, live⟩ := replace same node ih
        exact .element others again live
      · exact .element parts (node.lead leads same) ih

/-- A part stays live if nothing where it stands has changed. -/
theorem Live.lead {binder : Binder} {part : Part} (live : before.Live data kept binder part)
    (leads : Leads data kept keptAfter before after changed ran)
    (unchanged : ∀ index, before.place index → index < before.dom.size → ¬changed index) :
    after.Live data keptAfter binder part :=
  live.map leads fun same node _ => absurd same (unchanged _ node.place node.known)

end Leads

end View

end LiveMarkup
