import LiveMarkup.Proofs.Document.Path
import LiveMarkup.Proofs.Page.Becoming

/-!
# Binding is rendering

There is one lemma for every step of binding a tree, in the order in which they are taken.  Together
they say that an element which is bound shows the tree that is rendered, and that nothing else in
the document has changed.
-/

namespace LiveMarkup

namespace Dom

variable {ℓ : Type} {dom between after : Dom ℓ} {id : ElementId} {look later : Look}

/-- Whether an element shows a look and nothing else has changed. -/
structure Shows (dom after : Dom ℓ) (id : ElementId) (look : Look) : Prop where
  /-- Nothing else has changed. -/
  alters : dom.Alters after id
  /-- The element has its tag and its attributes, and looks like that. -/
  tree : after.tree id = .element (dom.face id).tag (dom.face id).attributes look.style look.children

theorem Shows.trans (shows : dom.Shows between id look) (known : id.index < dom.size)
    (next : between.Shows after id later) : dom.Shows after id later := by
  have knownBetween := Nat.lt_of_lt_of_le known shows.alters.size
  obtain ⟨tag, attributes, -⟩ := shows.alters.forest.face_of_tree knownBetween shows.tree
  refine ⟨shows.alters.again next.alters, ?_⟩
  rw [next.tree, tag, attributes]

theorem Shows.now (shows : dom.Shows between id look) (known : id.index < dom.size) :
    between.Shows between id look := by
  have knownBetween := Nat.lt_of_lt_of_le known shows.alters.size
  obtain ⟨tag, attributes, -⟩ := shows.alters.forest.face_of_tree knownBetween shows.tree
  refine ⟨.refl shows.alters.forest id, ?_⟩
  rw [shows.tree, tag, attributes]

/-- Whether the children of an element are those that it had, or none of them is an element. -/
def Spares (dom after : Dom ℓ) (id : ElementId) : Prop :=
  (after.face id).children = (dom.face id).children ∨
    ∀ child, Child.element child ∉ (after.face id).children

theorem Spares.trans (spares : dom.Spares between id) (next : between.Spares after id) :
    dom.Spares after id := by
  rcases next with same | none
  · unfold Spares
    rw [same]
    exact spares
  · exact .inr none

theorem not_mem_textRow (text : String) (child : ElementId) : Child.element child ∉ textRow text := by
  unfold textRow
  split <;> simp

section Turns

variable (shows : dom.Shows dom id look) (known : id.index < dom.size)

include shows known

/-- An element that only gets another face shows it. -/
theorem Shows.turn {face : Face} (turns : dom.Turns after id face)
    (tag : face.tag = (dom.face id).tag) (attributes : face.attributes = (dom.face id).attributes)
    (style : face.style = later.style) (children : face.children.map dom.childTree = later.children) :
    dom.Shows after id later := by
  refine ⟨turns.alters, ?_⟩
  rw [turns.tree_eq shows.alters.forest known, tag, attributes, style, children]

theorem Shows.setText (text : String) :
    dom.Shows (dom.setText id text) id { look with children := Tree.textRow text } := by
  obtain ⟨-, -, style, -⟩ := shows.alters.forest.face_of_tree known shows.tree
  refine shows.turn known (.setText shows.alters.forest known text) rfl rfl style ?_
  unfold Dom.textRow Tree.textRow
  split <;> rfl

theorem Shows.setStyle (property value : String) :
    dom.Shows (dom.setStyle id property value) id
      { look with style := look.style.insert property value } := by
  obtain ⟨-, -, style, children⟩ := shows.alters.forest.face_of_tree known shows.tree
  refine shows.turn known (.setStyle shows.alters.forest known property value) rfl rfl ?_ children
  exact congrArg (fun style : Assoc String String => style.insert property value) style

theorem Shows.listen (kind : String) (listener : ℓ) :
    dom.Shows (dom.listen id kind listener) id look := by
  obtain ⟨-, -, style, children⟩ := shows.alters.forest.face_of_tree known shows.tree
  exact shows.turn known (.listen shows.alters.forest known kind listener) rfl rfl style children

theorem Shows.clear : dom.Shows (dom.clear id) id { look with children := [] } := by
  obtain ⟨-, -, style, -⟩ := shows.alters.forest.face_of_tree known shows.tree
  exact shows.turn known (.clear shows.alters.forest known) rfl rfl style rfl

end Turns

end Dom

namespace World

variable {reach : Reach} {setting : Setting} {world between after : World Page} {data : ContainerId}
  {bindings : Bindings} {bound : Nat} {id : ElementId} {look : Look}

/-- Whether an element shows what was rendered and keeps its children, unless they make way for a
text. -/
def Served (world : World Page) (id : ElementId) (dom : Dom Handler) (look : Look) : Prop :=
  world.dom.Shows dom id look ∧ world.dom.Spares dom id

/-- Whether an element looks as its directives want it to; children that are still to be bound are
those that it had, or texts. -/
structure Attended (world : World Page) (id : ElementId) (dom : Dom Handler)
    (served : Look × Descent) : Prop where
  /-- The element looks like that. -/
  shows : world.dom.Shows dom id served.1
  /-- Its children are spared. -/
  spares : served.2 = .children → world.dom.Spares dom id

section Serve

variable (suits : setting.Suits reach .same data) (ready : Ready setting reach world)
  (enough : (world.store.tracker reach.tracker).room ≤ bound) (known : id.index < world.dom.size)
  (shows : world.dom.Shows world.dom id look)
  (holds : ∀ entry ∈ bindings.entries, reach.Holds world.store.heap entry.2)

include suits ready enough known shows holds

theorem Ready.serveText {expr : Expr} (plain : expr.isPlain = true)
    (copy : Bindings → Tree → Render Tree) (template : Tree) (name : String) :
    ∃ effect after,
      (TaskM.createEffect reach.tracker (Duty.body setting.binder setting.scope
        ⟨id, bindings, expr, .text⟩)).Ends (runEffect bound) world (.ok effect) after ∧
      Becomes reach world (setting.renderEffect copy (world.store.tracker reach.tracker).room .text
        template name bindings expr look look world.store.heap) after ∧
      world.Served id after.dom (setting.renderEffect copy (world.store.tracker reach.tracker).room
        .text template name bindings expr look look world.store.heap).result := by
  refine ready.createEffect suits plain enough (fun dom => dom) (fun _ world => .pure () world)
    ready.forest holds .text (world.Served id) ⟨shows, .inl rfl⟩ ⟨shows, .inl rfl⟩
    fun sight between readied _ same _ within less _ => ?_
  cases sight with
  | text content =>
      let written := between.editDom fun dom => dom.setText id content
      refine ⟨_, written, .bind (.alter _ between) (.pure _ written),
        (readied.rests _).edit _, ?_⟩
      change world.Served id (between.dom.setText id content) _
      rw [same]
      refine ⟨shows.setText known content, .inr fun child => ?_⟩
      rw [(Dom.setText_recasts known content).here]
      exact Dom.not_mem_textRow content child
  | truth value => exact nomatch within.glance
  | items items => exact nomatch within.glance

theorem Ready.serveShow {expr : Expr} (plain : expr.isPlain = true)
    (copy : Bindings → Tree → Render Tree) (template : Tree) (name : String) :
    ∃ effect after,
      (TaskM.createEffect reach.tracker (Duty.body setting.binder setting.scope
        ⟨id, bindings, expr, .visible⟩)).Ends (runEffect bound) world (.ok effect) after ∧
      Becomes reach world (setting.renderEffect copy (world.store.tracker reach.tracker).room .truth
        template name bindings expr look look world.store.heap) after ∧
      world.Served id after.dom (setting.renderEffect copy (world.store.tracker reach.tracker).room
        .truth template name bindings expr look look world.store.heap).result := by
  refine ready.createEffect suits plain enough (fun dom => dom) (fun _ world => .pure () world)
    ready.forest holds .truth (world.Served id) ⟨shows, .inl rfl⟩ ⟨shows, .inl rfl⟩
    fun sight between readied _ same _ within less _ => ?_
  cases sight with
  | truth value =>
      let style := if value then "block" else "none"
      let styled := between.editDom fun dom => dom.setStyle id "display" style
      refine ⟨_, styled, .bind (.alter _ between) (.pure _ styled),
        (readied.rests _).edit _, ?_⟩
      change world.Served id (between.dom.setStyle id "display" style) _
      rw [same]
      refine ⟨shows.setStyle known "display" style, .inl ?_⟩
      rw [(Dom.setStyle_edits known "display" style).here]
  | text content => exact nomatch within.glance
  | items items => exact nomatch within.glance

end Serve

/-! ## Copies -/

/-- Whether binding elements as far down as a depth is rendering. -/
def Renders (setting : Setting) (reach : Reach) (depth : Nat) : Prop :=
  ∀ (bound room : Nat) (world : World Page) (id : ElementId) (bindings : Bindings),
    Ready setting reach world → (world.store.tracker reach.tracker).room = room → room ≤ bound →
    id.index < world.dom.size → (world.dom.tree id).Plain setting.binder →
    (∀ entry ∈ bindings.entries, reach.Holds world.store.heap entry.2) →
    ∃ after,
      (setting.binder.bindWithin depth id setting.scope bindings).Ends (runEffect bound) world (.ok ())
        after ∧
      Becomes reach world (setting.renderWithin depth room bindings (world.dom.tree id)
        world.store.heap) after ∧
      world.dom.Alters after.dom id ∧
      after.dom.tree id = (setting.renderWithin depth room bindings (world.dom.tree id)
        world.store.heap).result

section Copies

variable {depth room : Nat} {template : Tree} {child : Child} {name : String}
  (renders : Renders setting reach depth) (plain : template.Plain setting.binder)
  (enough : room ≤ bound)

include renders plain enough

/-- A copy of a template is rendered before it is put in its place. -/
theorem Ready.fill (ready : Ready setting reach world)
    (roomy : (world.store.tracker reach.tracker).room = room)
    (holds : ∀ entry ∈ bindings.entries, reach.Holds world.store.heap entry.2)
    (shows : world.dom.childTree child = template) :
    ∃ after,
      (setting.binder.bindChild depth setting.scope bindings (world.dom.copy child).1).Ends
        (runEffect bound) (world.editDom fun dom => (dom.copy child).2) (.ok ()) after ∧
      Becomes reach world (setting.renderWithin depth room bindings template world.store.heap) after ∧
      world.dom.Adds after.dom ∧ world.dom.Fresh after.dom (world.dom.copy child).1 ∧
      after.dom.childTree (world.dom.copy child).1 =
        (setting.renderWithin depth room bindings template world.store.heap).result := by
  let copied := world.editDom fun dom => (dom.copy child).2
  obtain ⟨adds, built⟩ := ready.forest.build_adds (world.dom.childTree child)
  have fresh := (Dom.Forest.build (world.dom.childTree child) world.dom ready.forest).2
  change world.dom.Adds copied.dom at adds
  change copied.dom.childTree (world.dom.copy child).1 = _ at built
  change world.dom.Fresh copied.dom (world.dom.copy child).1 at fresh
  rw [shows] at built
  cases copy : (world.dom.copy child).1 with
  | text content =>
      rw [copy] at built fresh
      have same : setting.renderWithin depth room bindings template = pure template := by
        rw [← built]
        cases depth <;> rfl
      rw [same]
      exact ⟨copied, .pure () copied, (ready.rests _).edit _, adds, fresh,
        built⟩
  | element id =>
      rw [copy] at built fresh
      obtain ⟨new, known, -⟩ := fresh id rfl
      have readied : Ready setting reach copied :=
        ⟨adds.forest, ready.calm, ready.tracked, ready.running, ready.limit⟩
      change copied.dom.tree id = template at built
      obtain ⟨after, ends, becomes, alters, tree⟩ := renders bound room copied id bindings readied roomy
        enough known (built ▸ plain) holds
      rw [built] at becomes tree
      refine ⟨after, ends, becomes.of_edit, adds.trans alters fun other old inside => ?_,
        fresh.alters alters adds.forest, tree⟩
      -- What was there is not below the copy, neither before it was bound nor afterwards.
      have same := Dom.eq_of_within_new new (adds.within inside old)
      rw [same] at old
      exact absurd old (Nat.not_lt.mpr new)

/-- Copies are stamped behind the children that are there. -/
theorem Ready.stampAll {items : List Value} (ready : Ready setting reach world)
    (roomy : (world.store.tracker reach.tracker).room = room)
    (holds : ∀ entry ∈ bindings.entries, reach.Holds world.store.heap entry.2)
    (inside : ∀ item ∈ items, reach.Holds world.store.heap item) (known : id.index < world.dom.size)
    (shows : world.dom.Shows world.dom id look) (tree : world.dom.childTree child = template)
    (aside : ∀ other, child = .element other →
      other.index < world.dom.size ∧ world.dom.Apart id other) :
    ∃ after,
      (Binder.stampAll (setting.binder.bindWithin depth) id child name setting.scope bindings
        items).Ends (runEffect bound) world (.ok ()) after ∧
      Becomes reach world (Setting.renderCopies (setting.renderWithin depth room) template name bindings
        items world.store.heap) after ∧
      world.dom.Shows after.dom id { look with
        children := look.children ++ (Setting.renderCopies (setting.renderWithin depth room) template
          name bindings items world.store.heap).result } := by
  induction items generalizing world look with
  | nil =>
      refine ⟨world, .pure () world, ready.rests _, ?_⟩
      rw [Setting.renderCopies]
      exact (List.append_nil _).symm ▸ shows
  | cons item rest ih =>
      have around : ∀ entry ∈ (bindings.insert name item).entries,
          reach.Holds world.store.heap entry.2 := by
        intro entry listed
        rcases Assoc.mem_put listed with old | rfl
        · exact holds entry old
        · exact inside item List.mem_cons_self
      obtain ⟨filled, ends, becomes, adds, fresh, result⟩ :=
        ready.fill renders plain enough roomy around tree
      let place (dom : Dom Handler) := dom.append id (world.dom.copy child).1
      let placed := filled.editDom place
      have alters : world.dom.Alters placed.dom id := adds.append_alters ready.forest known fresh
      have placedBecomes := becomes.edit place
      have grows := placedBecomes.supplies.grows
      obtain ⟨-, -, style, children⟩ := ready.forest.face_of_tree known shows.tree
      have placedTree := adds.append_tree ready.forest known fresh
      rw [style, children, result] at placedTree
      have shown : world.dom.Shows placed.dom id { look with children := look.children ++ [_] } :=
        ⟨alters, placedTree⟩
      have treeNow : placed.dom.childTree child = template := by
        rw [← tree]
        cases child with
        | text content => rfl
        | element other =>
            obtain ⟨there, apart⟩ := aside other rfl
            exact alters.tree_eq ready.forest there apart
      obtain ⟨after, later, becomesLater, showsLater⟩ := ih
        (placedBecomes.ready ready alters.forest) (placedBecomes.room.trans roomy)
        (fun entry listed => Reach.Holds.mono (holds entry listed) grows)
        (fun other listed => Reach.Holds.mono (inside other (List.mem_cons_of_mem item listed)) grows)
        (Nat.lt_of_lt_of_le known alters.size) (shown.now known) treeNow fun other same => by
          obtain ⟨there, apart⟩ := aside other same
          exact ⟨Nat.lt_of_lt_of_le there alters.size, alters.apart known there apart⟩
      refine ⟨after, ?_, ?_, ?_⟩
      · rw [stampAll_cons]
        exact .bind (.survey _ world) (.bind (.alter _ world) (ends.bind (.bind (.alter _ filled) later)))
      · exact placedBecomes.bind (becomesLater.map _)
      · have shows := shown.trans known showsLater
        rw [placedBecomes.heap, List.append_assoc] at shows
        exact shows

/-- An effect that clears an element stamps there what is rendered for the items. -/
theorem Ready.serveStamp {expr : Expr} (suits : setting.Suits reach .same data)
    (shown : expr.isPlain = true) (ready : Ready setting reach world)
    (roomy : (world.store.tracker reach.tracker).room = room)
    (holds : ∀ entry ∈ bindings.entries, reach.Holds world.store.heap entry.2)
    (known : id.index < world.dom.size) (shows : world.dom.Shows world.dom id look)
    (tree : world.dom.childTree child = template)
    (aside : ∀ other, child = .element other →
      other.index < world.dom.size ∧ world.dom.Apart id other) :
    ∃ effect after,
      (TaskM.createEffect reach.tracker (Binder.stamp (setting.binder.bindWithin depth) id child name
        expr setting.scope bindings)).Ends (runEffect bound) world (.ok effect) after ∧
      Becomes reach world (setting.renderEffect (setting.renderWithin depth (room - 1)) room .items
        template name bindings expr look { look with children := [] } world.store.heap) after ∧
      world.dom.Shows after.dom id (setting.renderEffect (setting.renderWithin depth (room - 1)) room
        .items template name bindings expr look { look with children := [] }
          world.store.heap).result := by
  subst roomy
  have clears := Dom.Turns.clear ready.forest known
  have cleared := shows.clear known
  rw [Binder.stamp_eq]
  refine ready.createEffect suits shown enough (fun dom => dom.clear id)
    (fun _ world => .alter _ world) clears.forest holds .items (fun dom look => world.dom.Shows dom id look)
    shows cleared fun sight between readied roomy same grows within less bounded => ?_
  cases sight with
  | text content => exact nomatch within.glance
  | truth value => exact nomatch within.glance
  | items items =>
      cases items with
      | none =>
          exact ⟨_, between, .pure _ between, readied.rests _,
            same ▸ cleared⟩
      | some items =>
          have knownNow : id.index < between.dom.size := by
            rw [same, clears.size]
            exact known
          have asideNow : ∀ other, child = .element other →
              other.index < between.dom.size ∧ between.dom.Apart id other := by
            intro other found
            obtain ⟨there, apart⟩ := aside other found
            rw [same, clears.size]
            exact ⟨there, clears.alters.apart known there apart⟩
          have treeNow : between.dom.childTree child = template := by
            rw [same, ← tree]
            cases child with
            | text content => rfl
            | element other =>
                obtain ⟨there, apart⟩ := aside other rfl
                exact clears.alters.tree_eq ready.forest there apart
          have fits : (world.store.tracker reach.tracker).room - 1 ≤ less := by omega
          obtain ⟨after, ends, becomes, stamped⟩ := readied.stampAll renders plain fits roomy
            (fun entry listed => Reach.Holds.mono (holds entry listed) grows) (within.items items rfl)
            knownNow (same ▸ cleared.now known) treeNow asideNow
          refine ⟨_, after, .bind ends (.pure _ after), ?_, ?_⟩
          · exact becomes.map _
          · exact cleared.trans known (same ▸ stamped)

end Copies

/-! ## Directives -/

section Directives

variable {depth room : Nat} (suits : setting.Suits reach .same data)
  (renders : Renders setting reach depth) (enough : room ≤ bound) (ready : Ready setting reach world)
  (roomy : (world.store.tracker reach.tracker).room = room) (known : id.index < world.dom.size)
  (shows : world.dom.Shows world.dom id look)
  (holds : ∀ entry ∈ bindings.entries, reach.Holds world.store.heap entry.2)

include suits renders enough ready roomy known shows holds

/-- The effect of a directive is attached. -/
theorem Ready.serve (kind : DirectiveKind) {demand : String × Expr} (plain : demand.2.isPlain = true)
    (good : Tree.PlainAll setting.binder look.children) :
    ∃ after,
      (setting.binder.serve depth id setting.scope bindings kind demand).Ends (runEffect bound) world
        (.ok (setting.renderServed (setting.renderWithin depth (room - 1)) room bindings look kind
          demand world.store.heap).result.2) after ∧
      Becomes reach world (setting.renderServed (setting.renderWithin depth (room - 1)) room bindings
        look kind demand world.store.heap) after ∧
      world.Attended id after.dom (setting.renderServed (setting.renderWithin depth (room - 1)) room
        bindings look kind demand world.store.heap).result := by
  have nothing (descent : Descent) : Becomes reach world
      ((pure (look, descent) : Render (Look × Descent)) world.store.heap) world :=
    ready.rests _
  cases kind with
  | data => exact ⟨world, .pure _ world, nothing .children, shows, fun _ => .inl rfl⟩
  | on => exact ⟨world, .pure _ world, nothing .children, shows, fun _ => .inl rfl⟩
  | unknown => exact ⟨world, .pure _ world, nothing .children, shows, fun _ => .inl rfl⟩
  | text =>
      obtain ⟨effect, after, ends, becomes, shown, spares⟩ := ready.serveText suits
        (roomy ▸ enough) known shows holds plain (setting.renderWithin depth (room - 1)) (.text "") ""
      rw [roomy] at becomes shown
      rw [← suits.tracker] at ends
      exact ⟨after, .bind ends (.pure _ after), becomes.map _, shown, fun _ => spares⟩
  | visible =>
      obtain ⟨effect, after, ends, becomes, shown, spares⟩ := ready.serveShow suits
        (roomy ▸ enough) known shows holds plain (setting.renderWithin depth (room - 1)) (.text "") ""
      rw [roomy] at becomes shown
      rw [← suits.tracker] at ends
      exact ⟨after, .bind ends (.pure _ after), becomes.map _, shown, fun _ => spares⟩
  | repeated =>
      obtain ⟨-, -, style, row⟩ := ready.forest.face_of_tree known shows.tree
      rw [Setting.renderServed]
      cases trees : look.children with
      | nil =>
          rw [trees] at row
          have empty : (world.dom.takeFirst id).1 = none :=
            Dom.takeFirst_of_empty (List.map_eq_nil_iff.mp row)
          have see : (Page.see fun dom => (dom.takeFirst id).1).Ends (runEffect bound) world (.ok none)
              world := empty ▸ .survey _ world
          exact ⟨world, see.bind (.pure _ world), nothing .claimed, shows, fun same => Descent.noConfusion same⟩
      | cons template rest =>
          rw [trees] at row good
          obtain ⟨child, others, children, tree, trees⟩ := List.map_eq_cons_iff.mp row
          have turns := Dom.Turns.takeFirst ready.forest known children
          have found := (Dom.takeFirst_recasts known children).1
          have see : (Page.see fun dom => (dom.takeFirst id).1).Ends (runEffect bound) world
              (.ok (some child)) world := found ▸ .survey _ world
          let taken := world.editDom fun dom => (dom.takeFirst id).2
          have takes : Becomes reach world ((pure () : Render Unit) world.store.heap) taken :=
            (ready.rests ()).edit _
          have shown : world.dom.Shows taken.dom id { look with children := rest } :=
            shows.turn known turns rfl rfl style trees
          have listed : child ∈ (world.dom.face id).children := children ▸ List.mem_cons_self
          have treeNow : taken.dom.childTree child = template :=
            (turns.childTree_eq ready.forest listed).trans tree
          have aside : ∀ other, child = .element other →
              other.index < taken.dom.size ∧ taken.dom.Apart id other := by
            rintro other rfl
            have link := (ready.forest.linked _ _).mpr (Dom.mem_childElements.mpr listed)
            exact ⟨turns.size.symm ▸ (ready.forest.known_of_parent link).1,
              ready.forest.apart_of_taken known children⟩
          obtain ⟨effect, after, ends, becomes, stamped⟩ :=
            (takes.ready ready turns.forest).serveStamp renders good.1 enough suits plain roomy holds
              (turns.size.symm ▸ known) (shown.now known) treeNow aside
          rw [← suits.tracker] at ends
          refine ⟨after, see.bind (.bind (.alter _ world) (ends.bind (.pure _ after))), ?_, ?_⟩
          · exact becomes.of_edit.map _
          · exact ⟨shown.trans known stamped, fun same => Descent.noConfusion same⟩

/-- A directive is set up and attached, or reported. -/
theorem Ready.bindDirective {directive : Directive}
    (plain : directive.kind.slot? ≠ none → ∀ demand, directive.demand? = .ok demand →
      demand.2.isPlain = true) (good : Tree.PlainAll setting.binder look.children) :
    ∃ result after,
      (setting.binder.bindDirective (setting.binder.bindWithin depth) id directive setting.scope
        bindings).Ends (runEffect bound) world result after ∧
      Becomes reach world (setting.renderDirective (setting.renderWithin depth (room - 1)) room
        bindings look directive world.store.heap) (after.noting setting.binder.tracker result) ∧
      world.Attended id (after.noting setting.binder.tracker result).dom (setting.renderDirective
        (setting.renderWithin depth (room - 1)) room bindings look directive world.store.heap).result ∧
      (∀ descent : Descent, descent.next directive.kind result = (setting.renderDirective
        (setting.renderWithin depth (room - 1)) room bindings look directive
          world.store.heap).result.2.both descent) ∧
      result.map (fun _ => ()) = directive.setUp?.map fun _ => () := by
  have failed (fault : Fault) : Becomes reach world
      ((Render.report fault >>= fun _ => pure (look, Descent.afterFault directive.kind))
        world.store.heap) (world.noting setting.binder.tracker (.error fault : Except Fault Descent)) := by
    have reports := Becomes.report ready fault
    rw [← suits.tracker] at reports
    exact reports.map _
  rw [Setting.renderDirective]
  by_cases about : directive.kind.slot? = none
  · have nothing : Becomes reach world
        ((pure (look, .children) : Render (Look × Descent)) world.store.heap) world :=
      ready.rests _
    unfold Binder.bindDirective Directive.setUp?
    cases kind : directive.kind with
    | text => rw [kind] at about; contradiction
    | visible => rw [kind] at about; contradiction
    | repeated => rw [kind] at about; contradiction
    | data => exact ⟨_, world, .pure _ world, nothing, ⟨shows, fun _ => .inl rfl⟩, fun _ => rfl, rfl⟩
    | unknown =>
        exact ⟨_, world, .pure _ world, nothing, ⟨shows, fun _ => .inl rfl⟩, fun _ => rfl, rfl⟩
    | on =>
        rw [kind] at failed
        dsimp only [Binder.bindOn]
        by_cases unnamed : (directive.argument.getD "").isEmpty = true
        · rw [if_pos unnamed, if_pos unnamed]
          exact ⟨_, world, .bind_error (.ofExcept (.error _) world), failed _,
            ⟨shows, fun _ => .inl rfl⟩, (Descent.next_error · .on _), rfl⟩
        · rw [if_neg unnamed, if_neg unnamed]
          cases parsed : Expr.parse directive.expression with
          | error fault =>
              exact ⟨_, world, .bind_error (.ofExcept (.error (.eval fault)) world), failed _,
                ⟨shows, fun _ => .inl rfl⟩, (Descent.next_error · .on _), rfl⟩
          | ok expr =>
              refine ⟨_, world.editDom _, .bind (.ofExcept (.ok expr) world)
                (.bind (.alter _ world) (.pure _ _)), nothing.edit _,
                ⟨shows.listen known _ _, fun _ => .inl ?_⟩, (Descent.next_ok · .children .on), rfl⟩
              exact congrArg Face.children (Dom.Turns.listen ready.forest known _ _).here
  · rw [Binder.bindDirective_eq _ _ _ _ _ about, Directive.setUp_of_slot about]
    cases read : directive.demand? with
    | error fault =>
        exact ⟨.error fault, world, .bind_error (.ofExcept _ world), failed fault,
          ⟨shows, fun _ => .inl rfl⟩, (Descent.next_error · directive.kind fault), rfl⟩
    | ok demand =>
        obtain ⟨after, ends, becomes, attended⟩ := ready.serve suits renders enough roomy known shows
          holds directive.kind (plain about demand read) good
        exact ⟨_, after, .bind (.ofExcept _ world) ends, becomes, attended,
          fun descent => descent.next_ok _ directive.kind, rfl⟩

/-- All directives of an element are bound one after another. -/
theorem Ready.bindDirectives {attributes : List (String × String)}
    (plain : setting.binder.Plain attributes) (good : Tree.PlainAll setting.binder look.children)
    (descent : Descent) :
    ∃ after,
      (setting.binder.bindDirectives (setting.binder.bindWithin depth) id setting.scope bindings descent
        attributes).Ends (runEffect bound) world (.ok (setting.renderDirectives
          (setting.renderWithin depth (room - 1)) room bindings look descent attributes
            world.store.heap).result.2) after ∧
      Becomes reach world (setting.renderDirectives (setting.renderWithin depth (room - 1)) room
        bindings look descent attributes world.store.heap) after ∧
      world.Attended id after.dom (setting.renderDirectives (setting.renderWithin depth (room - 1))
        room bindings look descent attributes world.store.heap).result := by
  induction attributes generalizing world look descent with
  | nil =>
      exact ⟨world, .pure _ world, ready.rests _, shows,
        fun _ => .inl rfl⟩
  | cons entry rest ih =>
      obtain ⟨name, value⟩ := entry
      rw [Setting.renderDirectives]
      cases found : Directive.ofAttribute? setting.binder.attributePrefix name value with
      | none =>
          have directives : setting.binder.directives ((name, value) :: rest) =
              setting.binder.directives rest := List.filterMap_cons_none found
          rw [Binder.bindDirectives]
          simp only [found]
          exact ih ready roomy known shows holds
            (fun directive listed => plain directive (directives ▸ listed)) good descent
      | some directive =>
          have directives : setting.binder.directives ((name, value) :: rest) =
              directive :: setting.binder.directives rest := List.filterMap_cons_some found
          have plainHere := plain directive (directives ▸ List.mem_cons_self)
          have plainThere : setting.binder.Plain rest := fun other listed =>
            plain other (directives ▸ List.mem_cons_of_mem directive listed)
          have copies := Setting.renderWithin_likewise suits depth (room - 1)
          have goodNow := (Setting.renderDirective_alike suits copies room plainHere (.same holds)
            good).good_of ready.calm
          obtain ⟨result, between, ends, becomes, attended, next, -⟩ := ready.bindDirective suits renders
            enough roomy known shows holds plainHere good
          let noted := between.noting setting.binder.tracker result
          have grows := becomes.supplies.grows
          obtain ⟨after, later, becomesLater, attendedLater⟩ := ih
            (becomes.ready ready attended.shows.alters.forest) (becomes.room.trans roomy)
            (Nat.lt_of_lt_of_le known attended.shows.alters.size) (attended.shows.now known)
            (fun entry listed => Reach.Holds.mono (holds entry listed) grows) plainThere goodNow
            (descent.next directive.kind result)
          have continues := setting.binder.bindDirectives_cons id setting.scope bindings found ends later
          rw [next] at continues becomesLater attendedLater
          rw [becomes.heap] at continues attendedLater
          refine ⟨after, continues, becomes.bind becomesLater,
            attended.shows.trans known attendedLater.shows, fun children => ?_⟩
          have now := attended.spares (Descent.of_both (setting.descent_of_children children))
          exact now.trans (attendedLater.spares children)

end Directives

/-! ## Children -/

/-- What is left when some children of an element, which stand between others, were bound. -/
structure BindsRow (reach : Reach) (world after : World Page) (id : ElementId)
    (others row : List Child) (rendered : Rendered (List Tree)) : Prop where
  /-- They were rendered. -/
  becomes : Becomes reach world rendered after
  /-- Nothing but the element and what is below it has changed. -/
  alters : world.dom.Alters after.dom id
  /-- Nor has the element. -/
  face : after.dom.face id = world.dom.face id
  /-- The other children stay. -/
  others : ∀ other ∈ others, after.dom.childTree other = world.dom.childTree other
  /-- The children show what was rendered. -/
  trees : row.map after.dom.childTree = rendered.result

section Children

variable {depth room : Nat} (renders : Renders setting reach depth) (enough : room ≤ bound)
  (ready : Ready setting reach world)
  (roomy : (world.store.tracker reach.tracker).room = room) (known : id.index < world.dom.size)
  (holds : ∀ entry ∈ bindings.entries, reach.Holds world.store.heap entry.2)

include renders enough ready roomy known holds

/-- A child is bound with everything below it, unless it declares data of its own. -/
theorem Ready.bindUndeclared {child : Child} {earlier later : List Child}
    (children : (world.dom.face id).children = earlier ++ child :: later)
    (plain : (world.dom.childTree child).Plain setting.binder) :
    ∃ after,
      (setting.binder.bindUndeclared setting.scope bindings (setting.binder.bindWithin depth)
        child).Ends (runEffect bound) world (.ok ()) after ∧
      Becomes reach world (setting.renderChild (setting.renderWithin depth room bindings)
        (world.dom.childTree child) world.store.heap) after ∧
      world.dom.Alters after.dom id ∧ after.dom.face id = world.dom.face id ∧
      (∀ other ∈ earlier ++ later, after.dom.childTree other = world.dom.childTree other) ∧
      after.dom.childTree child = (setting.renderChild (setting.renderWithin depth room bindings)
        (world.dom.childTree child) world.store.heap).result := by
  cases child with
  | text content =>
      have same : setting.renderChild (setting.renderWithin depth room bindings) (.text content) =
          pure (.text content) := by
        cases depth <;> rfl
      rw [Dom.childTree, same]
      exact ⟨world, .pure () world, ready.rests _,
        .refl ready.forest id, rfl, fun _ _ => rfl, rfl⟩
  | element child =>
      have listed := Dom.listed_of_children children
      have known_of_listed {other : ElementId} (listed : other ∈ world.dom.childElements id) :=
        (ready.forest.known_of_parent ((ready.forest.linked other id).mpr listed)).1
      have declares : (world.dom.tree child).declares setting.binder =
          world.dom.hasAttribute child setting.binder.dataAttribute := by
        rw [ready.forest.tree_eq (known_of_listed listed)]
        rfl
      have see : (Page.see fun dom => dom.hasAttribute child setting.binder.dataAttribute).Ends
          (runEffect bound) world (.ok ((world.dom.tree child).declares setting.binder)) world :=
        declares ▸ .survey _ world
      have shown : world.dom.childTree (.element child) = world.dom.tree child := rfl
      rw [shown] at plain ⊢
      unfold Setting.renderChild Binder.bindUndeclared
      cases declared : (world.dom.tree child).declares setting.binder with
      | true =>
          rw [declared] at see
          exact ⟨world, see.bind (.pure () world), ready.rests _,
            .refl ready.forest id, rfl, fun _ _ => rfl, rfl⟩
      | false =>
          rw [declared] at see
          obtain ⟨after, ends, becomes, alters, tree⟩ := renders bound room world child bindings ready
            roomy enough (known_of_listed listed) plain holds
          refine ⟨after, see.bind ends, becomes, ?_, ?_, fun other member => ?_, tree⟩
          · exact (Dom.Alters.refl ready.forest id).child alters (.child .self listed)
          · exact alters.face id known (ready.forest.not_within_child listed)
          · cases other with
            | text content => rfl
            | element other =>
                have sibling : other ∈ world.dom.childElements id := by
                  refine Dom.mem_childElements.mpr ?_
                  change Child.element other ∈ (world.dom.face id).children
                  rw [children]
                  exact List.mem_append.mpr
                    ((List.mem_append.mp member).imp_right (List.mem_cons_of_mem _))
                exact alters.tree_eq ready.forest (known_of_listed sibling)
                  (ready.forest.apart_of_siblings listed sibling
                    (ready.forest.ne_of_children children member).symm)

/-- Some children that stand next to each other are bound in order. -/
theorem Ready.bindChildren {earlier row later : List Child}
    (children : (world.dom.face id).children = earlier ++ (row ++ later))
    (plain : Tree.PlainAll setting.binder (row.map world.dom.childTree)) :
    ∃ after,
      (setting.binder.bindChildren (setting.binder.bindWithin depth) setting.scope bindings
        (row.filterMap Child.element?)).Ends (runEffect bound) world (.ok ()) after ∧
      BindsRow reach world after id (earlier ++ later) row (setting.renderRow (setting.renderWithin
        depth room bindings) (row.map world.dom.childTree) world.store.heap) := by
  induction row generalizing world earlier with
  | nil =>
      exact ⟨world, .pure () world, ready.rests _,
        .refl ready.forest id, rfl, fun _ _ => rfl, rfl⟩
  | cons child rest ih =>
      obtain ⟨between, ends, becomes, alters, face, others, tree⟩ := ready.bindUndeclared renders enough
        roomy known holds children plain.1
      have grows := becomes.supplies.grows
      have behind : rest.map between.dom.childTree = rest.map world.dom.childTree :=
        List.map_congr_left fun other member => others other
          (List.mem_append_right _ (List.mem_append_left _ member))
      have childrenNow : (between.dom.face id).children = (earlier ++ [child]) ++ (rest ++ later) := by
        rw [face, children, List.append_assoc]
        rfl
      obtain ⟨after, continues, row⟩ := ih (becomes.ready ready alters.forest)
        (becomes.room.trans roomy) (Nat.lt_of_lt_of_le known alters.size)
        (fun entry listed => Reach.Holds.mono (holds entry listed) grows) childrenNow
        (behind.symm ▸ plain.2)
      have stays := row.others child (by simp)
      rw [behind] at row
      rw [Binder.bindChildren_cons]
      refine ⟨after, ends.bind continues, becomes.bind (row.becomes.map _), alters.again row.alters,
        row.face.trans face, fun other member => ?_, ?_⟩
      · rw [List.mem_append] at member
        refine (row.others other ?_).trans (others other ?_)
        · rcases member with early | late <;> simp [*]
        · rcases member with early | late <;> simp [*]
      · rw [List.map_cons, row.trees, stays, tree, becomes.heap]
        rfl

end Children

/-! ## Trees -/

/-- An element looks like its tree. -/
theorem Ready.shows (ready : Ready setting reach world) {tag : String}
    {attributes style : Assoc String String} {children : List Tree} (known : id.index < world.dom.size)
    (tree : world.dom.tree id = .element tag attributes style children) :
    world.dom.Shows world.dom id ⟨style, children⟩ := by
  obtain ⟨sameTag, sameAttributes, -⟩ := ready.forest.face_of_tree known tree
  refine ⟨.refl ready.forest id, ?_⟩
  rw [tree, sameTag, sameAttributes]

/-- Binding an element is rendering its tree, if that is so for what is below it. -/
theorem Ready.bindElement {depth room : Nat} (suits : setting.Suits reach .same data)
    (renders : Renders setting reach depth) (enough : room ≤ bound) (ready : Ready setting reach world)
    (roomy : (world.store.tracker reach.tracker).room = room) (known : id.index < world.dom.size)
    (holds : ∀ entry ∈ bindings.entries, reach.Holds world.store.heap entry.2) {tag : String}
    {attributes style : Assoc String String} {children : List Tree}
    (tree : world.dom.tree id = .element tag attributes style children)
    (plain : (Tree.element tag attributes style children).Plain setting.binder) :
    ∃ after,
      (setting.binder.bindWithin (depth + 1) id setting.scope bindings).Ends (runEffect bound) world
        (.ok ()) after ∧
      Becomes reach world (setting.renderWithin (depth + 1) room bindings
        (.element tag attributes style children) world.store.heap) after ∧
      world.dom.Alters after.dom id ∧
      after.dom.tree id = (setting.renderWithin (depth + 1) room bindings
        (.element tag attributes style children) world.store.heap).result := by
  obtain ⟨shown, good⟩ := plain
  obtain ⟨rfl, rfl, -, -⟩ := ready.forest.face_of_tree known tree
  have shows := ready.shows known tree
  have copies := Setting.renderWithin_likewise suits depth (room - 1)
  have goodNow := (Setting.renderDirectives_alike suits copies room shown (.same holds)
    ⟨style, children⟩ .children good).good_of ready.calm
  obtain ⟨between, ends, becomes, attended⟩ := ready.bindDirectives suits renders enough roomy known
    shows holds shown good .children
  have knownNow := Nat.lt_of_lt_of_le known attended.shows.alters.size
  have see : (Page.see fun dom => (dom.element id).attributes.entries).Ends (runEffect bound) world
      (.ok (world.dom.face id).attributes.entries) world := .survey _ world
  have grows := becomes.supplies.grows
  rw [Setting.renderWithin]
  cases descent : (setting.renderDirectives (setting.renderWithin depth (room - 1)) room bindings
      ⟨style, children⟩ .children (world.dom.face id).attributes.entries world.store.heap).result.2 with
  | claimed =>
      rw [descent] at ends
      refine ⟨between, see.bind (ends.bind (.pure () between)), becomes.bind ?_, attended.shows.alters,
        ?_⟩
      · rw [Setting.renderBelow, descent]
        exact .still becomes.supplies.calm between rfl rfl (Nat.le_refl _) _
      · rw [Render.bind_apply, Setting.renderBelow, descent]
        exact attended.shows.tree
  | children =>
      rw [descent] at ends
      have readied := becomes.ready ready attended.shows.alters.forest
      obtain ⟨sameTag, sameAttributes, sameStyle, row⟩ :=
        readied.forest.face_of_tree knownNow attended.shows.tree
      rw [← row] at goodNow
      have whole : (between.dom.face id).children = [] ++ ((between.dom.face id).children ++ []) :=
        (List.append_nil _).symm
      obtain ⟨after, continues, below⟩ := readied.bindChildren renders enough (becomes.room.trans roomy)
        knownNow (fun entry listed => Reach.Holds.mono (holds entry listed) grows) whole goodNow
      rw [row] at below
      have look : (Page.see fun dom => dom.childElements id).Ends (runEffect bound) between
          (.ok (between.dom.childElements id)) between := .survey _ between
      refine ⟨after, see.bind (ends.bind (look.bind continues)), becomes.bind ?_,
        attended.shows.alters.again below.alters, ?_⟩
      · rw [Setting.renderBelow, descent]
        exact below.becomes.map _
      · rw [Render.bind_apply, Setting.renderBelow, descent]
        rw [below.alters.forest.tree_eq (Nat.lt_of_lt_of_le knownNow below.alters.size), below.face,
          sameTag, sameAttributes, sameStyle, below.trees, becomes.heap]
        rfl

/-- Binding an element is rendering its tree, as far down as it is bound. -/
theorem renders (suits : setting.Suits reach .same data) (depth : Nat) :
    Renders setting reach depth := by
  induction depth with
  | zero =>
      exact fun bound room world id bindings ready _ _ _ _ _ => ⟨world, .pure () world,
        ready.rests _, .refl ready.forest id, rfl⟩
  | succ depth ih =>
      intro bound room world id bindings ready roomy enough known plain holds
      cases tree : world.dom.tree id with
      | text content => exact nomatch tree.symm.trans (ready.forest.tree_eq known)
      | element tag attributes style children =>
          exact ready.bindElement suits ih enough roomy known holds tree (tree ▸ plain)

end World

end LiveMarkup
