import LiveMarkup.Proofs.Page.Serve

/-!
# Binding a tree

Binding an element serves its directives and then binds its children, unless a `for` directive has
claimed them.  By induction on the height, every admissible tree becomes live.
-/

namespace LiveMarkup

namespace World

variable {config : Config} {data : ContainerId} {kept : ContainerId → Prop}

theorem bindChildren_cons {binder : Binder} {depth : Nat} {scope : Scope} {bindings : Bindings}
    {child : ElementId} {rest : List ElementId} {runner : Runner Page}
    {world between after : World Page}
    (undeclared : world.dom.hasAttribute child binder.dataAttribute = false)
    (ends : (binder.bindWithin depth child scope bindings).Ends runner world (.ok ()) between)
    (later : (binder.bindChildren (binder.bindWithin depth) scope bindings rest).Ends runner between
      (.ok ()) after) :
    (binder.bindChildren (binder.bindWithin depth) scope bindings (child :: rest)).Ends runner world
      (.ok ()) after := by
  have see : (Page.see fun dom => dom.hasAttribute child binder.dataAttribute).Ends runner world
      (.ok false) world := undeclared ▸ .survey _ world
  exact see.bind (ends.bind later)

/-- The children of an element are bound one after another. -/
theorem Walks.bindChildren {bound depth : Nat} (walks : Walks config data kept depth)
    (bindings : Bindings) {since : Nat} (trees : List Tree) {place : Nat} {world : World Page}
    {duties : Array Duty}
    (site : Site config data kept bound world duties place (Tree.countAll trees)
      (Tree.nestingAll config.binder trees) since)
    (stands : world.dom.StandsAll trees place)
    (admissible : Tree.AdmissibleAll config.binder trees) (height : Tree.heightAll trees ≤ depth) :
    ∃ (after : World Page) (dutiesAfter : Array Duty) (parts : List Part),
      (config.binder.bindChildren (config.binder.bindWithin depth) (.over data) bindings
        ((Tree.rowAt place trees).filterMap Child.element?)).Ends (runEffect bound) world (.ok ())
          after ∧
      Advance config data kept place (place + Tree.countAll trees) world duties after dutiesAfter ∧
      parts.map Part.child = Tree.rowAt place trees ∧
      (parts.map Part.frame = trees.map fun tree => (tree, bindings, since)) ∧
      ∀ part ∈ parts, (View.during world after dutiesAfter
        (Region place (place + Tree.countAll trees) world.dom.size)).Live data kept config.binder
          part := by
  induction trees generalizing place world duties with
  | nil =>
      exact ⟨world, duties, [], .pure () world, .refl site.sound _ _, rfl, rfl,
        fun _ listed => absurd listed List.not_mem_nil⟩
  | cons tree rest ih =>
      simp only [Tree.countAll, Tree.nestingAll, Tree.heightAll] at site height ⊢
      obtain ⟨between, dutiesBetween, walked⟩ := walks bound tree place since bindings world duties
        (site.narrow (Nat.le_refl _) (by omega) (by omega)) stands.1 admissible.2.1 (by omega)
      have frames := walked.ends.frames
      have siteRest : Site config data kept bound world duties (place + tree.count)
          (Tree.countAll rest) (Tree.nestingAll config.binder rest) since :=
        site.narrow (by omega) (by omega) (by omega)
      have standsRest : between.dom.StandsAll rest (place + tree.count) :=
        stands.2.of_faces _ _ fun id behind before => by
          have inside := site.inside
          exact walked.advance.face id (by omega) (by omega)
      obtain ⟨after, dutiesAfter, parts, ends, advance, children, framesRest, live⟩ :=
        ih (siteRest.advance walked.advance frames (.inl (Nat.le_refl _))) standsRest
          admissible.2.2 (by omega)
      have grown := walked.advance.size
      refine ⟨after, dutiesAfter, ⟨tree, bindings, since, tree.childAt place⟩ :: parts, ?_, ?_, ?_, ?_,
        fun part listed => ?_⟩
      · cases tree with
        | text content => exact fun finish => (walked.ends fun _ => _).trans (ends finish)
        | element tag attributes style children =>
            refine bindChildren_cons ?_ walked.ends ends
            have face : (world.dom.face ⟨place⟩).attributes = attributes := by rw [stands.1.1]
            change (world.dom.face ⟨place⟩).attributes.contains _ = false
            rw [face]
            exact admissible.1
      · exact (walked.advance.mono (Nat.le_refl _) (.inl (by omega))).trans advance (by omega)
          (.inl (by omega))
      · rw [List.map_cons, children]
        rfl
      · rw [List.map_cons, framesRest]
        rfl
      · rcases List.mem_cons.mp listed with rfl | later
        · refine advance.live (.refl _) (fun index region => ?_) (fun index region known => ?_)
            walked.live
          · rcases region with ⟨behind, before⟩ | beyond
            · exact .inl ⟨behind, by omega⟩
            · exact .inr beyond
          · have inside := site.inside
            rcases region with ⟨behind, before⟩ | beyond <;> omega
        · refine (Advance.refl advance.sound 0 0).live walked.advance.store (fun index region => ?_)
            (fun index _ _ => .inr (Nat.zero_le index)) (live part later)
          rcases region with ⟨behind, before⟩ | beyond
          · exact .inl ⟨by omega, by omega⟩
          · exact .inr (by omega)

end World

namespace Spot

variable {config : Config} {data : ContainerId} {kept : ContainerId → Prop} {spot : Spot}
  {start : World Page} {first : Array Duty} {bound depth : Nat}

theorem tree_nesting_le (binder : Binder) (spot : Spot) :
    Tree.nestingAll binder spot.children ≤ spot.tree.nesting binder := by
  unfold tree Tree.nesting
  split
  · exact Nat.le_succ _
  · exact Nat.le_refl _

namespace Bindable

/-- Before any directive is served, the element is what it was built to be. -/
theorem unserved (bindable : spot.Bindable config data kept bound depth start first)
    (stands : start.dom.Stands spot.tree spot.place) :
    spot.Serving config data kept start first start first [] .children := by
  have site := bindable.site
  have face : start.dom.face spot.id = ⟨spot.tag, spot.attributes, spot.style,
    Tree.rowAt (spot.place + 1) spot.children⟩ := stands.1
  have vacant (slot : Slot) : (spot.view start start first).Vacant spot.id slot := by
    intro effect duty assigned host
    refine absurd (.inl (congrArg ElementId.index host)) (site.clear duty
      (Array.mem_of_getElem? assigned) spot.place (Nat.le_refl _) ?_)
    unfold tree Tree.count
    omega
  exact
    { advance := .refl site.sound _ _
      frames := rfl
      sameTag := by rw [face]
      sameAttributes := by rw [face]
      bare := fun duty member covers => site.clear duty member spot.place (Nat.le_refl _) (by
        unfold tree Tree.count
        omega) (.inr covers)
      style := .plain (vacant .style) (congrArg Face.style face)
      content := .free (vacant .children) (congrArg Face.children face)
        ⟨stands.2, fun duty member index behind before =>
          site.clear duty member index (Nat.le_of_lt behind) (high_eq spot ▸ before)⟩ }

variable {world after : World Page} {duties dutiesAfter : Array Duty} {descent : Descent}

/-- What stands below an element is bound if no effect has to do with it. -/
theorem bindChildren (bindable : spot.Bindable config data kept bound depth start first)
    {served : List Directive}
    (serving : spot.Serving config data kept start first world duties served descent)
    (untouched : spot.Untouched world duties) :
    ∃ (after : World Page) (dutiesAfter : Array Duty) (parts : List Part),
      (config.binder.bindChildren (config.binder.bindWithin depth) (.over data) spot.bindings
        ((Tree.rowAt (spot.place + 1) spot.children).filterMap Child.element?)).Ends
          (World.runEffect bound) world (.ok ()) after ∧
      World.Advance config data kept (spot.place + 1) spot.high world duties after dutiesAfter ∧
      parts.map Part.child = Tree.rowAt (spot.place + 1) spot.children ∧
      (parts.map Part.frame = spot.children.map fun tree => (tree, spot.bindings, spot.since)) ∧
      ∀ part ∈ parts, (spot.view start after dutiesAfter).Live data kept config.binder part := by
  have site := bindable.site
  have nesting := tree_nesting_le config.binder spot
  have siteBelow : World.Site config data kept bound world duties (spot.place + 1)
      (Tree.countAll spot.children) (Tree.nestingAll config.binder spot.children) spot.since :=
    { sound := serving.advance.sound
      inside := Nat.le_trans bindable.inside serving.grown
      clear := untouched.clear
      room := by
        have room := site.room
        rw [serving.frames]
        omega
      bound := serving.frames ▸ site.bound
      since := Nat.le_trans site.since serving.advance.store.heap.size_le }
  obtain ⟨after, dutiesAfter, parts, ends, advance, children, frames, live⟩ :=
    bindable.walks.bindChildren spot.bindings spot.children siteBelow untouched.stands
      bindable.admissible bindable.height
  refine ⟨after, dutiesAfter, parts, ends, advance, children, frames, fun part listed => ?_⟩
  refine (World.Advance.refl advance.sound 0 0).live serving.advance.store (fun index region => ?_)
    (fun index _ _ => .inr (Nat.zero_le index)) (live part listed)
  have grown := serving.grown
  rcases region with ⟨behind, before⟩ | beyond
  · exact .inl ⟨by omega, before⟩
  · exact .inr (by omega)

/-- When all directives are served, the element is what it is to be, whatever is then done to what
stands below it. -/
theorem node (bindable : spot.Bindable config data kept bound depth start first)
    (serving : spot.Serving config data kept start first world duties
      (config.binder.directives spot.attributes.entries) descent)
    (later : World.Advance config data kept (spot.place + 1) spot.high world duties after dutiesAfter)
    {parts : List Part}
    (content : (spot.view start after dutiesAfter).Content data kept spot.bindings spot.since spot.id
      spot.children
      (Directive.about? .children (config.binder.directives spot.attributes.entries)) parts) :
    (spot.view start after dutiesAfter).Node data kept spot.bindings spot.since spot.id config.binder
      spot.tag spot.attributes spot.style spot.children parts := by
  have place : spot.place + 1 ≤ spot.high := Nat.le_add_right _ _
  have known : spot.place < world.dom.size :=
    Nat.lt_of_lt_of_le (Nat.lt_of_lt_of_le place bindable.inside) serving.grown
  have face : after.dom.face spot.id = world.dom.face spot.id :=
    later.face spot.id known (.inl (Nat.lt_succ_self _))
  have leads := later.leads (.refl start.store) fun index
    (region : Region spot.place spot.high start.dom.size index) => region
  have stays : View.Stays (spot.view start world duties) (spot.view start after dutiesAfter) spot.id
      .style := leads.stays known (fun changed => Nat.not_succ_le_self _ changed.1) .style
  exact
    { known := Nat.lt_of_lt_of_le known later.size
      place := .inl ⟨Nat.le_refl _, place⟩
      recent := Nat.le_trans bindable.site.since
        (Nat.le_trans serving.advance.store.heap.size_le later.store.heap.size_le)
      sameTag := (congrArg Face.tag face).trans serving.sameTag
      sameAttributes := (congrArg Face.attributes face).trans serving.sameAttributes
      style := serving.keepStyle later stays (congrArg Face.style face)
      content := content }

/-- An element becomes live when its directives and then its children are bound. -/
theorem walked (bindable : spot.Bindable config data kept bound depth start first)
    (stands : start.dom.Stands spot.tree spot.place)
    (serving : spot.Serving config data kept start first world duties
      (config.binder.directives spot.attributes.entries) descent)
    (ends : (config.binder.bindDirectives (config.binder.bindWithin depth) spot.id (.over data)
      spot.bindings .children spot.attributes.entries).Ends (World.runEffect bound) start
        (.ok descent) world)
    (later : World.Advance config data kept (spot.place + 1) spot.high world duties after dutiesAfter)
    (rest : (match descent with
      | .claimed => pure ()
      | .children => do
          let children ← Page.see fun dom => dom.childElements spot.id
          config.binder.bindChildren (config.binder.bindWithin depth) (.over data) spot.bindings
            children : TaskM Page Unit).Ends (World.runEffect bound) world (.ok ()) after)
    {parts : List Part}
    (content : (spot.view start after dutiesAfter).Content data kept spot.bindings spot.since spot.id
      spot.children
      (Directive.about? .children (config.binder.directives spot.attributes.entries)) parts)
    (live : ∀ part ∈ parts, (spot.view start after dutiesAfter).Live data kept config.binder part) :
    World.Walked config data kept bound (depth + 1) spot.tree spot.place spot.since spot.bindings start
      first after dutiesAfter where
  ends := by
    have attributes : (start.dom.face spot.id).attributes = spot.attributes := by
      rw [show start.dom.face spot.id = _ from stands.1]
    have see : (Page.see fun dom => (dom.element spot.id).attributes.entries).Ends
        (World.runEffect bound) start (.ok spot.attributes.entries) start :=
      attributes ▸ .survey _ start
    exact see.bind (ends.bind rest)
  advance := by
    rw [← high_eq]
    exact serving.advance.trans later (Nat.le_succ _) (.inl (Nat.le_refl _))
  live := by
    rw [← high_eq]
    exact .element parts (bindable.node serving later content) live

/-- An element becomes live when it is bound. -/
theorem walk (bindable : spot.Bindable config data kept bound depth start first)
    (stands : start.dom.Stands spot.tree spot.place) :
    ∃ after dutiesAfter, World.Walked config data kept bound (depth + 1) spot.tree spot.place
      spot.since spot.bindings start first after dutiesAfter := by
  obtain ⟨descent, world, duties, ends, serving⟩ := bindable.serveAll spot.attributes.entries
    (List.nil_append _).symm (bindable.unserved stands)
  have place : spot.place + 1 ≤ spot.high := Nat.le_add_right _ _
  have known : spot.place < world.dom.size :=
    Nat.lt_of_lt_of_le (Nat.lt_of_lt_of_le place bindable.inside) serving.grown
  have sound := serving.advance.sound
  have see {row : List Child} (same : (world.dom.face spot.id).children = row) :
      (Page.see fun dom => dom.childElements spot.id).Ends (World.runEffect bound) world
        (.ok (row.filterMap Child.element?)) world := same ▸ .survey _ world
  have content := serving.content
  generalize about : Directive.about? .children _ = found at content
  cases content with
  | free vacant same untouched =>
      obtain ⟨after, dutiesAfter, parts, later, advance, children, frames, live⟩ :=
        bindable.bindChildren serving untouched
      have face := advance.face spot.id known (.inl (Nat.lt_succ_self _))
      have leads := advance.leads (.refl start.store) fun index
        (region : Region spot.place spot.high start.dom.size index) => region
      refine ⟨after, dutiesAfter, bindable.walked stands serving ends advance ((see same).bind later)
        ?_ live⟩
      rw [about]
      refine .bound (vacant.lead (leads.stays known
        (fun changed => Nat.not_succ_le_self _ changed.1) .children)) frames ?_
      rw [children, ← same]
      exact congrArg Face.children face
  | text content same untouched =>
      rcases same with same | ⟨text, same⟩
      · obtain ⟨after, dutiesAfter, parts, later, advance, _⟩ :=
          bindable.bindChildren serving untouched
        have face := advance.face spot.id known (.inl (Nat.lt_succ_self _))
        have leads := advance.leads (.refl start.store) fun index
          (region : Region spot.place spot.high start.dom.size index) => region
        refine ⟨after, dutiesAfter, bindable.walked stands serving ends advance
          ((see same).bind later) ?_ fun _ listed => absurd listed List.not_mem_nil⟩
        rw [about]
        exact content.lead leads
          (leads.stays known (fun changed => Nat.not_succ_le_self _ changed.1) .children)
          (fun _ _ _ _ _ running => running) (congrArg Face.children face)
      · refine ⟨world, duties, bindable.walked stands serving ends (.refl sound _ _)
          ((see same).bind ?_) (about ▸ content) fun _ listed => absurd listed List.not_mem_nil⟩
        have none : (Dom.textRow text).filterMap Child.element? = [] := by
          unfold Dom.textRow
          split <;> rfl
        rw [none]
        exact .pure () world
  | claimed parts content live =>
      refine ⟨world, duties, bindable.walked stands serving ends (.refl sound _ _) (.pure () world)
        (about ▸ content) fun part listed => ?_⟩
      refine (World.Advance.refl sound 0 0).live (.refl start.store) (fun index region => ?_)
        (fun index _ _ => .inr (Nat.zero_le index)) (live part listed)
      exact region.imp_left fun inside => ⟨Nat.le_of_succ_le inside.1, inside.2⟩

end Bindable

end Spot

/-- Every admissible tree that stands where no effect has to do with it becomes live when it is
bound. -/
theorem World.walks (config : Config) (data : ContainerId) (kept : ContainerId → Prop) (depth : Nat) :
    World.Walks config data kept depth := by
  have text (depth : Nat) (content : String) (bound place since : Nat) (bindings : Bindings)
      (world : World Page) (duties : Array Duty) (sound : world.Sound config data kept duties) :
      World.Walked config data kept bound depth (.text content) place since bindings world duties world
        duties :=
    ⟨.pure () world, .refl sound _ _, .text content bindings since⟩
  induction depth with
  | zero =>
      intro bound tree place since bindings world duties site stands admissible height
      cases tree with
      | text content => exact ⟨world, duties, text 0 content bound place since bindings _ _ site.sound⟩
      | element tag attributes style children => exact absurd height (Nat.not_succ_le_zero _)
  | succ depth ih =>
      intro bound tree place since bindings world duties site stands admissible height
      cases tree with
      | text content => exact ⟨world, duties, text _ content bound place since bindings _ _ site.sound⟩
      | element tag attributes style children =>
          let spot : Spot := ⟨tag, attributes, style, children, bindings, since, place⟩
          have bindable : spot.Bindable config data kept bound depth world duties :=
            ⟨site, admissible.1, admissible.2, Nat.le_of_succ_le_succ height, ih⟩
          exact bindable.walk stands

end LiveMarkup
