import LiveMarkup.Proofs.Page.Attained

/-!
# The data that directives see

A directive sees the data of the nearest element that declares data, the element of the directive
itself or one above it, and the variables of the `for` directives on the way from there.  There is
one exception: a `for` directive binds the copies of its template where it is bound itself, even if
the template declares data.  Such a copy declares data but is no root, and what is below it sees the
data of an outer one.
-/

namespace LiveMarkup

/-! ## Ways up -/

/-- Whether an element is the nearest one with data: the element itself or, of those above it, the
first one that declares data. -/
inductive Dom.Nearest {ℓ : Type} (binder : Binder) (dom : Dom ℓ) (top : ElementId) : ElementId → Prop
  /-- The element declares data. -/
  | here (declares : binder.declares (dom.face top).attributes = true) : Nearest binder dom top top
  /-- What is the nearest one to its parent is the nearest one to an element without data. -/
  | child {id parent : ElementId} (link : dom.parent id = some parent)
      (undeclared : binder.declares (dom.face id).attributes = false)
      (nearest : Nearest binder dom top parent) : Nearest binder dom top id

theorem Dom.Nearest.declares {ℓ : Type} {binder : Binder} {dom : Dom ℓ} {top id : ElementId}
    (nearest : dom.Nearest binder top id) : binder.declares (dom.face top).attributes = true := by
  induction nearest with
  | here declares => exact declares
  | child _ _ _ ih => exact ih

/-- Whether the bindings at an element are those at an element above it with the variables of the
`for` directives on the way. -/
inductive Dom.Loops {ℓ : Type} (binder : Binder) (dom : Dom ℓ) (bonds : Array Bond) (top : ElementId)
    (outer : Bindings) : ElementId → Bindings → Prop
  /-- There is nothing on the way. -/
  | here : Loops binder dom bonds top outer top outer
  /-- A child of an element without a `for` directive sees what its parent sees. -/
  | child {id parent : ElementId} {bindings : Bindings} (link : dom.parent id = some parent)
      (plain : binder.repeats (dom.face parent).attributes = false)
      (loops : Loops binder dom bonds top outer parent bindings) :
      Loops binder dom bonds top outer id bindings
  /-- A copy sees an item besides what the `for` directive sees. -/
  | copy {id : ElementId} {bond : Bond} {template : Child} {name : String} {depth : Nat}
      (link : dom.parent id = some bond.element) (bound : bond ∈ bonds)
      (purpose : bond.purpose = .repeated template name depth)
      (loops : Loops binder dom bonds top outer bond.element bond.bindings) (item : Value) :
      Loops binder dom bonds top outer id (bond.bindings.insert name item)

/-! ## Places of directives -/

/-- Whether what is seen at an element that declares data is what its root has: the data of the root,
and no loop variables yet. -/
def Page.Rooted (page : Page) (top : ElementId) (scope : Scope) (outer : Bindings) : Prop :=
  ∃ root ∈ page.roots, root.element = top ∧ scope = .over root.data ∧ outer = Assoc.empty

/-- Whether an element is no root, and what is seen there is what a `for` directive gives the copies
of its template, which declares data. -/
def Page.Strayed (binder : Binder) (page : Page) (bonds : Array Bond) (top : ElementId) (scope : Scope)
    (outer : Bindings) : Prop :=
  (∀ root ∈ page.roots, root.element ≠ top) ∧
    ∃ bond ∈ bonds, ∃ template name depth item,
      bond.purpose = .repeated (.element template) name depth ∧
        binder.declares (page.dom.face template).attributes = true ∧ scope = bond.scope ∧
          outer = bond.bindings.insert name item

/-- Whether a directive of an element is bound where it is to be bound. -/
structure Page.BoundAt (binder : Binder) (page : Page) (bonds : Array Bond) (id : ElementId)
    (scope : Scope) (bindings : Bindings) (serves : Directive → Prop) : Prop where
  /-- The element carries the directive. -/
  directive : ∃ directive ∈ binder.directives (page.dom.face id).attributes.entries, serves directive
  /-- The data is that of a root. -/
  root : ∃ root ∈ page.roots, scope = .over root.data
  /-- The root is the nearest element with data, and besides its data there are loop variables only,
  unless that element is a copy of a template with data. -/
  nearest : ∀ top, page.dom.Nearest binder top id → ∃ outer,
    page.dom.Loops binder bonds top outer id bindings ∧
      (page.Rooted top scope outer ∨ page.Strayed binder bonds top scope outer)

namespace Chart

variable {κ : Type} {binder : Binder} {side : ElementId → κ} {chart : Chart binder side} {k : κ}
  {world : World Page} {page : Page} {bonds : Array Bond}

/-- The directives of the effects can be listed. -/
theorem FitsEffects.table (fits : chart.FitsEffects world) :
    ∃ bonds : Array Bond, world.bodies = bonds.map (fun bond => (bond.task binder).toTask) ∧
      ∀ effect : EffectId, bonds[effect.index]? = chart.bond effect := by
  have assigned (place : Fin world.bodies.size) : (chart.bond ⟨place⟩).isSome := by
    have known := fits.bodies ⟨place⟩
    cases bond : chart.bond ⟨place⟩ with
    | none => simp [bond] at known
    | some bond => rfl
  let bonds := Array.ofFn fun place => (chart.bond ⟨place⟩).get (assigned place)
  have same (effect : EffectId) : bonds[effect.index]? = chart.bond effect := by
    rcases Nat.lt_or_ge effect.index world.bodies.size with known | beyond
    · simp [bonds, known]
    · have nothing := fits.bodies effect
      rw [Array.getElem?_eq_none beyond] at nothing
      rw [Option.map_eq_none_iff.mp nothing.symm]
      exact Array.getElem?_eq_none (by simpa [bonds] using beyond)
  refine ⟨bonds, Array.ext_getElem? fun place => ?_, same⟩
  rw [Array.getElem?_map, same ⟨place⟩]
  exact fits.bodies ⟨place⟩

/-- What has a home is at home where the nearest element with data is, and sees the variables of the
`for` directives between them. -/
theorem FitsPage.home_of_nearest (fits : chart.FitsPage page)
    (listed : ∀ effect bond, chart.bond effect = some bond → bond ∈ bonds) {top id : ElementId}
    (nearest : page.dom.Nearest binder top id) {root : ElementId} {bindings : Bindings}
    (home : chart.home id = some ⟨root, bindings⟩) :
    ∃ outer, chart.home top = some ⟨root, outer⟩ ∧
      page.dom.Loops binder bonds top outer id bindings := by
  induction nearest generalizing bindings with
  | here => exact ⟨bindings, home, .here⟩
  | @child id parent link undeclared nearest ih =>
      have child := (fits.forest.linked id parent).mp link
      cases repeats : binder.repeats (page.dom.face parent).attributes with
      | false =>
          have inner := fits.inner parent repeats id child
          rw [undeclared, if_neg Bool.false_ne_true, home] at inner
          obtain ⟨outer, above, loops⟩ := ih inner.symm
          exact ⟨outer, above, .child link repeats loops⟩
      | true =>
          rcases fits.stamped parent repeats id child _ home with ⟨_, declares⟩ | ⟨template, stamped⟩
          · rw [undeclared] at declares
            contradiction
          · obtain ⟨effect, bond, name, depth, item, hostHome, assigned, rfl, rest⟩ := stamped
            obtain ⟨purpose, host, bound, same⟩ := rest
            obtain ⟨rfl, rfl⟩ := Home.mk.inj same
            have there : chart.home bond.element = some ⟨hostHome.root, bond.bindings⟩ := bound ▸ host
            obtain ⟨outer, above, loops⟩ := ih there
            exact ⟨outer, above, .copy link (listed effect bond assigned) purpose loops item⟩

/-- What is at home with itself has no loop variables, and a copy has one at least. -/
theorem Stamped.ne_own {host id : ElementId} {template : Child} {home : Home}
    (stamped : chart.Stamped host template home) : home ≠ .own id := by
  obtain ⟨_, bond, name, _, item, _, _, _, _, _, _, rfl⟩ := stamped
  intro own
  have same := congrArg (Assoc.get? · name) (Home.mk.inj own).2
  simp [Assoc.get?_insert] at same

/-- A copy of a template with data is no root, and the `for` directive gives it what is seen there. -/
theorem Rests.strayed (rests : chart.Rests world)
    (listed : ∀ effect bond, chart.bond effect = some bond → bond ∈ bonds)
    {top host template root : ElementId} {outer : Bindings} {data : ContainerId}
    (home : chart.home top = some ⟨root, outer⟩) (given : chart.data root = some data)
    (stamped : chart.Stamped host (.element template) ⟨root, outer⟩)
    (carries : binder.declares (world.dom.face template).attributes = true) :
    world.surroundings.Strayed binder bonds top (.over data) outer := by
  refine ⟨fun other member same => ?_, ?_⟩
  · have fits := rests.fits.page
    have own := (fits.data _ _ (fits.roots other member)).2
    rw [same, home] at own
    exact stamped.ne_own (Option.some.inj own)
  · obtain ⟨effect, bond, name, depth, item, hostHome, assigned, rfl, rest⟩ := stamped
    obtain ⟨purpose, above, bound, same⟩ := rest
    obtain ⟨rfl, rfl⟩ := Home.mk.inj same
    obtain ⟨_, hostRoot, hostData, again, hostGiven, seen, -⟩ :=
      (rests.fits.effects.bonds effect bond assigned).atHome
    rw [above] at again
    obtain rfl := (Home.mk.inj (Option.some.inj again)).1
    obtain rfl := Option.some.inj (given.symm.trans hostGiven)
    exact ⟨bond, listed effect bond assigned, template, name, depth, item, purpose, carries,
      seen.symm, rfl⟩

/-- Where an element was put, its directives are to be bound. -/
theorem Rests.boundAt (rests : chart.Rests world)
    (listed : ∀ effect bond, chart.bond effect = some bond → bond ∈ bonds) {id : ElementId}
    {scope : Scope} {bindings : Bindings} {serves : Directive → Prop}
    (atHome : ∃ k, chart.AtHome k id scope bindings)
    (directive : ∃ attributes, chart.attributes id = some attributes ∧
      ∃ directive ∈ binder.directives attributes.entries, serves directive) :
    world.surroundings.BoundAt binder bonds id scope bindings serves := by
  have fits := rests.fits.page
  obtain ⟨k, root, data, home, given, rfl, -⟩ := atHome
  have mounted := rests.roots root data given
  refine ⟨?_, ⟨_, mounted, rfl⟩, fun top nearest => ?_⟩
  · obtain ⟨attributes, there, directive⟩ := directive
    rw [(fits.known_of_attributes there).2]
    exact directive
  · obtain ⟨outer, above, loops⟩ := fits.home_of_nearest listed nearest home
    refine ⟨outer, loops, ?_⟩
    rcases fits.declared top _ above nearest.declares with own | stray
    · obtain ⟨rfl, rfl⟩ := Home.mk.inj own
      exact .inl ⟨_, mounted, rfl, rfl, rfl⟩
    · obtain ⟨host, template, attributes, stamped, there, carries⟩ := stray
      rw [← (fits.known_of_attributes there).2] at carries
      exact .inr (rests.strayed listed above given stamped carries)

end Chart

namespace App

/-- Whatever happens to a mounted page, every effect is that of a directive, and so is every
listener.  It sees the data of one root only, that of the nearest element that declares data, and
besides the variables of the `for` directives on the way from there.  The exception is what is in a
copy of a template that declares data: the copy is no root, and there the data of the `for` directive
is seen. -/
theorem directives_see_nearest (config : Config) (trees : List Tree) (top : ElementId) :
    (∀ app : App, (mounted config trees top).Attains app.world → ∀ element kind bubbles,
      (mounted config trees top).Attains (app.dispatch element kind bubbles).2.2.world) ∧
    ∀ world, (mounted config trees top).Attains world → ∃ bonds : Array Bond,
      world.bodies = bonds.map (fun bond => (bond.task (Binder.ofConfig ⟨0⟩ config)).toTask) ∧
      (∀ bond ∈ bonds, world.surroundings.BoundAt (Binder.ofConfig ⟨0⟩ config) bonds bond.element
        bond.scope bond.bindings bond.Serves) ∧
      ∀ id, ∀ listener ∈ (world.dom.element id).listeners,
        world.surroundings.BoundAt (Binder.ofConfig ⟨0⟩ config) bonds id listener.2.scope
          listener.2.bindings (listener.2.Serves listener.1) := by
  refine ⟨fun app attains => attains.dispatch, fun world attains => ?_⟩
  obtain ⟨chart, rests⟩ := attains.rests fun _ => ()
  obtain ⟨bonds, bodies, listed⟩ := rests.fits.effects.table
  have all effect bond (assigned : chart.bond effect = some bond) : bond ∈ bonds :=
    Array.mem_of_getElem? ((listed effect).trans assigned)
  refine ⟨bonds, bodies, fun bond member => ?_, fun id listener member => ?_⟩
  · obtain ⟨place, found⟩ := Array.mem_iff_getElem?.mp member
    have bound := rests.fits.effects.bonds ⟨place⟩ bond ((listed ⟨place⟩).symm.trans found)
    exact rests.boundAt all bound.atHome bound.directive
  · have listens := rests.fits.page.listeners id listener member
    exact rests.boundAt all listens.atHome listens.directive

/-! ## A list -/

/-- A list of one item, which is stamped of a template with some attributes. -/
def listed (attributes : List (String × String)) : App :=
  mounted Config.default
    [.element "ul" (Assoc.ofList [("a-data", "\x7b xs: [''] \x7d"), ("a-for", "x in xs")]) .empty
      [.element "li" (Assoc.ofList attributes) .empty []]] ⟨0⟩

/-- An item of a list sees the data of the list and the loop variable. -/
theorem item_sees_list : ∃ bonds : Array Bond,
    (listed [("a-on:click", "x")]).world.bodies =
      bonds.map (fun bond => (bond.task (Binder.ofConfig ⟨0⟩ Config.default)).toTask) ∧
    ∃ listener ∈ ((listed [("a-on:click", "x")]).world.dom.element ⟨3⟩).listeners, ∃ bindings,
    (listed [("a-on:click", "x")]).world.dom.Loops (Binder.ofConfig ⟨0⟩ Config.default) bonds ⟨1⟩
      bindings ⟨3⟩ listener.2.bindings ∧
    (listed [("a-on:click", "x")]).world.surroundings.Rooted ⟨1⟩ listener.2.scope bindings := by
  obtain ⟨bonds, bodies, -, listeners⟩ := (directives_see_nearest Config.default _ ⟨0⟩).2
    (listed [("a-on:click", "x")]).world .start
  have facts :
      ((listed [("a-on:click", "x")]).world.dom.element ⟨3⟩).listeners.length = 1 ∧
      (listed [("a-on:click", "x")]).world.dom.parent ⟨3⟩ = some ⟨1⟩ ∧
      (Binder.ofConfig ⟨0⟩ Config.default).declares
        ((listed [("a-on:click", "x")]).world.dom.face ⟨3⟩).attributes = false ∧
      (Binder.ofConfig ⟨0⟩ Config.default).declares
        ((listed [("a-on:click", "x")]).world.dom.face ⟨1⟩).attributes = true ∧
      (⟨⟨1⟩, ⟨1⟩⟩ : Root) ∈ (listed [("a-on:click", "x")]).world.surroundings.roots := by
    decide +kernel
  obtain ⟨one, link, undeclared, declares, mounted⟩ := facts
  obtain ⟨listener, only⟩ := List.length_eq_one_iff.mp one
  have member : listener ∈ ((listed [("a-on:click", "x")]).world.dom.element ⟨3⟩).listeners :=
    only ▸ List.mem_singleton_self _
  obtain ⟨outer, loops, rooted | strayed⟩ := (listeners ⟨3⟩ listener member).nearest ⟨1⟩
    (.child link undeclared (.here declares))
  · exact ⟨bonds, bodies, listener, member, outer, loops, rooted⟩
  · exact absurd rfl (strayed.1 _ mounted)

/-- An item that declares data of its own sees the data of the list nevertheless, and no root is at
the item. -/
theorem item_with_data_sees_list : ∃ listener ∈
      ((listed [("a-data", ""), ("a-on:click", "x")]).world.dom.element ⟨3⟩).listeners,
    (listed [("a-data", ""), ("a-on:click", "x")]).world.dom.Nearest
      (Binder.ofConfig ⟨0⟩ Config.default) ⟨3⟩ ⟨3⟩ ∧
    (listed [("a-data", ""), ("a-on:click", "x")]).world.surroundings.Rooted ⟨1⟩ listener.2.scope
      .empty ∧
    ¬ ∃ root ∈ (listed [("a-data", ""), ("a-on:click", "x")]).world.surroundings.roots,
      root.element = ⟨3⟩ := by
  have facts :
      ((listed [("a-data", ""), ("a-on:click", "x")]).world.dom.element ⟨3⟩).listeners.map
        (fun listener => listener.2.scope) = [.over ⟨1⟩] ∧
      (Binder.ofConfig ⟨0⟩ Config.default).declares
        ((listed [("a-data", ""), ("a-on:click", "x")]).world.dom.face ⟨3⟩).attributes = true ∧
      (listed [("a-data", ""), ("a-on:click", "x")]).world.surroundings.roots =
        [⟨⟨1⟩, ⟨1⟩⟩, ⟨⟨2⟩, ⟨2⟩⟩] := by
    decide +kernel
  obtain ⟨scopes, declares, roots⟩ := facts
  obtain ⟨listener, only, scope⟩ := List.map_eq_singleton_iff.mp scopes
  refine ⟨listener, only ▸ List.mem_singleton_self _, .here declares,
    ⟨⟨⟨1⟩, ⟨1⟩⟩, roots ▸ List.mem_cons_self, rfl, scope, rfl⟩, ?_⟩
  simp [roots]

end App

end LiveMarkup
