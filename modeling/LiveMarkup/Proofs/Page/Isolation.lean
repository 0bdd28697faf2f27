import LiveMarkup.Proofs.Page.Scoping

/-!
# Roots apart

Roots share one heap, one tracker and one document, but nothing that can be got at from the data of
one root can be got at from that of another one, be it through containers or through what functions
have captured.  So whatever a listener of one root does, it runs no effect of another root and
changes no element that is bound by another root.
-/

namespace LiveMarkup

/-- Whether a value leads to another one, through what containers hold and what functions have
captured. -/
inductive Heap.Leads (heap : Heap) (start : Value) : Value → Prop
  /-- The value itself. -/
  | here : Leads heap start start
  /-- What a container holds. -/
  | held {id : ContainerId} {value : Value} (leads : Leads heap start (.container id))
      (member : value ∈ (heap.contents id).values) : Leads heap start value
  /-- The data around a function. -/
  | data {id : FunctionId} {code : Closure} {data : ContainerId}
      (leads : Leads heap start (.function id)) (found : heap.closures[id.index]? = some code)
      (scope : code.scope.data = some data) : Leads heap start (.container data)
  /-- What is bound around a function. -/
  | bound {id : FunctionId} {code : Closure} {entry : String × Value}
      (leads : Leads heap start (.function id)) (found : heap.closures[id.index]? = some code)
      (member : entry ∈ code.bindings.entries) : Leads heap start entry.2

/-- Whether an element is bound by a root: one of its directives is bound over the data of the root,
or the root is the nearest element with data. -/
def Page.BoundBy (binder : Binder) (page : Page) (bonds : Array Bond) (root : Root) (id : ElementId) :
    Prop :=
  (∃ bond ∈ bonds, bond.element = id ∧ bond.scope = .over root.data) ∨
    (∃ listener ∈ (page.dom.element id).listeners, listener.2.scope = .over root.data) ∨
      page.dom.Nearest binder root.element id

theorem Dom.Nearest.known {ℓ : Type} {binder : Binder} {dom : Dom ℓ} {top id : ElementId}
    (nearest : dom.Nearest binder top id) (forest : dom.Forest) (ordered : dom.Ordered) :
    id.index < dom.size := by
  cases nearest with
  | here declares => exact Binder.known_of_declares declares
  | child link => exact Dom.known_of_child ordered ((forest.linked _ _).mp link)

namespace Chart

section Sides

variable {κ : Type} {binder : Binder} {side : ElementId → κ} {chart : Chart binder side} {k : κ}

/-- What lies on a side leads to nothing else. -/
theorem FitsHeap.held_of_leads {heap : Heap} (fits : chart.FitsHeap heap) {start value : Value}
    (held : chart.Held k start) (leads : heap.Leads start value) : chart.Held k value := by
  induction leads with
  | here => exact held
  | @held id value _ member ih => exact fits.values id k ih value member
  | @data id code data _ found scope ih => exact (fits.closures id k ih code found).data data scope
  | @bound id code entry _ found member ih =>
      exact (fits.closures id k ih code found).bindings entry member

/-- What lies on two sides is plain. -/
theorem Held.isPlain {other : κ} {value : Value} (held : chart.Held k value)
    (again : chart.Held other value) (differs : k ≠ other) : value.IsPlain := by
  cases value with
  | container id => exact differs (Option.some.inj (held.symm.trans again))
  | function id => exact differs (Option.some.inj (held.symm.trans again))
  | _ => trivial

end Sides

variable {binder : Binder} {chart : Chart binder id} {world : World Page} {bonds : Array Bond}

/-- Data is that of one root. -/
theorem FitsPage.root_of_data {page : Page} (fits : chart.FitsPage page) {first second : ElementId}
    {data : ContainerId} (given : chart.data first = some data)
    (again : chart.data second = some data) : second = first := by
  have here := (fits.data first data given).1
  rw [(fits.data second data again).1] at here
  exact Option.some.inj here

/-- An element has one root. -/
theorem FitsPage.root_unique {page : Page} (fits : chart.FitsPage page) {root other : Root}
    (mounted : root ∈ page.roots) (too : other ∈ page.roots) (same : root.element = other.element) :
    root = other := by
  have given := fits.roots root mounted
  rw [same, fits.roots other too] at given
  cases root
  cases other
  rw [Root.mk.injEq]
  exact ⟨same, (Option.some.inj given).symm⟩

/-- What sees the data of a root is at home there. -/
theorem AtHome.home {page : Page} (fits : chart.FitsPage page) {root : Root} (mounted : root ∈ page.roots)
    {k element : ElementId} {scope : Scope} {bindings : Bindings}
    (atHome : chart.AtHome k element scope bindings) (seen : scope = .over root.data) :
    k = root.element ∧ chart.home element = some ⟨root.element, bindings⟩ := by
  obtain ⟨above, data, home, given, rfl, rfl⟩ := atHome
  obtain rfl := Option.some.inj (congrArg Scope.data seen)
  obtain rfl := fits.root_of_data (fits.roots root mounted) given
  exact ⟨rfl, home⟩

/-- What is bound by a root is at home there, if anywhere. -/
theorem Fits.home_of_boundBy (fits : chart.Fits world)
    (listed : ∀ effect : EffectId, bonds[effect.index]? = chart.bond effect) {root : Root}
    (mounted : root ∈ world.surroundings.roots) {element : ElementId}
    (boundBy : world.surroundings.BoundBy binder bonds root element) :
    element.index < world.dom.size ∧
      ∀ home, chart.home element = some home → home.root = root.element := by
  have known home (given : chart.home element = some home) := fits.page.known element home given
  rcases boundBy with ⟨bond, member, rfl, seen⟩ | ⟨listener, member, seen⟩ | nearest
  · obtain ⟨place, found⟩ := Array.mem_iff_getElem?.mp member
    obtain ⟨k, atHome⟩ :=
      (fits.effects.bonds ⟨place⟩ bond ((listed ⟨place⟩).symm.trans found)).atHome
    have here := (atHome.home fits.page mounted seen).2
    refine ⟨known _ here, fun home given => ?_⟩
    rw [Option.some.inj (given.symm.trans here)]
  · obtain ⟨k, atHome⟩ := (fits.page.listeners element listener member).atHome
    have here := (atHome.home fits.page mounted seen).2
    refine ⟨known _ here, fun home given => ?_⟩
    rw [Option.some.inj (given.symm.trans here)]
  · refine ⟨nearest.known fits.page.forest fits.page.ordered, fun home given => ?_⟩
    have all effect bond (assigned : chart.bond effect = some bond) : bond ∈ bonds :=
      Array.mem_of_getElem? ((listed effect).trans assigned)
    obtain ⟨outer, above, -⟩ := fits.page.home_of_nearest all nearest given
    have own := (fits.page.data _ _ (fits.page.roots root mounted)).2
    exact (Home.mk.inj (Option.some.inj (above.symm.trans own))).1

/-- What the data of two roots leads to has nothing in common but plain values. -/
theorem Fits.isPlain_of_leads (fits : chart.Fits world) {root other : Root}
    (mounted : root ∈ world.surroundings.roots) (too : other ∈ world.surroundings.roots)
    (differs : root ≠ other) {value : Value}
    (leads : world.store.heap.Leads (.container root.data) value)
    (again : world.store.heap.Leads (.container other.data) value) : value.IsPlain := by
  have on (root : Root) (mounted : root ∈ world.surroundings.roots) :
      chart.Held root.element (.container root.data) :=
    (fits.page.data _ _ (fits.page.roots root mounted)).1
  exact (fits.heap.held_of_leads (on root mounted) leads).isPlain
    (fits.heap.held_of_leads (on other too) again)
    fun same => differs (fits.page.root_unique mounted too same)

end Chart

namespace App

/-- In whatever becomes of a mounted page, roots are apart.  The data of two roots leads to no
container and no function in common.  When a listener of a root handles an event, with everything
that it writes and all effects that are run for that, no effect that is bound over the data of
another root runs, and no element that is bound by another root changes its attributes, its style or
its children. -/
theorem roots_isolated (config : Config) (trees : List Tree) (top : ElementId) :
    (∀ app : App, (mounted config trees top).Attains app.world → ∀ element kind bubbles,
      (mounted config trees top).Attains (app.dispatch element kind bubbles).2.2.world) ∧
    ∀ world, (mounted config trees top).Attains world → ∃ bonds : Array Bond,
      world.bodies = bonds.map (fun bond => (bond.task (Binder.ofConfig ⟨0⟩ config)).toTask) ∧
      ∀ root ∈ world.surroundings.roots, ∀ other ∈ world.surroundings.roots, root ≠ other →
        (∀ value, world.store.heap.Leads (.container root.data) value →
          world.store.heap.Leads (.container other.data) value → value.IsPlain) ∧
        ∀ id, ∀ listener ∈ (world.dom.element id).listeners, listener.2.scope = .over root.data →
          ∀ event bound, ∃ after,
            (listener.2.handle event).Ends (World.runEffect bound) world (.ok ()) after ∧
            (∀ (effect : EffectId) (bond : Bond), bonds[effect.index]? = some bond →
              bond.scope = .over other.data →
                after.store.runCount effect = world.store.runCount effect) ∧
            ∀ element, world.surroundings.BoundBy (Binder.ofConfig ⟨0⟩ config) bonds other element →
              after.dom.face element = world.dom.face element := by
  refine ⟨fun app attains => attains.dispatch, fun world attains => ?_⟩
  obtain ⟨chart, rests⟩ := attains.rests fun root => root
  have fits := rests.fits
  obtain ⟨bonds, bodies, listed⟩ := fits.effects.table
  refine ⟨bonds, bodies, fun root mounted other too differs =>
    ⟨fun value => fits.isPlain_of_leads mounted too differs, fun id listener member seen event bound => ?_⟩⟩
  have listens := fits.page.listeners id listener member
  obtain ⟨k, atHome⟩ := listens.atHome
  obtain ⟨rfl, -⟩ := atHome.home fits.page mounted seen
  have apart : other.element ≠ root.element :=
    fun same => differs (fits.page.root_unique mounted too same.symm)
  obtain ⟨after, more, ends, -, spares⟩ :=
    rests.handle (Chart.keepsRuns rfl bound) listens.tracker atHome event
  refine ⟨after, ends, fun effect bond found seen => ?_, fun element boundBy => ?_⟩
  · have assigned := (listed effect).symm.trans found
    obtain ⟨above, there⟩ := (fits.effects.bonds effect bond assigned).atHome
    obtain ⟨rfl, -⟩ := there.home fits.page too seen
    exact spares.runs effect other.element ⟨bond, assigned, there⟩ apart
  · obtain ⟨known, homes⟩ := fits.home_of_boundBy listed too boundBy
    exact spares.face element known fun home given => homes home given ▸ apart

/-! ## A root in a root -/

/-- A box with a paragraph in it, each a root.  A click on the box writes to its data. -/
def nested : App :=
  mounted Config.default
    [.element "div" (Assoc.ofList [("a-data", ""), ("a-on:click", "n = 'x'")]) .empty
      [.element "p" (Assoc.ofList [("a-data", "")]) .empty []]] ⟨0⟩

/-- The data of the box and of the paragraph have nothing in common, and a click on the box does
nothing to the paragraph. -/
theorem box_spares_paragraph :
    (∀ value, nested.world.store.heap.Leads (.container ⟨0⟩) value →
      nested.world.store.heap.Leads (.container ⟨1⟩) value → value.IsPlain) ∧
    ∃ listener ∈ (nested.world.dom.element ⟨1⟩).listeners, ∀ event bound, ∃ after,
      (listener.2.handle event).Ends (World.runEffect bound) nested.world (.ok ()) after ∧
        after.dom.face ⟨2⟩ = nested.world.dom.face ⟨2⟩ := by
  obtain ⟨bonds, -, isolated⟩ := (roots_isolated Config.default _ ⟨0⟩).2 nested.world .start
  have facts :
      (nested.world.dom.element ⟨1⟩).listeners.map (fun listener => listener.2.scope) = [.over ⟨0⟩] ∧
      nested.world.surroundings.roots = [⟨⟨1⟩, ⟨0⟩⟩, ⟨⟨2⟩, ⟨1⟩⟩] ∧
      (Binder.ofConfig ⟨0⟩ Config.default).declares (nested.world.dom.face ⟨2⟩).attributes = true := by
    decide +kernel
  obtain ⟨scopes, roots, declares⟩ := facts
  obtain ⟨listener, only, scope⟩ := List.map_eq_singleton_iff.mp scopes
  obtain ⟨apart, spares⟩ := isolated ⟨⟨1⟩, ⟨0⟩⟩ (by simp [roots]) ⟨⟨2⟩, ⟨1⟩⟩ (by simp [roots])
    (by decide)
  have member : listener ∈ (nested.world.dom.element ⟨1⟩).listeners :=
    only ▸ List.mem_singleton_self _
  refine ⟨apart, listener, member, fun event bound => ?_⟩
  obtain ⟨after, ends, -, same⟩ := spares ⟨1⟩ listener member scope event bound
  exact ⟨after, ends, same ⟨2⟩ (.inr (.inr (.here declares)))⟩

end App

end LiveMarkup
