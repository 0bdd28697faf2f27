import LiveMarkup.Proofs.Directive.Slot
import LiveMarkup.Proofs.Document.Forest
import LiveMarkup.Proofs.Expr.Discipline
import LiveMarkup.Proofs.Page.Sound

/-!
# Charts

A chart records for a page what the page itself does not tell: which directive each effect is of,
below which root and with which loop variables each element was put, and which side each container
and each function is on.  Roots are on sides, and what lies on one side never gets to another one.
With a side of its own for every root a chart keeps roots apart; with one side for all of them it
only says where directives were bound.  Like the typing of a store, a chart only grows.
-/

namespace LiveMarkup

/-! ## Directives and elements -/

/-- What the effect of a directive does to its element. -/
inductive Purpose where
  /-- It shows a text. -/
  | text
  /-- It shows or hides the element. -/
  | visible
  /-- It stamps a template for every item of a list and binds the copies under a name, as far down as
  a bound. -/
  | repeated (template : Child) (name : String) (depth : Nat)

/-- The directives that are for a purpose. -/
def Purpose.kind : Purpose → DirectiveKind
  | text => .text
  | visible => .visible
  | repeated _ _ _ => .repeated

/-- The loop variable of a purpose; none has the empty name. -/
def Purpose.variable : Purpose → String
  | text | visible => ""
  | repeated _ name _ => name

/-- A directive that was bound as an effect. -/
structure Bond where
  /-- The element that carries the directive. -/
  element : ElementId
  /-- The scope that its expression is evaluated in. -/
  scope : Scope
  /-- The bindings that its expression is evaluated with. -/
  bindings : Bindings
  /-- The expression. -/
  expr : Expr
  /-- What is done with its value. -/
  purpose : Purpose

/-- Whether the effect is that of a directive. -/
def Bond.Serves (bond : Bond) (directive : Directive) : Prop :=
  directive.kind = bond.purpose.kind ∧
    directive.demand? = .ok (bond.purpose.variable, bond.expr)

/-- Whether the listener is that of a directive, for a kind of events. -/
def Handler.Serves (handler : Handler) (kind : String) (directive : Directive) : Prop :=
  directive.kind = .on ∧ directive.argument.getD "" = kind ∧
    directive.demand? = .ok ("", handler.expr)

/-- What the effect of a directive runs. -/
def Bond.task (binder : Binder) (bond : Bond) : TaskM Page Value :=
  match bond.purpose with
  | .text => do
      let value ← Expr.eval bond.scope bond.bindings bond.expr
      let text ← TaskM.watch fun heap => heap.shownText value
      Page.edit fun dom => dom.setText bond.element text
      return .undefined
  | .visible => do
      let value ← Expr.eval bond.scope bond.bindings bond.expr
      Page.edit fun dom =>
        dom.setStyle bond.element "display" (if value.isTruthy then "block" else "none")
      return .undefined
  | .repeated template name depth =>
      Binder.stamp (binder.bindWithin depth) bond.element template name bond.expr bond.scope
        bond.bindings

namespace Binder

/-- Whether some attributes declare data. -/
def declares (binder : Binder) (attributes : Assoc String String) : Bool :=
  attributes.contains binder.dataAttribute

/-- Whether there is a `for` directive among some attributes. -/
def repeats (binder : Binder) (attributes : Assoc String String) : Bool :=
  (binder.directives attributes.entries).any fun directive => directive.kind = .repeated

end Binder

/-- Where an element was put: below which root, and with which loop variables. -/
structure Home where
  /-- The element that declares the data. -/
  root : ElementId
  /-- The loop variables. -/
  bindings : Bindings

/-- An element that declares data is at home with itself. -/
def Home.own (id : ElementId) : Home := ⟨id, Assoc.empty⟩

/-! ## Charts -/

/-- What is recorded for a page, given on which side each root is. -/
structure Chart {κ : Type} (binder : Binder) (side : ElementId → κ) where
  /-- The sides of the containers. -/
  container : ContainerId → Option κ
  /-- The sides of the functions. -/
  function : FunctionId → Option κ
  /-- The directives of the effects. -/
  bond : EffectId → Option Bond
  /-- The attributes of the elements. -/
  attributes : ElementId → Option (Assoc String String)
  /-- Where the elements were put; an element that is never bound has no home. -/
  home : ElementId → Option Home
  /-- The data of the roots. -/
  data : ElementId → Option ContainerId

namespace Chart

variable {κ : Type} {binder : Binder} {side : ElementId → κ}

/-- Whether all that one chart records is recorded by another one. -/
structure Le (chart more : Chart binder side) : Prop where
  container : ∀ id k, chart.container id = some k → more.container id = some k
  function : ∀ id k, chart.function id = some k → more.function id = some k
  bond : ∀ effect bond, chart.bond effect = some bond → more.bond effect = some bond
  attributes : ∀ id attributes, chart.attributes id = some attributes →
    more.attributes id = some attributes
  home : ∀ id home, chart.home id = some home → more.home id = some home
  data : ∀ id data, chart.data id = some data → more.data id = some data

theorem Le.refl (chart : Chart binder side) : chart.Le chart :=
  ⟨fun _ _ same => same, fun _ _ same => same, fun _ _ same => same, fun _ _ same => same,
    fun _ _ same => same, fun _ _ same => same⟩

theorem Le.trans {first second third : Chart binder side} (before : first.Le second)
    (after : second.Le third) : first.Le third where
  container id k same := after.container id k (before.container id k same)
  function id k same := after.function id k (before.function id k same)
  bond effect bond same := after.bond effect bond (before.bond effect bond same)
  attributes id attributes same :=
    after.attributes id attributes (before.attributes id attributes same)
  home id home same := after.home id home (before.home id home same)
  data id data same := after.data id data (before.data id data same)

section Records

variable (chart : Chart binder side) (k : κ)

/-- Whether a value is plain or lies on a side. -/
def Held : Value → Prop
  | .container id => chart.container id = some k
  | .function id => chart.function id = some k
  | .undefined | .null | .bool _ | .number _ | .text _ | .event _ => True

/-- Whether all that an expression can see lies on a side. -/
abbrev Sees (scope : Scope) (bindings : Bindings) : Prop :=
  LiveMarkup.Sees (· = ⟨0⟩) (chart.Held k) scope bindings

/-- Whether a scope and bindings are those of the place where an element was put, and its root is on
a side. -/
def AtHome (element : ElementId) (scope : Scope) (bindings : Bindings) : Prop :=
  ∃ root data, chart.home element = some ⟨root, bindings⟩ ∧ chart.data root = some data ∧
    scope = .over data ∧ side root = k

/-- Whether an effect is of a directive below a root on a side. -/
def Of (effect : EffectId) : Prop :=
  ∃ bond, chart.bond effect = some bond ∧ chart.AtHome k bond.element bond.scope bond.bindings

/-- Whether an element was put where a `for` directive puts the copies of a template. -/
def Stamped (host : ElementId) (template : Child) (home : Home) : Prop :=
  ∃ effect bond name depth item hostHome, chart.bond effect = some bond ∧ bond.element = host ∧
    bond.purpose = .repeated template name depth ∧ chart.home host = some hostHome ∧
    bond.bindings = hostHome.bindings ∧
    home = ⟨hostHome.root, bond.bindings.insert name item⟩

end Records

variable {chart more : Chart binder side} {k : κ}

theorem Held.mono {value : Value} (held : chart.Held k value) (le : chart.Le more) :
    more.Held k value := by
  cases value with
  | container id => exact le.container id k held
  | function id => exact le.function id k held
  | _ => trivial

theorem held_of_isPlain {value : Value} (plain : value.IsPlain) : chart.Held k value := by
  cases value with
  | container id => exact plain.elim
  | function id => exact plain.elim
  | _ => trivial

theorem AtHome.mono {element : ElementId} {scope : Scope} {bindings : Bindings}
    (atHome : chart.AtHome k element scope bindings) (le : chart.Le more) :
    more.AtHome k element scope bindings := by
  obtain ⟨root, data, home, given, same, on⟩ := atHome
  exact ⟨root, data, le.home _ _ home, le.data _ _ given, same, on⟩

theorem Of.mono {effect : EffectId} (own : chart.Of k effect) (le : chart.Le more) :
    more.Of k effect := by
  obtain ⟨bond, assigned, atHome⟩ := own
  exact ⟨bond, le.bond _ _ assigned, atHome.mono le⟩

/-- An effect is of one side only. -/
theorem Of.unique {other : κ} {effect : EffectId} (own : chart.Of k effect)
    (again : chart.Of other effect) : other = k := by
  obtain ⟨bond, assigned, root, _, home, _, _, rfl⟩ := own
  obtain ⟨same, assignedAgain, root', _, home', _, _, rfl⟩ := again
  obtain rfl := Option.some.inj (assigned.symm.trans assignedAgain)
  rw [(Home.mk.inj (Option.some.inj (home.symm.trans home'))).1]

theorem Stamped.mono {host : ElementId} {template : Child} {home : Home}
    (stamped : chart.Stamped host template home) (le : chart.Le more) :
    more.Stamped host template home := by
  obtain ⟨effect, bond, name, depth, item, hostHome, assigned, rest⟩ := stamped
  obtain ⟨host, purpose, above, bindings, same⟩ := rest
  exact ⟨effect, bond, name, depth, item, hostHome, le.bond _ _ assigned, host, purpose,
    le.home _ _ above, bindings, same⟩

/-! ## What a chart says of a page -/

/-- What a chart says of the heap: containers hold, and functions have seen, only what lies on their
own side. -/
structure FitsHeap (chart : Chart binder side) (heap : Heap) : Prop where
  containers : ∀ id, (chart.container id).isSome ↔ id.index < heap.containers.size
  functions : ∀ id, (chart.function id).isSome ↔ id.index < heap.closures.size
  /-- There is one tracker. -/
  owner : ∀ id, heap.owner id = ⟨0⟩
  values : ∀ id k, chart.container id = some k → ∀ value ∈ (heap.contents id).values,
    chart.Held k value
  closures : ∀ id k, chart.function id = some k → ∀ code ∈ heap.closures[id.index]?,
    chart.Sees k code.scope code.bindings

/-- What a chart says of the subscriptions: effects follow only what lies on their own side. -/
def FitsReaders (chart : Chart binder side) (store : Store) : Prop :=
  ∀ access effect, effect ∈ store.dependents access →
    ∃ k, chart.container access.container = some k ∧ chart.Of k effect

/-- Whether a directive of an element was bound as a listener where the element was put. -/
structure Listens (chart : Chart binder side) (id : ElementId) (listener : String × Handler) :
    Prop where
  tracker : listener.2.tracker = ⟨0⟩
  atHome : ∃ k, chart.AtHome k id listener.2.scope listener.2.bindings
  directive : ∃ attributes, chart.attributes id = some attributes ∧
    ∃ directive ∈ binder.directives attributes.entries, listener.2.Serves listener.1 directive

/-- What a chart says of a document.  Children share the home of their parent unless they declare
data, and below an element with a `for` directive nothing is bound but what is stamped. -/
structure FitsPage (chart : Chart binder side) (page : Page) : Prop where
  forest : page.dom.Forest
  ordered : page.dom.Ordered
  attributes : ∀ id, chart.attributes id =
    if id.index < page.dom.size then some (page.dom.face id).attributes else none
  known : ∀ id home, chart.home id = some home → id.index < page.dom.size
  held : ∀ id home, chart.home id = some home → ∀ entry ∈ home.bindings.entries,
    chart.Held (side home.root) entry.2
  inner : ∀ parent, binder.repeats (page.dom.face parent).attributes = false →
    ∀ id ∈ page.dom.childElements parent, chart.home id =
      if binder.declares (page.dom.face id).attributes then some (.own id) else chart.home parent
  stamped : ∀ parent, binder.repeats (page.dom.face parent).attributes = true →
    ∀ id ∈ page.dom.childElements parent, ∀ home, chart.home id = some home →
      home = .own id ∧ binder.declares (page.dom.face id).attributes = true ∨
        ∃ template, chart.Stamped parent template home
  declared : ∀ id home, chart.home id = some home →
    binder.declares (page.dom.face id).attributes = true →
      home = .own id ∨ ∃ host template attributes, chart.Stamped host (.element template) home ∧
        chart.attributes template = some attributes ∧ binder.declares attributes = true
  listeners : ∀ id, ∀ listener ∈ (page.dom.element id).listeners, chart.Listens id listener
  roots : ∀ root ∈ page.roots, chart.data root.element = some root.data
  data : ∀ id data, chart.data id = some data → chart.container data = some (side id) ∧
    chart.home id = some (.own id)

/-- Whether a directive of an element was bound as an effect where the element was put. -/
structure Bound (chart : Chart binder side) (bond : Bond) : Prop where
  atHome : ∃ k, chart.AtHome k bond.element bond.scope bond.bindings
  directive : ∃ attributes, chart.attributes bond.element = some attributes ∧
    ∃ directive ∈ binder.directives attributes.entries, bond.Serves directive
  template : ∀ template name depth, bond.purpose = .repeated (.element template) name depth →
    (chart.attributes template).isSome

/-- What a chart says of the effects: each one is of a directive. -/
structure FitsEffects (chart : Chart binder side) (world : World Page) : Prop where
  bodies : ∀ effect : EffectId, world.bodies[effect.index]? =
    (chart.bond effect).map fun bond => (bond.task binder).toTask
  runs : world.store.runs.size = world.bodies.size
  bonds : ∀ effect bond, chart.bond effect = some bond → chart.Bound bond

/-- What a chart says of a world. -/
structure Fits (chart : Chart binder side) (world : World Page) : Prop where
  heap : chart.FitsHeap world.store.heap
  readers : chart.FitsReaders world.store
  page : chart.FitsPage world.surroundings
  effects : chart.FitsEffects world

/-- Whether reads count for no effect but those of a side. -/
def Framed (chart : Chart binder side) (k : κ) (world : World Page) : Prop :=
  ∀ effect, (world.store.tracker ⟨0⟩).current = some effect → chart.Of k effect

/-- Whether nothing has happened between two worlds but on one side.  Elements that were there and
are not at home on that side show what they showed, effects of other sides have not run, no element
that was there has become a child, and no listener is lost. -/
structure Spares (k : κ) (chart : Chart binder side) (before : World Page) (more : Chart binder side)
    (after : World Page) : Prop where
  le : chart.Le more
  data : more.data = chart.data
  roots : after.surroundings.roots = before.surroundings.roots
  trackers : after.store.trackers.size = before.store.trackers.size
  stack : ∀ id, (after.store.tracker id).stack = (before.store.tracker id).stack
  size : before.dom.size ≤ after.dom.size
  home : ∀ id : ElementId, id.index < before.dom.size → more.home id = chart.home id
  face : ∀ id : ElementId, id.index < before.dom.size →
    (∀ home, chart.home id = some home → side home.root ≠ k) → after.dom.face id = before.dom.face id
  listed : ∀ id parent : ElementId, id.index < before.dom.size →
    id ∈ after.dom.childElements parent → id ∈ before.dom.childElements parent
  heard : ∀ id, (before.dom.element id).listeners ⊆ (after.dom.element id).listeners
  runs : ∀ effect other, chart.Of other effect → other ≠ k →
    after.store.runCount effect = before.store.runCount effect

theorem Spares.refl (k : κ) (chart : Chart binder side) (world : World Page) :
    Spares k chart world chart world :=
  ⟨.refl chart, rfl, rfl, rfl, fun _ => rfl, Nat.le_refl _, fun _ _ => rfl, fun _ _ _ => rfl,
    fun _ _ _ listed => listed, fun _ _ member => member, fun _ _ _ _ => rfl⟩

theorem Spares.trans {first second third : Chart binder side} {before between after : World Page}
    (spares : Spares k first before second between) (later : Spares k second between third after) :
    Spares k first before third after where
  le := spares.le.trans later.le
  data := later.data.trans spares.data
  roots := later.roots.trans spares.roots
  trackers := later.trackers.trans spares.trackers
  stack id := (later.stack id).trans (spares.stack id)
  size := Nat.le_trans spares.size later.size
  home id known :=
    (later.home id (Nat.lt_of_lt_of_le known spares.size)).trans (spares.home id known)
  face id known apart := by
    have still : ∀ home, second.home id = some home → side home.root ≠ k := by
      rw [spares.home id known]
      exact apart
    exact (later.face id (Nat.lt_of_lt_of_le known spares.size) still).trans
      (spares.face id known apart)
  listed id parent known listed :=
    spares.listed id parent known
      (later.listed id parent (Nat.lt_of_lt_of_le known spares.size) listed)
  heard id := List.Subset.trans (spares.heard id) (later.heard id)
  runs effect other own differs :=
    (later.runs effect other (own.mono spares.le) differs).trans
      (spares.runs effect other own differs)

theorem Framed.mono {world after : World Page} (framed : chart.Framed k world) (le : chart.Le more)
    (stack : (after.store.tracker ⟨0⟩).stack = (world.store.tracker ⟨0⟩).stack) :
    more.Framed k after := by
  intro effect running
  rw [Tracker.current, stack] at running
  exact (framed effect running).mono le

/-! ## Growing charts -/

theorem Listens.mono {id : ElementId} {listener : String × Handler}
    (listens : chart.Listens id listener) (le : chart.Le more) : more.Listens id listener where
  tracker := listens.tracker
  atHome := listens.atHome.imp fun _ atHome => atHome.mono le
  directive := by
    obtain ⟨attributes, given, serves⟩ := listens.directive
    exact ⟨attributes, le.attributes _ _ given, serves⟩

theorem FitsPage.mono {page : Page} (fits : chart.FitsPage page) (le : chart.Le more)
    (attributes : more.attributes = chart.attributes) (home : more.home = chart.home)
    (data : more.data = chart.data) : more.FitsPage page where
  forest := fits.forest
  ordered := fits.ordered
  attributes := attributes ▸ fits.attributes
  known := home ▸ fits.known
  held id there given entry member := (fits.held id there (home ▸ given) entry member).mono le
  inner := home ▸ fits.inner
  stamped parent repeats id listed there given :=
    (fits.stamped parent repeats id listed there (home ▸ given)).imp_right
      fun ⟨template, stamped⟩ => ⟨template, stamped.mono le⟩
  declared id there given declares :=
    (fits.declared id there (home ▸ given) declares).imp_right
      fun ⟨host, template, attributes, stamped, same, carries⟩ =>
        ⟨host, template, attributes, stamped.mono le, le.attributes _ _ same, carries⟩
  listeners id listener member := (fits.listeners id listener member).mono le
  roots := data ▸ fits.roots
  data id given same := by
    obtain ⟨container, own⟩ := fits.data id given (data ▸ same)
    exact ⟨le.container _ _ container, le.home _ _ own⟩

theorem Bound.mono {bond : Bond} (bound : chart.Bound bond) (le : chart.Le more) : more.Bound bond where
  atHome := bound.atHome.imp fun _ atHome => atHome.mono le
  directive := by
    obtain ⟨attributes, given, serves⟩ := bound.directive
    exact ⟨attributes, le.attributes _ _ given, serves⟩
  template template name depth same := by
    obtain ⟨attributes, given⟩ := Option.isSome_iff_exists.mp (bound.template template name depth same)
    exact Option.isSome_iff_exists.mpr ⟨attributes, le.attributes _ _ given⟩

theorem FitsEffects.mono {world : World Page} (fits : chart.FitsEffects world) (le : chart.Le more)
    (bond : more.bond = chart.bond) : more.FitsEffects world where
  bodies := bond ▸ fits.bodies
  runs := fits.runs
  bonds effect assigned same := (fits.bonds effect assigned (bond ▸ same)).mono le

theorem FitsReaders.mono {store : Store} (fits : chart.FitsReaders store) (le : chart.Le more) :
    more.FitsReaders store := by
  intro access effect subscribed
  obtain ⟨k, container, own⟩ := fits access effect subscribed
  exact ⟨k, le.container _ _ container, own.mono le⟩

theorem FitsHeap.mono {heap : Heap} (fits : chart.FitsHeap heap) (le : chart.Le more)
    (container : more.container = chart.container) (function : more.function = chart.function) :
    more.FitsHeap heap where
  containers := container ▸ fits.containers
  functions := function ▸ fits.functions
  owner := fits.owner
  values id k same value member := (fits.values id k (container ▸ same) value member).mono le
  closures id k same code given :=
    (fits.closures id k (function ▸ same) code given).imp fun _ held => held.mono le

/-- What lies on a side holds nothing else. -/
theorem FitsHeap.encloses {heap : Heap} (fits : chart.FitsHeap heap) (k : κ) :
    heap.Encloses fun id => chart.container id = some k := by
  intro id inside value member other same
  have held := fits.values id k inside value member
  rw [same] at held
  exact held

theorem Held.inside {value : Value} (held : chart.Held k value) :
    value.In fun id => chart.container id = some k := by
  intro id same
  subst same
  exact held

/-- What is seen at the home of an element lies on the side of its root. -/
theorem AtHome.sees {page : Page} (fits : chart.FitsPage page) {element : ElementId} {scope : Scope}
    {bindings : Bindings} (atHome : chart.AtHome k element scope bindings) :
    chart.Sees k scope bindings := by
  obtain ⟨root, data, home, given, rfl, rfl⟩ := atHome
  exact ⟨rfl, fun id same => Option.some.inj same ▸ (fits.data root data given).1,
    fits.held element _ home⟩

end Chart

end LiveMarkup
