import LiveMarkup.Page.App
import LiveMarkup.Proofs.Page.Binding

/-!
# Mounted pages

A document is mounted in a page in which nothing has happened.  The data of each root is made by its
declaration, which sees nothing, so the sides of the roots have nothing in common.  From then on
events, with the listeners that they run, keep the chart of the page right.
-/

namespace LiveMarkup

namespace Chart

variable {κ : Type} {binder : Binder} {side : ElementId → κ} {chart more : Chart binder side} {k : κ}
  {runner : World.Runner Page} {world after : World Page}

/-! ## New documents -/

/-- A chart in which nothing is recorded. -/
def blank (binder : Binder) (side : ElementId → κ) : Chart binder side where
  container _ := none
  function _ := none
  bond _ := none
  attributes _ := none
  home _ := none
  data _ := none

theorem fits_blank (config : Config) :
    (blank binder side).Fits (World.blank config Page.empty) where
  heap :=
    { containers := fun id => ⟨fun made => (nomatch made), fun known => absurd known (Nat.not_lt_zero _)⟩
      functions := fun id => ⟨fun made => (nomatch made), fun known => absurd known (Nat.not_lt_zero _)⟩
      owner := fun _ => rfl
      values := fun _ _ made => nomatch made
      closures := fun _ _ made => nomatch made }
  readers access effect subscribed := by
    simp [Store.dependents, World.blank, Store.tracker, Store.new, Tracker.dependents,
      Tracker.new, Heap.owner, Heap.container, Heap.empty] at subscribed
  page :=
    { forest := Dom.empty_forest
      ordered := fun _ _ listed => absurd listed List.not_mem_nil
      attributes := fun _ => (if_neg (Nat.not_lt_zero _)).symm
      known := fun _ _ given => nomatch given
      held := fun _ _ given => nomatch given
      inner := fun _ _ _ listed => absurd listed List.not_mem_nil
      stamped := fun _ _ _ _ _ given => nomatch given
      declared := fun _ _ given => nomatch given
      listeners := fun _ _ member => absurd member List.not_mem_nil
      roots := fun _ member => absurd member List.not_mem_nil
      data := fun _ _ given => nomatch given }
  effects :=
    { bodies := fun _ => rfl
      runs := rfl
      bonds := fun _ _ assigned => nomatch assigned }

/-- What holds of a page whenever nothing is going on. -/
structure Rests (chart : Chart binder side) (world : World Page) : Prop where
  /-- The chart is right. -/
  fits : chart.Fits world
  /-- No effect is running. -/
  idle : (world.store.tracker ⟨0⟩).stack = []
  /-- Whatever has data is mounted. -/
  roots : ∀ id data, chart.data id = some data → ⟨id, data⟩ ∈ world.surroundings.roots

/-- While no effect is running, reads count for none. -/
theorem framed_of_idle (idle : (world.store.tracker ⟨0⟩).stack = []) : chart.Framed k world := by
  intro effect running
  rw [Tracker.current, idle] at running
  contradiction

theorem Rests.spared (rests : chart.Rests world) (fits : more.Fits after)
    (spares : Spares k chart world more after) : more.Rests after where
  fits := fits
  idle := (spares.stack ⟨0⟩).trans rests.idle
  roots id data given := by
    rw [spares.roots]
    exact rests.roots id data (spares.data ▸ given)

/-- A new document is a tree in a page without elements. -/
theorem world_new (config : Config) (trees : List Tree) :
    (App.new config trees).world = { World.blank config Page.empty with
      surroundings := { Page.empty with
        dom := (Page.empty.dom.build (.element "body" .empty .empty trees)).2 } } := rfl

/-- In a new document every element that declares data is at home with itself. -/
theorem rests_new (config : Config) (trees : List Tree) (side : ElementId → κ) :
    ∃ chart : Chart (Binder.ofConfig ⟨0⟩ config) side,
      chart.Rests (App.new config trees).world ∧ (∀ id, chart.data id = none) ∧
        ∀ id, (Binder.ofConfig ⟨0⟩ config).declares
          ((App.new config trees).world.dom.face id).attributes = true →
            chart.home id = some (.own id) := by
  let binder := Binder.ofConfig ⟨0⟩ config
  have fits : (blank binder side).Fits (World.blank config Page.empty) := fits_blank config
  have fitsPage : (blank binder side).FitsPage Page.empty := fits.page
  obtain ⟨-, grows, carried⟩ := Dom.build_grows fitsPage.forest fitsPage.ordered "body" Assoc.empty
    Assoc.empty trees
  have settles := settles_withTree fitsPage grows none
  rw [world_new]
  refine ⟨_, ⟨settles.fits fits (fitsPage.grow grows (fun _ same => (nomatch same))
    fun _ same => nomatch same), rfl, fun _ _ given => nomatch given⟩, fun _ => rfl,
    fun id declares => ?_⟩
  have top : id ≠ ⟨Page.empty.dom.size⟩ := by
    rintro rfl
    rw [World.dom, carried] at declares
    contradiction
  have behind : Page.empty.dom.size ≤ id.index := Nat.zero_le _
  rw [home_withTree_of_le behind, Binder.lodge, if_neg top]
  exact if_pos declares

/-! ## The data of roots -/

section Data

variable (runs : KeepsRuns binder side runner) (tracker : binder.tracker = ⟨0⟩)

include runs tracker

/-- A declaration sees nothing, so it can be evaluated on any side. -/
theorem Keeps.declarationValue (declaration : String) :
    chart.Keeps runner k (binder.declarationValue declaration) fun more value => more.Held k value := by
  unfold Binder.declarationValue
  split
  · exact .pure trivial
  · refine (Keeps.ofEval _).bind fun more expr _ _ => ?_
    have sees : more.Sees k ⟨binder.tracker, none⟩ Assoc.empty :=
      ⟨tracker, fun _ same => (nomatch same), fun _ member => absurd member List.not_mem_nil⟩
    have evaluated := (keeping runs k).keeps_eval sees expr
    rw [tracker] at evaluated ⊢
    exact Keeps.untracked evaluated

/-- The data of a root lies on the side where its declaration is evaluated. -/
theorem Keeps.rootData (declaration : String) :
    chart.Keeps runner k (binder.rootData declaration)
      fun more id => more.container id = some k := by
  unfold Binder.rootData
  rw [tracker]
  refine (Keeps.declarationValue runs tracker declaration).bind fun first value _ held => ?_
  have data : first.Keeps runner k (Declaration.ofValue value).data
      fun more value => more.Held k value := by
    cases value with
    | function id =>
        exact (keeping runs k).keeps_callFunction _ first id [] held
          fun _ member => absurd member List.not_mem_nil
    | _ => exact .pure held
  refine (Keeps.untracked data).bind fun second value _ held => ?_
  have look {α : Type} (more : Chart binder side) (observe : Heap → α) :
      more.Keeps runner k (TaskM.look observe) fun _ _ => True := .look fun _ _ => trivial
  refine (Keeps.make_adopt held).bind fun third value _ held => ?_
  cases value with
  | undefined =>
      refine (Keeps.make_object rfl fun _ member => absurd member List.not_mem_nil).bind
        fun fourth made _ held => ?_
      cases made with
      | container id => exact .pure held
      | _ => exact .fail _
  | container id =>
      refine (look third _).bind fun fourth isArray le _ => ?_
      split
      · exact .fail _
      · exact .pure (le.container _ _ held)
  | _ => exact (look third _).bind fun _ _ _ _ => .fail _

end Data

/-! ## Mounting -/

/-- Records the data of a root. -/
def withData (chart : Chart binder side) (root : ElementId) (data : ContainerId) :
    Chart binder side :=
  { chart with data := fun other => if other = root then some data else chart.data other }

theorem le_withData {root : ElementId} (new : chart.data root = none) (data : ContainerId) :
    chart.Le (chart.withData root data) :=
  { Le.refl chart with
    data := fun other given same => by
      have differs : other ≠ root := fun here => by simp [here ▸ same] at new
      simp only [withData, if_neg differs, same] }

/-- An element that is at home with itself becomes a root. -/
theorem Fits.root (fits : chart.Fits world) {root : ElementId} {data : ContainerId}
    (new : chart.data root = none) (on : chart.container data = some (side root))
    (own : chart.home root = some (.own root)) : (chart.withData root data).Fits world where
  heap := fits.heap.mono (le_withData new data) rfl rfl
  readers := fits.readers.mono (le_withData new data)
  page :=
    { forest := fits.page.forest
      ordered := fits.page.ordered
      attributes := fits.page.attributes
      known := fits.page.known
      held := fits.page.held
      inner := fits.page.inner
      stamped := fits.page.stamped
      declared := fits.page.declared
      listeners := fun id listener member =>
        (fits.page.listeners id listener member).mono (le_withData new data)
      roots := fun root member => (le_withData new data).data _ _ (fits.page.roots root member)
      data := fun id given same => by
        simp only [withData] at same
        split at same
        next here =>
            obtain rfl := here
            obtain rfl := Option.some.inj same
            exact ⟨on, own⟩
        next => exact fits.page.data id given same }
  effects := fits.effects.mono (le_withData new data) rfl

/-- A root is put behind the others. -/
theorem Fits.addRoot (fits : chart.Fits world) {root : Root}
    (given : chart.data root.element = some root.data) :
    chart.Fits { world with
      surroundings := { world.surroundings with roots := world.surroundings.roots ++ [root] } } where
  heap := fits.heap
  readers := fits.readers
  page :=
    { fits.page with
      roots := fun other member => (List.mem_append.mp member).elim (fits.page.roots other)
        fun last => List.mem_singleton.mp last ▸ given }
  effects := ⟨fits.effects.bodies, fits.effects.runs, fits.effects.bonds⟩

end Chart

namespace Binder

/-- Makes an element a root over its data. -/
def bindRoot (binder : Binder) (element : ElementId) (data : ContainerId) : TaskM Page Unit := do
  binder.bindTree element ⟨binder.tracker, some data⟩ Assoc.empty
  TaskM.alter fun page => { page with roots := page.roots ++ [⟨element, data⟩] }

/-- Mounts one element. -/
def mountOne (binder : Binder) (element : ElementId) : TaskM Page Unit := do
  let declaration ← Page.see fun dom => dom.attribute? element binder.dataAttribute
  match ← TaskM.attempt (binder.rootData (declaration.getD "")) with
  | .ok data => binder.bindRoot element data
  | .error fault => TaskM.report binder.tracker fault

theorem mountAll_cons (binder : Binder) (element : ElementId) (rest : List ElementId) :
    binder.mountAll (element :: rest) = (do
      binder.mountOne element
      binder.mountAll rest) := by
  rw [mountAll, mountOne, bind_assoc]
  refine congrArg (_ >>= ·) (funext fun declaration => ?_)
  rw [bind_assoc]
  refine congrArg (_ >>= ·) (funext fun result => ?_)
  cases result <;> rfl

end Binder

namespace Chart

variable {κ : Type} {binder : Binder} {side : ElementId → κ} {chart : Chart binder side}
  {runner : World.Runner Page} {world : World Page}

section Mount

variable (runs : KeepsRuns binder side runner) (tracker : binder.tracker = ⟨0⟩)

include runs tracker

/-- An element that is at home with itself becomes a root over data on its side. -/
theorem Rests.bindRoot (rests : chart.Rests world) {element : ElementId} {data : ContainerId}
    (own : chart.home element = some (.own element)) (new : chart.data element = none)
    (on : chart.container data = some (side element)) :
    ∃ (after : World Page) (more : Chart binder side),
      (binder.bindRoot element data).Ends runner world (.ok ()) after ∧ more.Rests after ∧
        chart.Le more ∧ ∀ other, other ≠ element → more.data other = chart.data other := by
  let root : Root := ⟨element, data⟩
  have le := le_withData new data
  have atHome : (chart.withData element data).AtHome (side element) element
      ⟨binder.tracker, some data⟩ Assoc.empty :=
    ⟨element, data, own, if_pos rfl, by rw [tracker], rfl⟩
  have size : (chart.withData element data).Completes runner (side element)
      (Page.see fun dom => dom.size) fun _ _ => True := .see fun _ _ => trivial
  obtain ⟨_, after, more, bound, fits, spares, -⟩ :=
    (size.bind fun _ depth later _ => keepsTree runs tracker depth _ _ _ _ _ (atHome.mono later))
      world (rests.fits.root new on own) (framed_of_idle rests.idle)
  have mounted : more.data root.element = some root.data :=
    (congrFun spares.data element).trans (if_pos rfl)
  have others (other : ElementId) (differs : other ≠ element) :
      more.data other = chart.data other :=
    (congrFun spares.data other).trans (if_neg differs)
  refine ⟨_, more, bound.bind (.alter _ after),
    ⟨fits.addRoot mounted, (spares.stack ⟨0⟩).trans rests.idle, fun id given same => ?_⟩,
    le.trans spares.le, others⟩
  change _ ∈ after.surroundings.roots ++ [root]
  by_cases here : id = element
  · subst here
    obtain rfl := Option.some.inj (mounted.symm.trans same)
    exact List.mem_append_right _ (List.mem_singleton_self _)
  · have there := rests.roots id given ((others id here).symm.trans same)
    rw [spares.roots]
    exact List.mem_append_left _ there

/-- Mounting an element makes it a root, or reports a fault. -/
theorem Rests.mountOne (rests : chart.Rests world) {element : ElementId}
    (own : chart.home element = some (.own element)) (new : chart.data element = none) :
    ∃ (after : World Page) (more : Chart binder side),
      (binder.mountOne element).Ends runner world (.ok ()) after ∧ more.Rests after ∧
        chart.Le more ∧ ∀ other, other ≠ element → more.data other = chart.data other := by
  let declaration := world.dom.attribute? element binder.dataAttribute
  have see : (Page.see fun dom => dom.attribute? element binder.dataAttribute).Ends runner world
      (.ok declaration) world := .survey _ world
  have framed (chart : Chart binder side) (world : World Page) (rests : chart.Rests world) :
      chart.Framed (side element) world := framed_of_idle rests.idle
  obtain ⟨result, between, more, ends, fits, spares, given⟩ :=
    (Keeps.rootData runs tracker (declaration.getD "")).attempt world rests.fits
      (framed chart world rests)
  have restsBetween := rests.spared fits spares
  unfold Binder.mountOne
  cases result with
  | error fault =>
      obtain ⟨_, after, most, reported, fitsAfter, later, -⟩ :=
        Completes.report fault between fits (framed more between restsBetween)
      refine ⟨after, most, see.bind (ends.bind ?_), restsBetween.spared fitsAfter later,
        spares.le.trans later.le, fun other _ => congrFun (later.data.trans spares.data) other⟩
      rw [tracker]
      exact reported
  | ok data =>
      obtain ⟨after, most, bound, restsAfter, le, others⟩ :=
        Rests.bindRoot runs tracker restsBetween (spares.le.home _ _ own)
          ((congrFun spares.data element).trans new) (given data rfl)
      exact ⟨after, most, see.bind (ends.bind bound), restsAfter, spares.le.trans le,
        fun other differs => (others other differs).trans (congrFun spares.data other)⟩

/-- Mounting elements that are at home with themselves ends, and the page is at rest again. -/
theorem Rests.mountAll {elements : List ElementId} (distinct : elements.Nodup)
    (rests : chart.Rests world)
    (own : ∀ element ∈ elements, chart.home element = some (.own element))
    (new : ∀ element ∈ elements, chart.data element = none) :
    ∃ (after : World Page) (more : Chart binder side),
      (binder.mountAll elements).Ends runner world (.ok ()) after ∧ more.Rests after := by
  induction elements generalizing chart world with
  | nil => exact ⟨world, chart, .pure () world, rests⟩
  | cons element rest ih =>
      rw [List.forall_mem_cons] at own new
      rw [List.nodup_cons] at distinct
      obtain ⟨between, more, mounted, restsBetween, le, others⟩ :=
        Rests.mountOne runs tracker rests own.1 new.1
      obtain ⟨after, most, ends, restsAfter⟩ := ih distinct.2 restsBetween
        (fun other member => le.home _ _ (own.2 other member)) fun other member =>
          (others other fun same => distinct.1 (same ▸ member)).trans (new.2 other member)
      rw [Binder.mountAll_cons]
      exact ⟨after, most, mounted.bind ends, restsAfter⟩

end Mount

end Chart

namespace App

/-- What runs to its end for what it does leaves the world where it ends. -/
theorem act_of_ends {app : App} {computation : TaskM Page Unit} {after : World Page}
    (ends : computation.Ends (World.runEffect app.world.store.room) app.world (.ok ()) after) :
    app.act computation = { app with world := after } := by
  have ran : (computation >>= fun _ => (Pure.pure .undefined : TaskM Page Value)).Ends _ app.world _ _ :=
    ends.bind (.pure Value.undefined after)
  have executed : app.world.exec (computation >>= fun _ => Pure.pure .undefined) =
      (.ok .undefined, after) := ran .done
  rw [act, run, executed]

/-- However roots are put on sides, a mounted page is at rest. -/
theorem mount_rests {κ : Type} (config : Config) (trees : List Tree) (top : ElementId)
    (side : ElementId → κ) : ∃ chart : Chart (Binder.ofConfig ⟨0⟩ config) side,
      chart.Rests ((App.new config trees).mount top).2.world := by
  obtain ⟨chart, rests, unmounted, own⟩ := Chart.rests_new config trees side
  have page := rests.fits.page
  obtain ⟨after, more, ends, restsAfter⟩ :=
    Chart.Rests.mountAll (Chart.keepsRuns rfl (App.new config trees).world.store.room) rfl
      (page.forest.nodup_query top (config.attributeName "data")) rests
      (fun element member => own element (List.mem_filter.mp member).2) fun _ _ => unmounted _
  have mounted : ((App.new config trees).binder.mount top).Ends _ (App.new config trees).world _ _ :=
    .bind (.survey _ _) ends
  refine ⟨more, ?_⟩
  rw [mount, act_of_ends mounted]
  exact restsAfter

end App

end LiveMarkup
