import LiveMarkup.Proofs.Directive.Discipline
import LiveMarkup.Proofs.Document.Hosting

/-!
# Code that leaves a row of casts alone

One effect fills a host with casts of a template.  Other code minds the row if none of its changes
to the page touches the row or the template, whatever answers it gets and whatever has become of the
page, and if it leaves it to the tracker of that effect to run it.  Evaluation changes no page, so
it minds every row; and so does the binding of an element off the way to the host, with all effects
that it defines.
-/

namespace LiveMarkup

/-- An effect that fills a host with casts. -/
structure Tender where
  /-- The template and the host. -/
  mold : Mold Handler
  /-- The effect. -/
  effect : EffectId
  /-- The tracker that runs the effect. -/
  tracker : TrackerId
  /-- What the effect does. -/
  body : Task Page

/-! ## Tasks -/

/-- Whether a task that begins when the elements of an inventory are there leaves the row of the
host alone, however many elements there are when it gets its answers. -/
def Task.Minds (tender : Tender) : Task Page → Inventory → Prop
  | .done _, _ => True
  | .look next, inventory => ∀ store, (next store).Minds tender inventory
  | .has _ _ next, inventory => ∀ present, (next present).Minds tender inventory
  | .track _ next, inventory => next.Minds tender inventory
  | .make _ next, inventory => ∀ value, (next value).Minds tender inventory
  | .write _ _ _ next, inventory =>
      ∀ more result, inventory.Le more → (next result).Minds tender more
  | .pop _ next, inventory => ∀ more value, inventory.Le more → (next value).Minds tender more
  | .define body next, inventory => (∀ more, inventory.Le more → body.Minds tender more) ∧
      ∀ effect, effect ≠ tender.effect → (next effect).Minds tender inventory
  | .run tracker effect next, inventory => (effect = tender.effect → tracker = tender.tracker) ∧
      ∀ more result, inventory.Le more → (next result).Minds tender more
  | .untracked _ block next, inventory => block.Minds tender inventory ∧
      ∀ more outcome, inventory.Le more → (next outcome).Minds tender more
  | .report _ _ next, inventory => next.Minds tender inventory
  | .drain _ next, inventory => ∀ faults, (next faults).Minds tender inventory
  | .survey next, inventory => ∀ row page, tender.mold.Holds inventory row page.dom →
      (next page).Minds tender inventory
  | .alter change next, inventory => ∀ row page, tender.mold.Holds inventory row page.dom →
      ∃ more, inventory.Le more ∧ tender.mold.Holds more row (change page).dom ∧
        next.Minds tender more

/-! ## Computations -/

/-- Whether a computation leaves the row of the host alone and yields something good, if what comes
after it goes on with such. -/
def TaskM.Minds {α : Type} (tender : Tender) (inventory : Inventory) (computation : TaskM Page α)
    (good : Inventory → α → Prop) : Prop :=
  ∀ next : Except Fault α → Task Page,
    (∀ more result, inventory.Le more → (∀ a, result = .ok a → good more a) →
      (next result).Minds tender more) → (computation next).Minds tender inventory

namespace TaskM

variable {α β : Type} {tender : Tender} {inventory : Inventory} {good better : Inventory → α → Prop}
  {goodNext : Inventory → β → Prop} {computation : TaskM Page α}

theorem Minds.toTask {body : TaskM Page Value} {good : Inventory → Value → Prop}
    (minds : body.Minds tender inventory good) : body.toTask.Minds tender inventory :=
  minds .done fun _ _ _ _ => trivial

theorem Minds.bind {next : α → TaskM Page β} (minds : computation.Minds tender inventory good)
    (later : ∀ more a, inventory.Le more → good more a → (next a).Minds tender more goodNext) :
    (computation >>= next).Minds tender inventory goodNext := by
  intro finish closed
  refine minds _ fun more result le holds => ?_
  cases result with
  | error fault => exact closed more _ le fun _ same => by cases same
  | ok a =>
      exact later more a le (holds a rfl) finish
        fun most result enough => closed most result (le.trans enough)

theorem Minds.imp (minds : computation.Minds tender inventory good)
    (implies : ∀ more a, good more a → better more a) :
    computation.Minds tender inventory better :=
  fun next closed => minds next fun more result le holds =>
    closed more result le fun a same => implies more a (holds a same)

theorem Minds.attempt (minds : computation.Minds tender inventory good) :
    (attempt computation).Minds tender inventory fun _ _ => True :=
  fun _ closed => minds _ fun more _ le _ => closed more _ le fun _ _ => trivial

theorem minds_ofExcept {result : Except Fault α} (holds : ∀ a, result = .ok a → good inventory a) :
    (ofExcept result).Minds tender inventory good :=
  fun _ closed => closed inventory _ (.refl inventory) holds

theorem minds_pure {a : α} (holds : good inventory a) :
    (Pure.pure a : TaskM Page α).Minds tender inventory good :=
  minds_ofExcept fun _ same => Except.ok.inj same ▸ holds

theorem minds_fail (fault : Fault) : (fail fault : TaskM Page α).Minds tender inventory good :=
  minds_ofExcept fun _ same => by cases same

theorem minds_look {observe : Heap → α} (holds : ∀ heap, good inventory (observe heap)) :
    (look observe : TaskM Page α).Minds tender inventory good :=
  fun _ closed store => closed inventory _ (.refl inventory)
    fun _ same => Except.ok.inj same ▸ holds store.heap

theorem minds_watch {computation : Heap → Watch α}
    (holds : ∀ heap, good inventory ((computation heap).run #[]).1) :
    (watch computation : TaskM Page α).Minds tender inventory good :=
  fun _ closed store => closed inventory _ (.refl inventory)
    fun _ same => Except.ok.inj same ▸ holds store.heap

theorem minds_has (target : ContainerId) (key : Key) :
    (has target key : TaskM Page Bool).Minds tender inventory fun _ _ => True :=
  fun _ closed _ => closed inventory _ (.refl inventory) fun _ _ => trivial

theorem minds_make (request : Request) :
    (make request : TaskM Page Value).Minds tender inventory fun _ _ => True :=
  fun _ closed _ => closed inventory _ (.refl inventory) fun _ _ => trivial

theorem minds_tryWrite (target : ContainerId) (key : Key) (value : Value) :
    (tryWrite target key value : TaskM Page _).Minds tender inventory fun _ _ => True :=
  fun _ closed more _ le => closed more _ le fun _ _ => trivial

theorem minds_pop (target : ContainerId) :
    (pop target : TaskM Page Value).Minds tender inventory fun _ _ => True :=
  fun _ closed more _ le => closed more _ le fun _ _ => trivial

theorem minds_report (tracker : TrackerId) (fault : Fault) :
    (report tracker fault : TaskM Page Unit).Minds tender inventory fun _ _ => True :=
  fun _ closed => closed inventory _ (.refl inventory) fun _ _ => trivial

/-- Other effects may be run. -/
theorem minds_tryRun (tracker : TrackerId) {effect : EffectId} (other : effect ≠ tender.effect) :
    (tryRun tracker effect : TaskM Page _).Minds tender inventory fun _ _ => True :=
  fun _ closed => ⟨fun same => absurd same other,
    fun more _ le => closed more _ le fun _ _ => trivial⟩

/-- An effect may be defined and run if it minds the row whenever it runs. -/
theorem minds_createEffect (tracker : TrackerId) {body : TaskM Page Value}
    (minds : ∀ more, inventory.Le more → body.Minds tender more fun _ _ => True) :
    (createEffect tracker body).Minds tender inventory fun _ _ => True := by
  have defined : (define body).Minds tender inventory fun _ effect => effect ≠ tender.effect :=
    fun _ closed => ⟨fun more le => (minds more le).toTask, fun effect other =>
      closed inventory _ (.refl inventory) fun _ same => Except.ok.inj same ▸ other⟩
  refine defined.bind fun more effect _ other => ?_
  refine (minds_tryRun tracker other).bind fun most result _ _ => ?_
  cases result with
  | ok done => exact minds_pure trivial
  | error fault => exact (minds_report tracker fault).bind fun _ _ _ _ => minds_pure trivial

theorem minds_see {observe : Dom Handler → α}
    (holds : ∀ row dom, tender.mold.Holds inventory row dom → good inventory (observe dom)) :
    (Page.see observe).Minds tender inventory good :=
  fun _ closed row page shows => closed inventory _ (.refl inventory)
    fun _ same => Except.ok.inj same ▸ holds row page.dom shows

/-- A change is fine that leaves the row and the template. -/
theorem minds_edit {change : Dom Handler → Dom Handler} {good : Inventory → Unit → Prop}
    (keeps : ∀ row dom, tender.mold.Holds inventory row dom →
      ∃ more, inventory.Le more ∧ tender.mold.Holds more row (change dom) ∧ good more ()) :
    (Page.edit change).Minds tender inventory good := by
  intro next closed row page shows
  obtain ⟨more, le, holds, done⟩ := keeps row page.dom shows
  exact ⟨more, le, holds, closed more _ le fun _ _ => done⟩

/-- A change is fine that adds no element either. -/
theorem minds_edit_of_holds {change : Dom Handler → Dom Handler}
    (keeps : ∀ row dom, tender.mold.Holds inventory row dom →
      tender.mold.Holds inventory row (change dom)) :
    (Page.edit change).Minds tender inventory fun _ _ => True :=
  minds_edit fun row dom holds => ⟨inventory, .refl inventory, keeps row dom holds, trivial⟩

/-- A copy is new and is not a cast. -/
theorem minds_copy (template : Child) :
    (Binder.copy template).Minds tender inventory fun more copy =>
      ∀ id, copy = .element id → tender.mold.Loose more id := by
  have copied : (Page.see fun dom => (dom.copy template).1).Minds tender inventory
      fun more copy => ∀ id, copy = .element id →
        id.index = more.size ∧ ∃ top, template = .element top := by
    refine minds_see fun row dom holds id same => ?_
    obtain ⟨new, element⟩ := Dom.copy_eq_element same
    exact ⟨new.trans holds.size, element⟩
  refine copied.bind fun more copy le known => ?_
  have made : (Page.edit fun dom => (dom.copy template).2).Minds tender more
      fun most _ => ∀ id, copy = .element id → tender.mold.Loose most id := by
    refine minds_edit fun row dom holds => ?_
    have grown := Inventory.le_grow (Nat.le_add_right more.size (dom.childTree template).count)
      fun _ => False
    refine ⟨_, grown, holds.build (dom.childTree template) fun _ => False, fun id same => ?_⟩
    obtain ⟨place, top, element⟩ := known id same
    have positive := Dom.count_childTree_pos (Nat.zero_lt_of_lt holds.host_known) top
    rw [← element] at positive
    have new : more.size ≤ id.index := Nat.le_of_eq place.symm
    refine ⟨holds.aside_of_new new ?_, fun cast => (Inventory.casts_grow new).mp cast⟩
    change id.index < more.size + _
    omega
  refine made.bind fun most _ later loose => ?_
  exact minds_pure loose

end TaskM

/-! ## Evaluation and binding -/

/-- Minding a row is a discipline, under which code may have any value. -/
def minding (tender : Tender) : Discipline Page where
  Stage := Inventory
  Later := Inventory.Le
  Owned _ := True
  Held _ _ := True
  IsArray _ _ := True
  Keeps inventory computation good := computation.Minds tender inventory good
  held_of_plain _ := trivial
  held_later _ _ := trivial
  isArray_later _ _ := trivial
  keeps_pure holds := TaskM.minds_pure holds
  keeps_fail := TaskM.minds_fail
  keeps_bind minds later := minds.bind later
  keeps_imp minds implies := minds.imp implies
  keeps_look holds := TaskM.minds_look holds
  keeps_typeName _ := TaskM.minds_look fun _ _ _ _ => trivial
  keeps_has := TaskM.minds_has
  keeps_get _ _ := TaskM.minds_watch fun _ => trivial
  keeps_items _ := TaskM.minds_watch fun _ _ _ => trivial
  keeps_coercion _ _ stays := TaskM.minds_watch fun heap =>
    (stays heap (fun _ => True) (fun _ _ _ _ _ _ => trivial) fun _ _ _ _ => trivial).result #[]
  keeps_closure _ := TaskM.minds_look fun _ _ _ => ⟨trivial, fun _ _ => trivial, fun _ _ => trivial⟩
  keeps_array _ _ := TaskM.minds_make _
  keeps_object _ _ := TaskM.minds_make _
  keeps_arrow _ _ _ := TaskM.minds_make _
  keeps_amend _ _ := TaskM.minds_make _
  keeps_tryWrite _ _ _ := TaskM.minds_tryWrite _ _ _
  keeps_pop _ := TaskM.minds_pop _

/-- Under this discipline, code may bind what is off the way to the host and to the template, and
may show and hide the host itself. -/
def mindingPages (tender : Tender) : PageDiscipline where
  toDiscipline := minding tender
  Styled inventory id := id.index < Inventory.size inventory ∧ ¬tender.mold.Part id
  Aside := tender.mold.Aside
  Loose := tender.mold.Loose
  styled_of_aside aside := ⟨aside.known, aside.part⟩
  aside_of_loose loose := loose.toAside
  styled_later later styled := ⟨Nat.lt_of_lt_of_le styled.1 later.size, styled.2⟩
  aside_later later aside := aside.mono later
  loose_later later loose := loose.mono later
  keeps_attempt minds := minds.attempt
  keeps_report := TaskM.minds_report
  keeps_createEffect _ minds := TaskM.minds_createEffect _ minds
  keeps_see _ := TaskM.minds_see fun _ _ _ => trivial
  keeps_childElements aside := TaskM.minds_see fun _ _ holds _ member =>
    holds.aside_child aside (Dom.mem_childElements.mp member)
  keeps_setText text aside := TaskM.minds_edit_of_holds fun _ _ holds =>
    holds.setText aside.free text
  keeps_setStyle property value styled := TaskM.minds_edit_of_holds fun _ _ holds =>
    holds.setStyle styled.1 styled.2 property value
  keeps_listen id kind handler := TaskM.minds_edit_of_holds fun _ _ holds =>
    holds.listen id kind handler
  keeps_clear aside := TaskM.minds_edit_of_holds fun _ _ holds => holds.clear aside.free
  keeps_takeFirst aside := TaskM.minds_edit_of_holds fun _ _ holds => holds.takeFirst aside.free
  keeps_copy := TaskM.minds_copy
  keeps_append aside loose := TaskM.minds_edit_of_holds fun _ _ holds =>
    holds.append aside.free loose

section Code

variable {tender : Tender} {inventory : Inventory}

theorem sees_minding (tender : Tender) (inventory : Inventory) (scope : Scope)
    (bindings : Bindings) : (minding tender).Sees inventory scope bindings :=
  ⟨trivial, fun _ _ => trivial, fun _ _ => trivial⟩

theorem minds_eval (scope : Scope) (bindings : Bindings) (expr : Expr) :
    (Expr.eval scope bindings expr).Minds tender inventory fun _ _ => True :=
  Discipline.keeps_eval (sees_minding tender inventory scope bindings) expr

theorem minds_evaluate (source : String) (scope : Scope) (bindings : Bindings) :
    (evaluate source scope bindings).Minds tender inventory fun _ _ => True := by
  have read : (TaskM.ofEval (Expr.parse source) : TaskM Page Expr).Minds tender inventory
      fun _ _ => True := TaskM.minds_ofExcept fun _ _ => trivial
  exact read.bind fun _ expr _ _ => minds_eval scope bindings expr

/-- Binding an element off the way minds the row, however far down it goes. -/
theorem minds_bindWithin (binder : Binder) (depth : Nat) {id : ElementId} (scope : Scope)
    (bindings : Bindings) (aside : tender.mold.Aside inventory id) :
    (binder.bindWithin depth id scope bindings).Minds tender inventory fun _ _ => True :=
  PageDiscipline.keepsBinds_bindWithin (d := mindingPages tender) trivial depth aside
    (sees_minding tender inventory scope bindings)

/-- How the binding of an element goes on after one of its directives. -/
def Binder.following (binder : Binder) (bind : Binder.SubtreeBinder) (element : ElementId)
    (scope : Scope) (bindings : Bindings) (descent : Descent) (directive : Directive)
    (rest : List (String × String)) (finish : Except Fault Descent → Task Page) :
    Except Fault Descent → Task Page
  | .ok .claimed => binder.bindDirectives bind element scope bindings .claimed rest finish
  | .ok .children => binder.bindDirectives bind element scope bindings descent rest finish
  | .error fault => .report binder.tracker fault (binder.bindDirectives bind element scope bindings
      (if directive.kind = .repeated then .claimed else descent) rest finish)

theorem Binder.bindDirectives_following {binder : Binder} {name value : String}
    {directive : Directive}
    (found : Directive.ofAttribute? binder.attributePrefix name value = some directive)
    (bind : Binder.SubtreeBinder) (element : ElementId) (scope : Scope) (bindings : Bindings)
    (descent : Descent) (rest : List (String × String))
    (finish : Except Fault Descent → Task Page) :
    binder.bindDirectives bind element scope bindings descent ((name, value) :: rest) finish =
      binder.bindDirective bind element directive scope bindings
        (binder.following bind element scope bindings descent directive rest finish) := by
  rw [Binder.bindDirectives, found]
  refine congrArg (binder.bindDirective bind element directive scope bindings) ?_
  funext outcome
  rcases outcome with fault | descent
  · rfl
  · cases descent <;> rfl

/-- What follows the `for` directive of the host minds the row, unless another directive changes the
children of the host too, or what comes after the host does not mind the row. -/
theorem minds_following {binder : Binder} {bind : Binder.SubtreeBinder} {scope : Scope}
    {bindings : Bindings} {descent : Descent} {directive : Directive}
    {rest : List (String × String)} (known : tender.mold.host.index < inventory.size)
    (others : ∀ entry ∈ rest, ∀ other,
      Directive.ofAttribute? binder.attributePrefix entry.1 entry.2 = some other →
        other.kind ≠ .text ∧ other.kind ≠ .repeated) {finish : Except Fault Descent → Task Page}
    (closed : ∀ outcome more, inventory.Le more → outcome ≠ .ok .children →
      (finish outcome).Minds tender more) :
    (binder.following bind tender.mold.host scope bindings descent directive rest finish
      (.ok .claimed)).Minds tender inventory := by
  have bound : (binder.bindDirectives bind tender.mold.host scope bindings .claimed rest).Minds
      tender inventory fun _ last => Descent.claimed = .claimed → last = .claimed :=
    PageDiscipline.keeps_otherDirectives (d := mindingPages tender) trivial
      ⟨known, tender.mold.not_part_host⟩ (sees_minding tender inventory scope bindings) others _
  refine bound finish fun more outcome le last => closed outcome more le ?_
  rintro rfl
  cases last _ rfl rfl

end Code

end LiveMarkup
