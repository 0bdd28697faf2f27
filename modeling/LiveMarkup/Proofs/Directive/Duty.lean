import LiveMarkup.Directive.Binding
import LiveMarkup.Proofs.Document.Layout
import LiveMarkup.Proofs.Expr.Counterpart
import LiveMarkup.Proofs.Expr.Plain

/-!
# The duties of effects

Each effect of a directive looks at the value of its expression and then shows what it has seen at
one element.  A duty says which element, with which bindings and how; looking at the value changes
nothing, and showing it changes no data.
-/

namespace LiveMarkup

/-- What an effect of a directive does to its element. -/
inductive Aim where
  /-- It shows a text. -/
  | text
  /-- It shows or hides the element. -/
  | visible
  /-- It stamps a template, which stands at a place, for every item of a list, and binds the copies
  under a name as far down as a bound. -/
  | repeated (template : Tree) (place : Nat) (name : String) (depth : Nat)

/-- How a value is looked at. -/
inductive Glance where
  /-- For its text. -/
  | text
  /-- For whether it counts as true. -/
  | truth
  /-- For its items. -/
  | items
  deriving DecidableEq

/-- What is looked for in order to reach an aim. -/
def Aim.glance : Aim → Glance
  | text => .text
  | visible => .truth
  | repeated _ _ _ _ => .items

/-- What is seen of the value of an expression. -/
inductive Sight where
  /-- Its text. -/
  | text (content : String)
  /-- Whether it counts as true. -/
  | truth (holds : Bool)
  /-- Its items, if it is a list. -/
  | items (items : Option (List Value))

/-- How one has looked to see something. -/
def Sight.glance : Sight → Glance
  | text _ => .text
  | truth _ => .truth
  | items _ => .items

/-- Whether something is seen at a glance, and refers to nothing outside a reach. -/
structure Sight.Within (glance : Glance) (reach : Reach) (heap : Heap) (sight : Sight) : Prop where
  /-- It is what one looks for. -/
  glance : sight.glance = glance
  /-- Items lie inside. -/
  items : ∀ items, sight = .items (some items) → ∀ item ∈ items, reach.Holds heap item

/-- The counterpart of what is seen. -/
def Renaming.sight (ρ : Renaming) : Sight → Sight
  | .text content => .text content
  | .truth holds => .truth holds
  | .items items => .items (items.map fun list => list.map ρ.value)

namespace Glance

variable {σ : Type}

/-- Looks at the items of a list, if there is one. -/
def lookAtItems : Option ContainerId → TaskM σ Sight
  | none => return .items none
  | some list => do return .items (some (← TaskM.watch fun heap => heap.items list))

/-- Looks at a value. -/
def look : Glance → Value → TaskM σ Sight
  | text, value => do return .text (← TaskM.watch fun heap => heap.shownText value)
  | truth, value => return .truth value.isTruthy
  | items, value => do lookAtItems (← TaskM.look fun heap => heap.array? value)

/-- Looks at the value of an expression. -/
def read (glance : Glance) (scope : Scope) (bindings : Bindings) (expr : Expr) : TaskM σ Sight := do
  glance.look (← Expr.eval scope bindings expr)

variable {reach : Reach} {data : Option ContainerId} {floor : Heap}

theorem look_confined (glance : Glance) {value : Value} (holds : reach.Holds floor value) :
    TaskM.Confined (σ := σ) reach data floor (Sight.Within glance reach) (glance.look value) := by
  cases glance with
  | text =>
      have shown : TaskM.Confined (σ := σ) reach data floor (fun _ _ => True)
          (TaskM.watch fun heap => heap.shownText value) :=
        .watch fun heap grows calm =>
          Heap.shownText_stays calm.encloses (Reach.Holds.mono holds grows)
      exact shown.bind fun _ _ _ _ => .pure fun _ _ => ⟨rfl, fun items same => nomatch same⟩
  | truth => exact .pure fun _ _ => ⟨rfl, fun items same => nomatch same⟩
  | items =>
      have found : TaskM.Confined (σ := σ) reach data floor
          (fun heap list => ∀ id, list = some id → reach.inside heap id)
          (TaskM.look fun heap => heap.array? value) := by
        refine .look fun heap grows id same => ?_
        exact Reach.inside_mono grows (holds id (Heap.eq_of_array? same).1)
      refine found.bind fun list heap _ inside => ?_
      cases list with
      | none => exact .pure fun _ _ => ⟨rfl, fun items same => nomatch same⟩
      | some list =>
          have read : TaskM.Confined (σ := σ) reach data heap
              (fun heap items => ∀ item ∈ items, reach.Holds heap item)
              (TaskM.watch fun heap => heap.items list) :=
            .watch fun heap grows calm =>
              Heap.items_stays calm.encloses (Reach.inside_mono grows (inside list rfl))
          refine read.bind fun items heap _ all => .pure fun later grows =>
            ⟨rfl, fun others same => ?_⟩
          obtain rfl := Option.some.inj (Sight.items.inj same)
          exact fun item member => Reach.Holds.mono (all item member) grows

/-- Looking at the value of a plain expression gets no further than its reach. -/
theorem read_confined (glance : Glance) {data : ContainerId} (held : reach.held data)
    {bindings : Bindings} {expr : Expr} (plain : expr.isPlain = true)
    (bound : ∀ entry ∈ bindings.entries, reach.Holds floor entry.2) :
    TaskM.Confined (σ := σ) reach (some data) floor (Sight.Within glance reach)
      (glance.read ⟨reach.tracker, some data⟩ bindings expr) :=
  (Expr.eval_confined held plain bound).bind fun _ _ _ holds => look_confined glance holds

variable {ρ : Renaming} {reads probes : Access → Prop}

theorem look_simulates (glance : Glance) (value : Value) :
    TaskM.Simulates (σ := σ) ρ reads probes ρ.sight (glance.look value)
      (glance.look (ρ.value value)) := by
  cases glance with
  | text =>
      exact (TaskM.Simulates.watch fun _ _ mirrors => mirrors.shownText value).bind
        fun _ => .pure rfl
  | truth => exact .pure (congrArg Sight.truth (ρ.isTruthy_value value))
  | items =>
      intro next otherNext later here there mirrors
      have counterpart : there.heap.array? (ρ.value value) =
          (here.heap.array? value).map ρ.container := by
        cases value with
        | container id =>
            simp only [Renaming.value, Heap.array?, mirrors.kind]
            split
            · rfl
            · rfl
        | _ => rfl
      refine Task.Matches.look ?_
      dsimp only
      rw [counterpart]
      cases found : here.heap.array? value with
      | none => exact later (.ok (.items none)) here there mirrors
      | some list =>
          have isArray := (Heap.eq_of_array? found).2
          change Task.Matches ρ reads probes (lookAtItems (some list) next)
            (lookAtItems (some (ρ.container list)) otherNext) here there
          unfold lookAtItems
          refine Task.Matches.watch (mirrors.items isArray) fun items accesses others => ?_
          apply later (.ok (.items (some items)))
          rw [Store.heap_track, Store.heap_track]
          exact mirrors

/-- In renamed heaps one sees the counterpart. -/
theorem read_simulates (glance : Glance) (scope : Scope) (bindings : Bindings) (expr : Expr) :
    TaskM.Simulates (σ := σ) ρ reads probes ρ.sight (glance.read scope bindings expr)
      (glance.read (ρ.scope scope) (ρ.bindings bindings) expr) :=
  (Expr.eval_simulates scope bindings expr).bind fun value => look_simulates glance value

end Glance

namespace Binder

/-- Stamps a template for the items that are seen, if any are. -/
def stampSight (bindCopy : SubtreeBinder) (host : ElementId) (template : Child) (name : String)
    (scope : Scope) (bindings : Bindings) : Sight → TaskM Page Value
  | .items (some items) => do
      stampAll bindCopy host template name scope bindings items
      return .undefined
  | .items none | .text _ | .truth _ => return .undefined

/-- The effect of a `for` directive clears the element, looks and stamps. -/
theorem stamp_eq (bindCopy : SubtreeBinder) (host : ElementId) (template : Child) (name : String)
    (source : Expr) (scope : Scope) (bindings : Bindings) :
    stamp bindCopy host template name source scope bindings = (do
      Page.edit fun dom => dom.clear host
      let sight ← Glance.items.read scope bindings source
      stampSight bindCopy host template name scope bindings sight) := by
  unfold stamp
  refine congrArg (fun rest => (Page.edit fun dom => dom.clear host) >>= rest) (funext fun _ => ?_)
  refine congrArg (fun rest => Expr.eval scope bindings source >>= rest) (funext fun value => ?_)
  refine congrArg (fun rest => (TaskM.look fun heap => heap.array? value) >>= rest)
    (funext fun list => ?_)
  cases list <;> rfl

end Binder

/-- What an effect of a directive has to do: keep an element in step with an expression. -/
structure Duty where
  /-- The element. -/
  host : ElementId
  /-- The bindings around the directive. -/
  bindings : Bindings
  /-- The expression. -/
  expr : Expr
  /-- What is done to the element. -/
  aim : Aim

namespace Duty

/-- What an effect looks at. -/
def read {σ : Type} (duty : Duty) (scope : Scope) : TaskM σ Sight :=
  duty.aim.glance.read scope duty.bindings duty.expr

/-- Shows at an element what was seen. -/
def present (binder : Binder) (scope : Scope) (duty : Duty) (sight : Sight) : TaskM Page Value :=
  match duty.aim, sight with
  | .text, .text content => do
      Page.edit fun dom => dom.setText duty.host content
      return .undefined
  | .visible, .truth holds => do
      Page.edit fun dom => dom.setStyle duty.host "display" (if holds then "block" else "none")
      return .undefined
  | .repeated template place name depth, .items (some items) => do
      Binder.stampAll (binder.bindWithin depth) duty.host (template.childAt place) name scope
        duty.bindings items
      return .undefined
  | _, _ => return .undefined

/-- What is done before looking: a list is cleared. -/
def prepare (duty : Duty) : TaskM Page Unit :=
  match duty.aim with
  | .repeated _ _ _ _ => Page.edit fun dom => dom.clear duty.host
  | .text | .visible => pure ()

/-- What an effect does when it runs. -/
def body (binder : Binder) (scope : Scope) (duty : Duty) : TaskM Page Value := do
  duty.prepare
  let sight ← duty.read scope
  duty.present binder scope sight

/-- The effect of a `for` directive does its duty. -/
theorem body_repeated (binder : Binder) (scope : Scope) (host : ElementId) (bindings : Bindings)
    (expr : Expr) (template : Tree) (place : Nat) (name : String) (depth : Nat) :
    Binder.stamp (binder.bindWithin depth) host (template.childAt place) name expr scope bindings =
      body binder scope ⟨host, bindings, expr, .repeated template place name depth⟩ := by
  rw [Binder.stamp_eq]
  refine congrArg (fun rest => (Page.edit fun dom => dom.clear host) >>= rest) (funext fun _ => ?_)
  refine congrArg (fun rest => Glance.items.read scope bindings expr >>= rest)
    (funext fun sight => ?_)
  cases sight with
  | items items => cases items <;> rfl
  | _ => rfl

end Duty

end LiveMarkup
