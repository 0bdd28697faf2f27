import LiveMarkup.Directive.Binding
import LiveMarkup.Proofs.Expr.Discipline

/-!
# Disciplines of binding

Binding evaluates expressions, and besides that it looks at the page, changes elements, and defines
effects.  A discipline of pages says which elements code may change at a stage of its run.  Once
these steps keep to it, so does the binding of every element that may be bound, however far down it
goes, with all effects that it defines.
-/

namespace LiveMarkup

namespace Binder

/-- Copies a template. -/
def copy (template : Child) : TaskM Page Child := do
  let copy ← Page.see fun dom => (dom.copy template).1
  Page.edit fun dom => (dom.copy template).2
  return copy

/-- Binds a copy; there is nothing to bind in a text. -/
def SubtreeBinder.bindChild (bind : SubtreeBinder) (scope : Scope) (bindings : Bindings) :
    Child → TaskM Page Unit
  | .text _ => pure ()
  | .element id => bind id scope bindings

theorem copy_bind {α : Type} (template : Child) (next : Child → TaskM Page α) :
    (copy template >>= next) = (do
      let copy ← Page.see fun dom => (dom.copy template).1
      Page.edit fun dom => (dom.copy template).2
      next copy) :=
  rfl

theorem stampAll_next (bind : SubtreeBinder) (host : ElementId) (template : Child) (name : String)
    (scope : Scope) (bindings : Bindings) (item : Value) (rest : List Value) :
    stampAll bind host template name scope bindings (item :: rest) = (do
      let copy ← copy template
      bind.bindChild scope (bindings.insert name item) copy
      Page.edit fun dom => dom.append host copy
      stampAll bind host template name scope bindings rest) := by
  refine Eq.trans (congrArg (Page.see (fun dom => (dom.copy template).1) >>= ·) ?_)
    (copy_bind template _).symm
  funext copy
  cases copy <;> rfl

end Binder

/-- Which values code may have, which elements it may change, and which computations do nothing
else. -/
structure PageDiscipline extends Discipline Page where
  /-- The elements that may be shown and hidden. -/
  Styled : Stage → ElementId → Prop
  /-- The elements that may be bound. -/
  Aside : Stage → ElementId → Prop
  /-- The elements that may be bound and put elsewhere. -/
  Loose : Stage → ElementId → Prop
  styled_of_aside : ∀ {stage id}, Aside stage id → Styled stage id
  aside_of_loose : ∀ {stage id}, Loose stage id → Aside stage id
  styled_later : ∀ {stage next id}, Later stage next → Styled stage id → Styled next id
  aside_later : ∀ {stage next id}, Later stage next → Aside stage id → Aside next id
  loose_later : ∀ {stage next id}, Later stage next → Loose stage id → Loose next id
  keeps_attempt : ∀ {α : Type} {stage} {good : Stage → α → Prop} {computation : TaskM Page α},
    Keeps stage computation good → Keeps stage (TaskM.attempt computation) fun _ _ => True
  keeps_report : ∀ {stage} (tracker : TrackerId) (fault : Fault),
    Keeps stage (TaskM.report tracker fault) fun _ _ => True
  keeps_createEffect : ∀ {stage tracker} {body : TaskM Page Value}, Owned tracker →
    (∀ more, Later stage more → Keeps more body Held) →
      Keeps stage (TaskM.createEffect tracker body) fun _ _ => True
  keeps_see : ∀ {α : Type} {stage} (observe : Dom Handler → α),
    Keeps stage (Page.see observe) fun _ _ => True
  keeps_childElements : ∀ {stage id}, Aside stage id →
    Keeps stage (Page.see fun dom => dom.childElements id) fun more children =>
      ∀ child ∈ children, Aside more child
  keeps_setText : ∀ {stage id} (text : String), Aside stage id →
    Keeps stage (Page.edit fun dom => dom.setText id text) fun _ _ => True
  keeps_setStyle : ∀ {stage id} (property value : String), Styled stage id →
    Keeps stage (Page.edit fun dom => dom.setStyle id property value) fun _ _ => True
  keeps_listen : ∀ {stage} (id : ElementId) (kind : String) (handler : Handler),
    Keeps stage (Page.edit fun dom => dom.listen id kind handler) fun _ _ => True
  keeps_clear : ∀ {stage id}, Aside stage id →
    Keeps stage (Page.edit fun dom => dom.clear id) fun _ _ => True
  keeps_takeFirst : ∀ {stage id}, Aside stage id →
    Keeps stage (Page.edit fun dom => (dom.takeFirst id).2) fun _ _ => True
  keeps_copy : ∀ {stage} (template : Child),
    Keeps stage (Binder.copy template) fun more copy => ∀ id, copy = .element id → Loose more id
  keeps_append : ∀ {stage id} {child : Child}, Aside stage id →
    (∀ moved, child = .element moved → Loose stage moved) →
      Keeps stage (Page.edit fun dom => dom.append id child) fun _ _ => True

theorem Sees.insert {owned : TrackerId → Prop} {held : Value → Prop} {scope : Scope}
    {bindings : Bindings} (sees : Sees owned held scope bindings) (name : String) {value : Value}
    (bound : held value) : Sees owned held scope (bindings.insert name value) := by
  refine ⟨sees.tracker, sees.data, fun entry member => ?_⟩
  rcases Assoc.mem_put member with old | rfl
  · exact sees.bindings entry old
  · exact bound

namespace PageDiscipline

variable (d : PageDiscipline) {stage : d.Stage} {binder : Binder} {element : ElementId}
  {scope : Scope} {bindings : Bindings}

theorem keeps_ofExcept {α : Type} (result : Except Fault α) :
    d.Keeps stage (TaskM.ofExcept result) fun _ _ => True := by
  cases result with
  | ok a => exact d.keeps_pure trivial
  | error fault => exact d.keeps_fail fault

theorem keeps_claim (descent : Descent) :
    d.Keeps stage (pure descent : TaskM Page Descent) fun _ _ => True := d.keeps_pure trivial

/-! ## Directives -/

theorem keeps_bindText (owned : d.Owned binder.tracker) (aside : d.Aside stage element)
    (sees : d.Sees stage scope bindings) (directive : Directive) :
    d.Keeps stage (binder.bindText element directive scope bindings) fun _ _ => True := by
  refine d.keeps_bind (d.keeps_ofExcept _) fun more expr later _ => ?_
  refine d.keeps_bind (d.keeps_createEffect owned fun most enough => ?_) fun _ _ _ _ =>
    d.keeps_claim _
  have seen := d.sees_later enough (d.sees_later later sees)
  refine d.keeps_bind (Discipline.keeps_eval seen expr) fun last value onward held => ?_
  have shown : d.Keeps last (TaskM.watch fun heap => heap.shownText value) fun _ _ => True :=
    d.keeps_coerced held fun _ _ encloses within => Heap.shownText_stays encloses within
  refine d.keeps_bind shown fun final text finally_ _ => ?_
  have there := d.aside_later onward (d.aside_later enough (d.aside_later later aside))
  exact d.keeps_bind (d.keeps_setText text (d.aside_later finally_ there)) fun _ _ _ _ =>
    d.keeps_plain trivial

theorem keeps_bindShow (owned : d.Owned binder.tracker) (styled : d.Styled stage element)
    (sees : d.Sees stage scope bindings) (directive : Directive) :
    d.Keeps stage (binder.bindShow element directive scope bindings) fun _ _ => True := by
  refine d.keeps_bind (d.keeps_ofExcept _) fun more expr later _ => ?_
  refine d.keeps_bind (d.keeps_createEffect owned fun most enough => ?_) fun _ _ _ _ =>
    d.keeps_claim _
  have seen := d.sees_later enough (d.sees_later later sees)
  refine d.keeps_bind (Discipline.keeps_eval seen expr) fun last value onward _ => ?_
  have there := d.styled_later onward (d.styled_later enough (d.styled_later later styled))
  exact d.keeps_bind (d.keeps_setStyle "display" _ there) fun _ _ _ _ => d.keeps_plain trivial

theorem keeps_bindOn (directive : Directive) :
    d.Keeps stage (binder.bindOn element directive scope bindings) fun _ _ => True := by
  have listening (more : d.Stage) : d.Keeps more (do
      let expr ← TaskM.ofEval (Expr.parse directive.expression)
      let handler : Handler :=
        ⟨binder.tracker, expr, scope, bindings, directive.hasModifier "prevent",
          directive.hasModifier "stop"⟩
      Page.edit fun dom => dom.listen element (directive.argument.getD "") handler
      return Descent.children) fun _ _ => True :=
    d.keeps_bind (d.keeps_ofExcept _) fun _ _ _ _ =>
      d.keeps_bind (d.keeps_listen element _ _) fun _ _ _ _ => d.keeps_claim _
  unfold Binder.bindOn
  dsimp only
  split
  · have failed : d.Keeps stage (TaskM.fail (.directive .missingEventName) : TaskM Page PUnit)
        fun _ _ => True := d.keeps_fail _
    exact d.keeps_bind failed fun more _ _ _ => listening more
  · exact listening stage

/-! ## Repeats -/

/-- Whether what binds elements keeps to the discipline where it may bind them. -/
def KeepsBinds (bind : Binder.SubtreeBinder) : Prop :=
  ∀ {stage element scope bindings}, d.Aside stage element → d.Sees stage scope bindings →
    d.Keeps stage (bind element scope bindings) fun _ _ => True

variable {d} {bind : Binder.SubtreeBinder}

/-- Copies are new, and so is all that binds them. -/
theorem KeepsBinds.stampAll (binds : d.KeepsBinds bind) (aside : d.Aside stage element)
    (template : Child) (name : String) (sees : d.Sees stage scope bindings) {items : List Value}
    (held : ∀ item ∈ items, d.Held stage item) :
    d.Keeps stage (Binder.stampAll bind element template name scope bindings items)
      fun _ _ => True := by
  induction items generalizing stage with
  | nil => exact d.keeps_pure trivial
  | cons item rest ih =>
      rw [List.forall_mem_cons] at held
      rw [Binder.stampAll_next]
      refine d.keeps_bind (d.keeps_copy template) fun more copy later loose => ?_
      have bound : d.Keeps more (bind.bindChild scope (bindings.insert name item) copy)
          fun _ _ => True := by
        cases copy with
        | text content => exact d.keeps_pure trivial
        | element id =>
            exact binds (d.aside_of_loose (loose id rfl))
              ((d.sees_later later sees).insert name (d.held_later later held.1))
      refine d.keeps_bind bound fun most _ enough _ => ?_
      have there := d.aside_later enough (d.aside_later later aside)
      refine d.keeps_bind (d.keeps_append there fun moved same =>
        d.loose_later enough (loose moved same)) fun last _ onward _ => ?_
      exact ih (d.aside_later onward there)
        (d.sees_later onward (d.sees_later enough (d.sees_later later sees)))
        (d.all_later onward (d.all_later enough (d.all_later later held.2)))

theorem KeepsBinds.stamp (binds : d.KeepsBinds bind) (aside : d.Aside stage element)
    (template : Child) (name : String) (source : Expr) (sees : d.Sees stage scope bindings) :
    d.Keeps stage (Binder.stamp bind element template name source scope bindings) d.Held := by
  refine d.keeps_bind (d.keeps_clear aside) fun more _ later _ => ?_
  have seen := d.sees_later later sees
  refine d.keeps_bind (Discipline.keeps_eval seen source) fun most value enough held => ?_
  have looked : d.Keeps most (TaskM.look fun heap => heap.array? value)
      fun _ found => ∀ list ∈ found, value = .container list := d.keeps_look fun heap => by
    cases value with
    | container id => simp [Heap.array?]
    | _ => exact fun _ member => by cases member
  refine d.keeps_bind looked fun last found onward same => ?_
  cases found with
  | none => exact d.keeps_plain trivial
  | some list =>
      obtain rfl := same list rfl
      have still := d.held_later onward held
      refine d.keeps_bind (d.keeps_items still) fun final items beyond all => ?_
      have there := d.aside_later beyond (d.aside_later onward (d.aside_later enough
        (d.aside_later later aside)))
      have seen := d.sees_later beyond (d.sees_later onward (d.sees_later enough seen))
      exact d.keeps_bind (binds.stampAll there template name seen all) fun _ _ _ _ =>
        d.keeps_plain trivial

theorem KeepsBinds.bindRepeat (binds : d.KeepsBinds bind) (owned : d.Owned binder.tracker)
    (aside : d.Aside stage element) (sees : d.Sees stage scope bindings) (directive : Directive) :
    d.Keeps stage (binder.bindRepeat bind element directive scope bindings) fun _ _ => True := by
  refine d.keeps_bind (d.keeps_ofExcept _) fun more parts later _ => ?_
  refine d.keeps_bind (d.keeps_ofExcept _) fun most expr enough _ => ?_
  refine d.keeps_bind (d.keeps_see _) fun last taken onward _ => ?_
  have there := d.aside_later onward (d.aside_later enough (d.aside_later later aside))
  have seen := d.sees_later onward (d.sees_later enough (d.sees_later later sees))
  cases taken with
  | none => exact d.keeps_claim _
  | some template =>
      refine d.keeps_bind (d.keeps_takeFirst there) fun final _ beyond _ => ?_
      refine d.keeps_bind (d.keeps_createEffect owned fun farther last => ?_) fun _ _ _ _ =>
        d.keeps_claim _
      exact binds.stamp (d.aside_later last (d.aside_later beyond there)) template parts.1 expr
        (d.sees_later last (d.sees_later beyond seen))

/-! ## Elements -/

theorem KeepsBinds.bindDirective (binds : d.KeepsBinds bind) (owned : d.Owned binder.tracker)
    (aside : d.Aside stage element) (sees : d.Sees stage scope bindings) (directive : Directive) :
    d.Keeps stage (binder.bindDirective bind element directive scope bindings) fun _ _ => True := by
  unfold Binder.bindDirective
  cases directive.kind with
  | data => exact d.keeps_claim _
  | unknown => exact d.keeps_claim _
  | text => exact d.keeps_bindText owned aside sees directive
  | visible => exact d.keeps_bindShow owned (d.styled_of_aside aside) sees directive
  | on => exact d.keeps_bindOn directive
  | repeated => exact binds.bindRepeat owned aside sees directive

/-- Directives are bound one after another where each of them may be bound.  Children that have been
taken over stay so. -/
theorem keeps_bindDirectives {allowed : d.Stage → Prop}
    (allowed_later : ∀ {stage more}, d.Later stage more → allowed stage → allowed more)
    (attributes : List (String × String))
    (each : ∀ stage, allowed stage → ∀ entry ∈ attributes, ∀ directive,
      Directive.ofAttribute? binder.attributePrefix entry.1 entry.2 = some directive →
        d.Keeps stage (binder.bindDirective bind element directive scope bindings) fun _ _ => True)
    (here : allowed stage) (descent : Descent) :
    d.Keeps stage (binder.bindDirectives bind element scope bindings descent attributes)
      fun _ last => descent = .claimed → last = .claimed := by
  induction attributes generalizing stage descent with
  | nil => exact d.keeps_pure id
  | cons entry rest ih =>
      obtain ⟨name, value⟩ := entry
      have onward {more : d.Stage} (there : allowed more) {next : Descent}
          (kept : descent = .claimed → next = .claimed) :=
        d.keeps_imp (ih (fun stage here entry member =>
          each stage here entry (List.mem_cons_of_mem _ member)) there next)
          fun _ _ last same => last (kept same)
      unfold Binder.bindDirectives
      cases found : Directive.ofAttribute? binder.attributePrefix name value with
      | none => exact onward here id
      | some directive =>
          have bound := each stage here (name, value) List.mem_cons_self directive found
          refine d.keeps_bind (d.keeps_attempt bound) fun more result later _ => ?_
          have there := allowed_later later here
          cases result with
          | ok next =>
              cases next with
              | claimed => exact onward there fun _ => rfl
              | children => exact onward there id
          | error fault =>
              refine d.keeps_bind (d.keeps_report binder.tracker fault) fun most _ enough _ => ?_
              refine onward (allowed_later enough there) fun same => ?_
              split
              · rfl
              · exact same

theorem KeepsBinds.bindChildren (binds : d.KeepsBinds bind) {children : List ElementId}
    (aside : ∀ child ∈ children, d.Aside stage child) (sees : d.Sees stage scope bindings) :
    d.Keeps stage (binder.bindChildren bind scope bindings children) fun _ _ => True := by
  induction children generalizing stage with
  | nil => exact d.keeps_pure trivial
  | cons child rest ih =>
      rw [List.forall_mem_cons] at aside
      refine d.keeps_bind (d.keeps_see _) fun more found later _ => ?_
      have onward (most : d.Stage) (_ : Unit) (enough : d.Later more most) (_ : True) :
          d.Keeps most (binder.bindChildren bind scope bindings rest) fun _ _ => True :=
        ih (fun other member => d.aside_later enough (d.aside_later later (aside.2 other member)))
          (d.sees_later enough (d.sees_later later sees))
      cases found with
      | true =>
          have nothing : d.Keeps more (pure () : TaskM Page Unit) fun _ _ => True :=
            d.keeps_pure trivial
          exact d.keeps_bind nothing onward
      | false =>
          exact d.keeps_bind (binds (d.aside_later later aside.1) (d.sees_later later sees)) onward

/-- The binding of an element keeps to a discipline if the element may be bound, however far down it
goes. -/
theorem keepsBinds_bindWithin (owned : d.Owned binder.tracker) (depth : Nat) :
    d.KeepsBinds (binder.bindWithin depth) := by
  induction depth with
  | zero => exact fun _ _ => d.keeps_pure trivial
  | succ depth ih =>
      intro stage element scope bindings aside sees
      unfold Binder.bindWithin
      refine d.keeps_bind (d.keeps_see _) fun more attributes later _ => ?_
      have bound := d.keeps_bindDirectives
          (fun later here => And.imp (d.aside_later later) (d.sees_later later) here) attributes
          (fun stage here entry _ directive _ => ih.bindDirective owned here.1 here.2 directive)
          ⟨d.aside_later later aside, d.sees_later later sees⟩ .children
      refine d.keeps_bind bound fun most descent enough _ => ?_
      have there := d.aside_later enough (d.aside_later later aside)
      have seen := d.sees_later enough (d.sees_later later sees)
      cases descent with
      | claimed => exact d.keeps_pure trivial
      | children =>
          refine d.keeps_bind (d.keeps_childElements there) fun last children onward below => ?_
          exact ih.bindChildren below (d.sees_later onward seen)

/-- An element that may be shown and hidden may have all directives but those which change its
children. -/
theorem keeps_otherDirectives (owned : d.Owned binder.tracker) (styled : d.Styled stage element)
    (sees : d.Sees stage scope bindings) {attributes : List (String × String)}
    (others : ∀ entry ∈ attributes, ∀ directive,
      Directive.ofAttribute? binder.attributePrefix entry.1 entry.2 = some directive →
        directive.kind ≠ .text ∧ directive.kind ≠ .repeated) (descent : Descent) :
    d.Keeps stage (binder.bindDirectives bind element scope bindings descent attributes)
      fun _ last => descent = .claimed → last = .claimed := by
  refine d.keeps_bindDirectives
    (fun later here => And.imp (d.styled_later later) (d.sees_later later) here) attributes
    (fun stage here entry member directive found => ?_) ⟨styled, sees⟩ descent
  obtain ⟨noText, noRepeat⟩ := others entry member directive found
  unfold Binder.bindDirective
  cases kind : directive.kind with
  | data => exact d.keeps_claim _
  | unknown => exact d.keeps_claim _
  | text => exact absurd kind noText
  | visible => exact d.keeps_bindShow owned here.1 here.2 directive
  | on => exact d.keeps_bindOn directive
  | repeated => exact absurd kind noRepeat

end PageDiscipline

end LiveMarkup
