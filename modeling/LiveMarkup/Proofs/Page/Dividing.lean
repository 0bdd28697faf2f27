import LiveMarkup.Proofs.Directive.Discipline
import LiveMarkup.Proofs.Expr.Dividing
import LiveMarkup.Proofs.Expr.Grounded

/-!
# Where a binding ends in a history

Binding an element names only what exists, so it has a history.  It ends in every history, however
far down it goes, and never with a fault: a directive that cannot be bound is reported, and the
others are bound after it.
-/

namespace LiveMarkup

open TaskM

/-! ## Every binding has a history -/

namespace TaskM

variable {σ α : Type} {known : TrackerId → Prop} {size : Nat}

theorem Grounded.attempt {good : Nat → α → Prop} {computation : TaskM σ α}
    (grounded : computation.Grounded known size good) :
    (attempt computation).Grounded known size fun _ _ => True :=
  fun _ closed => grounded _ fun more outcome le _ =>
    closed more (.ok outcome) le fun _ _ => trivial

theorem grounded_survey (observe : σ → α) :
    (survey observe).Grounded known size fun _ _ => True :=
  fun _ closed _ => closed size _ (Nat.le_refl _) fun _ _ => trivial

theorem grounded_alter (change : σ → σ) :
    (alter change).Grounded known size fun _ _ => True :=
  fun _ closed => closed size _ (Nat.le_refl _) fun _ _ => trivial

end TaskM

/-- Naming only what exists is a discipline under which code may bind every element. -/
def groundingPages (known : TrackerId → Prop) : PageDiscipline where
  toDiscipline := grounding Page known
  Styled _ _ := True
  Aside _ _ := True
  Loose _ _ := True
  styled_of_aside _ := trivial
  aside_of_loose _ := trivial
  styled_later _ _ := trivial
  aside_later _ _ := trivial
  loose_later _ _ := trivial
  keeps_attempt grounded := grounded.attempt
  keeps_report := grounded_report
  keeps_createEffect owned grounded := (grounded _ (Nat.le_refl _)).createEffect owned
  keeps_see _ := grounded_survey _
  keeps_childElements _ :=
    (grounding Page known).keeps_imp (grounded_survey _) fun _ _ _ _ _ => trivial
  keeps_setText _ _ := grounded_alter _
  keeps_setStyle _ _ _ := grounded_alter _
  keeps_listen _ _ _ := grounded_alter _
  keeps_clear _ := grounded_alter _
  keeps_takeFirst _ := grounded_alter _
  keeps_copy _ := (grounded_survey _).bind fun _ _ _ _ => (grounded_alter _).bind fun _ _ _ _ =>
    grounded_pure fun _ _ => trivial
  keeps_append _ _ := grounded_alter _

theorem Binder.grounded_bindWithin {known : TrackerId → Prop} {size : Nat} {binder : Binder}
    {scope : Scope} {bindings : Bindings} (sees : Expr.Sees known scope bindings size)
    (owned : known binder.tracker) (depth : Nat) (element : ElementId) :
    (binder.bindWithin depth element scope bindings).Grounded known size fun _ _ => True := by
  have seen : (grounding Page known).Sees size scope bindings :=
    ⟨sees.scope.tracker, fun data same => Value.in_container.mpr (sees.scope.data data same),
      sees.bindings⟩
  exact PageDiscipline.keepsBinds_bindWithin (d := groundingPages known) owned depth trivial seen

/-! ## Every binding ends -/

theorem divides_copy (template : Child) : (Binder.copy template).Divides fun _ => True :=
  (divides_survey _).bind fun _ _ => (divides_alter _).bind fun _ _ => divides_pure trivial

/-- Having an outcome in every history is a discipline under which code may bind every element. -/
def dividingPages : PageDiscipline where
  toDiscipline := dividing Page
  Styled _ _ := True
  Aside _ _ := True
  Loose _ _ := True
  styled_of_aside _ := trivial
  aside_of_loose _ := trivial
  styled_later _ _ := trivial
  aside_later _ _ := trivial
  loose_later _ _ := trivial
  keeps_attempt divides := divides.attempt.imp fun _ _ => trivial
  keeps_report := divides_report
  keeps_createEffect _ _ := divides_createEffect _ _
  keeps_see _ := divides_survey _
  keeps_childElements _ := (divides_survey _).imp fun _ _ _ _ => trivial
  keeps_setText _ _ := divides_alter _
  keeps_setStyle _ _ _ := divides_alter _
  keeps_listen _ _ _ := divides_alter _
  keeps_clear _ := divides_alter _
  keeps_takeFirst _ := divides_alter _
  keeps_copy template := (divides_copy template).imp fun _ _ _ _ => trivial
  keeps_append _ _ := divides_alter _

namespace Binder

variable {binder : Binder} {element : ElementId} {scope : Scope} {bindings : Bindings}
  {bindCopy : SubtreeBinder}

theorem divides_bindWithin (binder : Binder) (depth : Nat) (element : ElementId) (scope : Scope)
    (bindings : Bindings) :
    (binder.bindWithin depth element scope bindings).Divides fun _ => True :=
  PageDiscipline.keepsBinds_bindWithin (d := dividingPages) trivial depth trivial
    (sees_dividing scope bindings)

/-! ## No binding fails -/

theorem succeeds_bindDirectives (descent : Descent) (attributes : List (String × String)) :
    (binder.bindDirectives bindCopy element scope bindings descent attributes).Succeeds := by
  induction attributes generalizing descent with
  | nil => exact succeeds_pure descent
  | cons entry rest ih =>
      obtain ⟨name, value⟩ := entry
      unfold Binder.bindDirectives
      cases Directive.ofAttribute? binder.attributePrefix name value with
      | none => exact ih descent
      | some directive =>
          refine (succeeds_attempt _).bind fun result => ?_
          cases result with
          | ok next => cases next <;> exact ih _
          | error fault => exact (succeeds_report binder.tracker fault).bind fun _ => ih _

theorem succeeds_bindChildren {bindChild : SubtreeBinder}
    (succeeds : ∀ id, (bindChild id scope bindings).Succeeds) (children : List ElementId) :
    (binder.bindChildren bindChild scope bindings children).Succeeds := by
  induction children with
  | nil => exact succeeds_pure ()
  | cons child rest ih =>
      refine (succeeds_survey _).bind fun found => ?_
      cases found with
      | true => exact (succeeds_pure ()).bind fun _ => ih
      | false => exact (succeeds child).bind fun _ => ih

/-- Binding an element never fails. -/
theorem succeeds_bindWithin (binder : Binder) (depth : Nat) (element : ElementId) (scope : Scope)
    (bindings : Bindings) : (binder.bindWithin depth element scope bindings).Succeeds := by
  induction depth generalizing element with
  | zero => exact succeeds_pure ()
  | succ depth ih =>
      unfold Binder.bindWithin
      refine (succeeds_survey _).bind fun attributes => ?_
      refine (succeeds_bindDirectives .children attributes).bind fun descent => ?_
      cases descent with
      | claimed => exact succeeds_pure ()
      | children => exact (succeeds_survey _).bind fun children => succeeds_bindChildren ih children

end Binder

end LiveMarkup
