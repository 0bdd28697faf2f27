import LiveMarkup.Proofs.Expr.Discipline
import LiveMarkup.Proofs.Reactive.Dividing

/-!
# Where an evaluation ends in a history

An evaluation is made of requests, one after another, so every history of it divides into what it
does and what comes after it.
-/

namespace LiveMarkup

/-- Having an outcome in every history is a discipline, under which code may have any value. -/
def dividing (σ : Type) : Discipline σ where
  Stage := Unit
  Later _ _ := True
  Owned _ := True
  Held _ _ := True
  IsArray _ _ := True
  Keeps _ computation good := computation.Divides (good ())
  held_of_plain _ := trivial
  held_later _ _ := trivial
  isArray_later _ _ := trivial
  keeps_pure holds := TaskM.divides_pure holds
  keeps_fail := TaskM.divides_fail
  keeps_bind divides later := divides.bind fun a holds => later () a trivial holds
  keeps_imp divides implies := divides.imp (implies ())
  keeps_look holds := TaskM.divides_look holds
  keeps_typeName _ := TaskM.divides_look fun _ _ _ _ => trivial
  keeps_has := TaskM.divides_has
  keeps_get _ _ := TaskM.divides_watch fun _ => trivial
  keeps_items _ := TaskM.divides_watch fun _ _ _ => trivial
  keeps_coercion _ _ stays := TaskM.divides_watch fun heap =>
    (stays heap (fun _ => True) (fun _ _ _ _ _ _ => trivial) fun _ _ _ _ => trivial).result #[]
  keeps_closure _ := TaskM.divides_look fun _ _ _ =>
    ⟨trivial, fun _ _ => trivial, fun _ _ => trivial⟩
  keeps_array _ _ := TaskM.divides_make _
  keeps_object _ _ := TaskM.divides_make _
  keeps_arrow _ _ _ := TaskM.divides_make _
  keeps_amend _ _ := TaskM.divides_make _
  keeps_tryWrite _ _ _ := TaskM.divides_tryWrite _ _ _
  keeps_pop _ := TaskM.divides_pop _

theorem sees_dividing {σ : Type} (scope : Scope) (bindings : Bindings) :
    (dividing σ).Sees () scope bindings :=
  ⟨trivial, fun _ _ => trivial, fun _ _ => trivial⟩

/-- Every history of an evaluation divides where the evaluation ends. -/
theorem divides_eval {σ : Type} (scope : Scope) (bindings : Bindings) (expr : Expr) :
    (Expr.eval scope bindings expr : TaskM σ Value).Divides fun _ => True :=
  Discipline.keeps_eval (sees_dividing scope bindings) expr

end LiveMarkup
