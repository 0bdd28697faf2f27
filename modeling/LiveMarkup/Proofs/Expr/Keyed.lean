import LiveMarkup.Proofs.Expr.Discipline
import LiveMarkup.Proofs.Reactive.Keyed

/-!
# Expressions write under obtained keys

An expression names a property by a text or by a value in brackets, and the methods of an array
write at positions.  So whatever it evaluates, and whatever functions it calls, it uses only keys
that were obtained.
-/

namespace LiveMarkup

variable {σ : Type} {heap : Heap}

/-- Using only obtained keys is a discipline: what is known is which containers are arrays. -/
def keying (σ : Type) : Discipline σ where
  Stage := Heap
  Later := Heap.Keeps
  Owned _ := True
  Held _ _ := True
  IsArray heap id := heap.isArray id = true
  Keeps heap computation good := computation.Keyed heap good
  held_of_plain _ := trivial
  held_later _ _ := trivial
  isArray_later keeps isArray := Heap.isArray_of_keeps keeps isArray
  keeps_pure holds := TaskM.keyed_pure holds
  keeps_fail := TaskM.keyed_fail
  keeps_bind keyed later := keyed.bind later
  keeps_imp keyed implies := keyed.imp implies
  keeps_look holds := TaskM.keyed_look fun heap _ => holds heap
  keeps_typeName receiver := TaskM.keyed_look fun heap _ id same type => by
    rw [same, Heap.typeName] at type
    split at type
    next isArray => exact isArray
    next => cases type
  keeps_has := TaskM.keyed_has
  keeps_get _ _ := TaskM.keyed_watch fun _ _ => trivial
  keeps_items _ := TaskM.keyed_watch fun _ _ _ _ => trivial
  keeps_coercion _ _ stays := TaskM.keyed_watch fun heap _ =>
    (stays heap (fun _ => True) (fun _ _ _ _ _ _ => trivial) fun _ _ _ _ => trivial).result #[]
  keeps_closure _ := TaskM.keyed_look fun _ _ _ _ =>
    ⟨trivial, fun _ _ => trivial, fun _ _ => trivial⟩
  keeps_array _ _ := TaskM.keyed_make trivial
  keeps_object _ entries := TaskM.keyed_make fun entry member => (entries entry member).1
  keeps_arrow _ _ _ := TaskM.keyed_make trivial
  keeps_amend _ _ := TaskM.keyed_make trivial
  keeps_tryWrite _ takes _ := TaskM.keyed_tryWrite takes _
  keeps_pop _ := TaskM.keyed_pop _

/-- Evaluating a text uses obtained keys only, whatever it sees. -/
theorem keyed_evaluate (source : String) (scope : Scope) (bindings : Bindings) :
    (evaluate source scope bindings : TaskM σ Value).Keyed heap fun _ _ => True := by
  have read : (TaskM.ofEval (Expr.parse source) : TaskM σ Expr).Keyed heap fun _ _ => True :=
    TaskM.keyed_ofExcept fun _ _ => trivial
  refine read.bind fun more expr _ _ => ?_
  have sees : (keying σ).Sees more scope bindings :=
    ⟨trivial, fun _ _ => trivial, fun _ _ => trivial⟩
  exact Discipline.keeps_eval sees expr

end LiveMarkup
