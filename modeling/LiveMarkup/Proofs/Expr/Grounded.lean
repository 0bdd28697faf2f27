import LiveMarkup.Proofs.Expr.Discipline
import LiveMarkup.Proofs.Reactive.Grounded

/-!
# Expressions refer only to what exists

An expression gets at containers through its scope, its bindings and the functions that it calls.
If these refer only to what exists, so does all that the evaluation hands on: what it stores, what
it makes, and its value.
-/

namespace LiveMarkup

variable {σ : Type} {known : TrackerId → Prop} {size : Nat}

/-- Handing on only what exists is a discipline: what is known is how many containers there are. -/
def grounding (σ : Type) (known : TrackerId → Prop) : Discipline σ where
  Stage := Nat
  Later := Nat.le
  Owned := known
  Held := Value.Fits
  IsArray _ _ := True
  Keeps stage computation good := computation.Grounded known stage good
  held_of_plain plain := plain.inside
  held_later le fits := Value.In.grow fits le
  isArray_later _ _ := trivial
  keeps_pure holds := TaskM.grounded_pure holds
  keeps_fail := TaskM.grounded_fail
  keeps_bind grounded later := grounded.bind later
  keeps_imp grounded implies := fun next closed =>
    grounded next fun more result le good =>
      closed more result le fun a same => implies more a (good a same)
  keeps_look holds := TaskM.grounded_look fun heap _ _ => holds heap
  keeps_typeName _ := TaskM.grounded_look fun _ _ _ _ _ _ => trivial
  keeps_has := TaskM.grounded_has
  keeps_get key fits := TaskM.grounded_watch fun heap le grounded =>
    Heap.get_stays grounded.encloses (Value.in_container.mp (fits.grow le)) key
  keeps_items fits := TaskM.grounded_watch fun heap le grounded =>
    Heap.items_stays grounded.encloses (Value.in_container.mp (fits.grow le))
  keeps_coercion values fits stays := TaskM.grounded_watch fun heap le grounded =>
    stays heap _ grounded.encloses fun value member => (fits value member).grow le
  keeps_closure _ := TaskM.grounded_look fun heap _ grounded code given => by
    have closure := grounded.closures code (Array.mem_of_getElem? given)
    exact ⟨closure.scope.tracker, fun data same => Value.in_container.mpr (closure.scope.data data same),
      closure.bindings⟩
  keeps_array owned fits := TaskM.grounded_make ⟨owned, fits⟩
  keeps_object owned fits := TaskM.grounded_make ⟨owned, fun entry member => (fits entry member).2⟩
  keeps_arrow params body sees := TaskM.grounded_make
    ⟨⟨sees.tracker, fun data same => Value.in_container.mp (sees.data data same)⟩, sees.bindings⟩
  keeps_amend id change := TaskM.grounded_make trivial
  keeps_tryWrite there _ fits := TaskM.grounded_tryWrite (Value.in_container.mp there) _ fits
  keeps_pop there := TaskM.grounded_pop (Value.in_container.mp there)

namespace Expr

/-- Whether what an expression can see exists when there are so many containers. -/
structure Sees (known : TrackerId → Prop) (scope : Scope) (bindings : Bindings) (size : Nat) :
    Prop where
  /-- The scope. -/
  scope : scope.Grounded known size
  /-- The bindings. -/
  bindings : Bindings.Grounded size bindings

theorem Sees.grow {scope : Scope} {bindings : Bindings} {more : Nat}
    (sees : Sees known scope bindings size) (le : size ≤ more) : Sees known scope bindings more :=
  ⟨sees.scope.grow le, sees.bindings.grow le⟩

theorem grounded_eval {scope : Scope} {bindings : Bindings} (sees : Sees known scope bindings size)
    (expr : Expr) : (eval scope bindings expr : TaskM σ Value).Grounded known size Value.Fits := by
  have seen : (grounding σ known).Sees size scope bindings :=
    ⟨sees.scope.tracker, fun data same => Value.in_container.mpr (sees.scope.data data same),
      sees.bindings⟩
  exact Discipline.keeps_eval seen expr

end Expr

/-- Evaluating a text refers only to what its scope and its bindings lead to. -/
theorem grounded_evaluate {scope : Scope} {bindings : Bindings}
    (sees : Expr.Sees known scope bindings size) (source : String) :
    (evaluate source scope bindings : TaskM σ Value).Grounded known size Value.Fits := by
  have read : (TaskM.ofEval (Expr.parse source) : TaskM σ Expr).Grounded known size
      fun _ _ => True := TaskM.grounded_ofExcept fun _ _ => trivial
  exact read.bind fun more expr le _ => Expr.grounded_eval (sees.grow le) expr

end LiveMarkup
