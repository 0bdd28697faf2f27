import LiveMarkup.Proofs.Directive.Slot

/-!
# Directives one after another

A directive is read and then served; one that cannot be read is reported, and the next one is bound
all the same.
-/

namespace LiveMarkup

/-- Whether the children of an element are still to be bound after a directive was bound. -/
def Descent.next (descent : Descent) (kind : DirectiveKind) :
    Except Fault Descent → Descent
  | .ok .claimed => .claimed
  | .ok .children => descent
  | .error _ => if kind = .repeated then .claimed else descent

namespace Binder

variable (binder : Binder) (depth : Nat) (element : ElementId) (scope : Scope) (bindings : Bindings)

/-- Attaches the effect of a directive of some kind, given what it demands. -/
def serve (kind : DirectiveKind) (demand : String × Expr) : TaskM Page Descent :=
  match kind with
  | .text => do
      let _ ← TaskM.createEffect binder.tracker
        (Duty.body binder scope ⟨element, bindings, demand.2, .text⟩)
      return .children
  | .visible => do
      let _ ← TaskM.createEffect binder.tracker
        (Duty.body binder scope ⟨element, bindings, demand.2, .visible⟩)
      return .children
  | .repeated => do
      match ← Page.see fun dom => (dom.takeFirst element).1 with
      | none => return .claimed
      | some template =>
          Page.edit fun dom => (dom.takeFirst element).2
          let _ ← TaskM.createEffect binder.tracker
            (stamp (binder.bindWithin depth) element template demand.1 demand.2 scope bindings)
          return .claimed
  | .data | .on | .unknown => return .children

/-- A directive is read and then served. -/
theorem bindDirective_eq {directive : Directive} (about : directive.kind.slot? ≠ none) :
    binder.bindDirective (binder.bindWithin depth) element directive scope bindings =
      TaskM.ofExcept directive.demand? >>=
        binder.serve depth element scope bindings directive.kind := by
  unfold bindDirective Directive.demand?
  cases kind : directive.kind with
  | data => exact absurd (congrArg DirectiveKind.slot? kind) about
  | on => exact absurd (congrArg DirectiveKind.slot? kind) about
  | unknown => exact absurd (congrArg DirectiveKind.slot? kind) about
  | text =>
      rw [if_neg (by decide)]
      dsimp only [bindText]
      cases Expr.parse directive.expression <;> rfl
  | visible =>
      rw [if_neg (by decide)]
      dsimp only [bindShow]
      cases Expr.parse directive.expression <;> rfl
  | repeated =>
      rw [if_pos rfl]
      dsimp only [bindRepeat]
      cases Directive.splitRepeat directive.expression with
      | error fault => rfl
      | ok parts =>
          change TaskM.ofEval (Expr.parse parts.2) >>= _ = _
          dsimp only
          cases Expr.parse parts.2 <;> rfl

/-- Directives are bound one after another. -/
theorem bindDirectives_cons {bindCopy : SubtreeBinder} {runner : World.Runner Page}
    {world between after : World Page} {descent : Descent} {name value : String}
    {rest : List (String × String)} {directive : Directive} {result : Except Fault Descent}
    {final : Except Fault Descent}
    (found : Directive.ofAttribute? binder.attributePrefix name value = some directive)
    (ends : (binder.bindDirective bindCopy element directive scope bindings).Ends runner world result
      between)
    (later : (binder.bindDirectives bindCopy element scope bindings
      (descent.next directive.kind result) rest).Ends runner
        (between.noting binder.tracker result) final after) :
    (binder.bindDirectives bindCopy element scope bindings descent ((name, value) :: rest)).Ends runner
      world final after := by
  rw [bindDirectives]
  simp only [found]
  refine ends.attempt.bind ?_
  cases result with
  | ok next => cases next <;> exact later
  | error fault => exact .bind (.report binder.tracker fault between) later

/-- Binds a child, unless it is a text or declares data of its own. -/
def bindUndeclared (bindChild : SubtreeBinder) : Child → TaskM Page Unit
  | .text _ => pure ()
  | .element child => do
      if ← Page.see fun dom => dom.hasAttribute child binder.dataAttribute then pure ()
      else bindChild child scope bindings

/-- Children are bound one after another. -/
theorem bindChildren_cons (bindChild : SubtreeBinder) (child : Child) (rest : List Child) :
    binder.bindChildren bindChild scope bindings ((child :: rest).filterMap Child.element?) = (do
      binder.bindUndeclared scope bindings bindChild child
      binder.bindChildren bindChild scope bindings (rest.filterMap Child.element?)) := by
  cases child with
  | text content => rfl
  | element child =>
      change binder.bindChildren bindChild scope bindings (child :: rest.filterMap Child.element?) = _
      rw [bindChildren, bindUndeclared, bind_assoc]
      refine congrArg (fun next =>
        Page.see (fun dom => dom.hasAttribute child binder.dataAttribute) >>= next)
        (funext fun declared => ?_)
      cases declared <;> rfl

end Binder

end LiveMarkup
