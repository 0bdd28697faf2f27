import LiveMarkup.Proofs.Directive.Outcome
import LiveMarkup.Proofs.Directive.Serving

/-!
# What a tree becomes

Binding a tree turns it into another one.  Which one it is, and which faults are reported on the way,
is a function of the tree, the bindings and the heap: no element keeps another one from becoming what
it is to be, and nothing is said of the effects by which it stays so.  In a heap that is the
counterpart of another one, a tree becomes the same.
-/

namespace LiveMarkup

/-- What has come out of something: a result, a heap and the faults that were reported. -/
structure Rendered (α : Type) where
  /-- The result. -/
  result : α
  /-- The heap afterwards. -/
  heap : Heap
  /-- The faults, oldest first. -/
  faults : List Fault

/-- Something that is rendered: it has a result and may make containers and report faults. -/
def Render (α : Type) : Type := Heap → Rendered α

namespace Render

instance : Monad Render where
  pure a := fun heap => ⟨a, heap, []⟩
  bind first next := fun heap =>
    let here := first heap
    let there := next here.result here.heap
    ⟨there.result, there.heap, here.faults ++ there.faults⟩

instance : LawfulMonad Render :=
  LawfulMonad.mk' Render
    (fun first => funext fun heap => congrArg (Rendered.mk (first heap).result (first heap).heap)
      (List.append_nil _))
    (fun _ _ => rfl)
    (fun _ _ _ => funext fun _ => congrArg (Rendered.mk _ _) (List.append_assoc _ _ _))

/-- Reports a fault. -/
def report (fault : Fault) : Render Unit := fun heap => ⟨(), heap, [fault]⟩

/-- Looks at an expression; nothing is seen if there is a fault, which is reported. -/
def see (glance : Glance) (scope : Scope) (bindings : Bindings) (expr : Expr) :
    Render (Option Sight) := fun heap =>
  let outcome := glance.outcome scope bindings expr heap
  match outcome.1 with
  | .ok sight => ⟨some sight, outcome.2, []⟩
  | .error fault => ⟨none, outcome.2, [fault]⟩

section See

variable {glance : Glance} {scope : Scope} {bindings : Bindings} {expr : Expr} {heap : Heap}

theorem see_of_error {fault : Fault}
    (failed : (glance.outcome scope bindings expr heap).1 = .error fault) :
    see glance scope bindings expr heap =
      ⟨none, (glance.outcome scope bindings expr heap).2, [fault]⟩ := by
  simp only [see, failed]

theorem see_of_ok {sight : Sight} (seen : (glance.outcome scope bindings expr heap).1 = .ok sight) :
    see glance scope bindings expr heap =
      ⟨some sight, (glance.outcome scope bindings expr heap).2, []⟩ := by
  simp only [see, seen]

end See

theorem pure_apply {α : Type} (a : α) (heap : Heap) : (pure a : Render α) heap = ⟨a, heap, []⟩ :=
  rfl

theorem bind_apply {α β : Type} (first : Render α) (next : α → Render β) (heap : Heap) :
    (first >>= next) heap =
      ⟨(next (first heap).result (first heap).heap).result,
        (next (first heap).result (first heap).heap).heap,
        (first heap).faults ++ (next (first heap).result (first heap).heap).faults⟩ :=
  rfl

end Render

/-- What the directives of an element change. -/
structure Look where
  /-- Its inline style. -/
  style : Assoc String String
  /-- Its children. -/
  children : List Tree

/-- The children of an element that shows a text. -/
def Tree.textRow (text : String) : List Tree := if text.isEmpty then [] else [.text text]

theorem Tree.mem_textRow {text : String} {tree : Tree} (listed : tree ∈ textRow text) :
    tree = .text text := by
  unfold textRow at listed
  split at listed
  · contradiction
  · exact List.mem_singleton.mp listed

namespace Directive

/-- What a directive demands, if it can be set up.  One that shows nothing demands nothing. -/
def setUp? (directive : Directive) : Except Fault (Option (String × Expr)) :=
  match directive.kind with
  | .data | .unknown => .ok none
  | .on =>
      if (directive.argument.getD "").isEmpty then .error (.directive .missingEventName)
      else
        match Expr.parse directive.expression with
        | .error fault => .error (.eval fault)
        | .ok _ => .ok none
  | .text | .visible | .repeated => directive.demand?.map some

theorem setUp_of_slot {directive : Directive} (about : directive.kind.slot? ≠ none) :
    directive.setUp? = directive.demand?.map some := by
  unfold setUp?
  cases kind : directive.kind with
  | data => exact absurd (congrArg DirectiveKind.slot? kind) about
  | on => exact absurd (congrArg DirectiveKind.slot? kind) about
  | unknown => exact absurd (congrArg DirectiveKind.slot? kind) about
  | text => rfl
  | visible => rfl
  | repeated => rfl

end Directive

/-- Whether the children are still to be bound after two directives. -/
def Descent.both : Descent → Descent → Descent
  | .children, second => second
  | .claimed, _ => .claimed

/-- Whether the children are still to be bound when a directive of some kind could not be set up. -/
def Descent.afterFault (kind : DirectiveKind) : Descent :=
  if kind = .repeated then .claimed else .children

theorem Descent.of_both {first second : Descent} (both : first.both second = .children) :
    first = .children := by
  cases first with
  | children => rfl
  | claimed => exact nomatch both

theorem Descent.next_ok (descent served : Descent) (kind : DirectiveKind) :
    descent.next kind (.ok served) = served.both descent := by
  cases served <;> rfl

theorem Descent.next_error (descent : Descent) (kind : DirectiveKind) (fault : Fault) :
    descent.next kind (.error fault) = (Descent.afterFault kind).both descent := by
  rw [Descent.next, Descent.afterFault]
  split <;> rfl

/-- What stays the same while a tree is rendered. -/
structure Setting where
  /-- Who binds the tree. -/
  binder : Binder
  /-- The scope around it. -/
  scope : Scope
  /-- The greatest number of frames. -/
  limit : Nat

namespace Setting

variable (setting : Setting)

/-- Renders a template for every item of a list. -/
def renderCopies (copy : Bindings → Tree → Render Tree) (template : Tree) (name : String)
    (bindings : Bindings) : List Value → Render (List Tree)
  | [] => pure []
  | item :: rest => do
      let first ← copy (bindings.insert name item) template
      let others ← renderCopies copy template name bindings rest
      return first :: others

/-- What an element looks like when something was seen. -/
def renderSight (copy : Bindings → Tree → Render Tree) (template : Tree) (name : String)
    (bindings : Bindings) (look : Look) : Option Sight → Render Look
  | some (.text content) => pure { look with children := Tree.textRow content }
  | some (.truth holds) =>
      pure { look with style := look.style.insert "display" (if holds then "block" else "none") }
  | some (.items (some items)) => do
      let copies ← renderCopies copy template name bindings items
      return { look with children := copies }
  | some (.items none) | none => pure look

/-- Runs an effect if there is room for its frame.  It begins with a certain look. -/
def renderEffect (copy : Bindings → Tree → Render Tree) (room : Nat) (glance : Glance)
    (template : Tree) (name : String) (bindings : Bindings) (expr : Expr) (look begun : Look) :
    Render Look :=
  if room = 0 then do
    Render.report (.reactive (.depthExceeded setting.limit))
    return look
  else do
    let sight ← Render.see glance setting.scope bindings expr
    renderSight copy template name bindings begun sight

/-- What an element looks like when a directive of some kind has been set up, and whether its children
are still to be bound. -/
def renderServed (copy : Bindings → Tree → Render Tree) (room : Nat) (bindings : Bindings)
    (look : Look) : DirectiveKind → String × Expr → Render (Look × Descent)
  | .text, demand => do
      let look ← setting.renderEffect copy room .text (.text "") "" bindings demand.2 look look
      return (look, .children)
  | .visible, demand => do
      let look ← setting.renderEffect copy room .truth (.text "") "" bindings demand.2 look look
      return (look, .children)
  | .repeated, demand =>
      match look.children with
      | [] => return (look, .claimed)
      | template :: rest => do
          let look ← setting.renderEffect copy room .items template demand.1 bindings demand.2
            { look with children := rest } { look with children := [] }
          return (look, .claimed)
  | .data, _ | .on, _ | .unknown, _ => return (look, .children)

/-- What an element looks like after a directive.  One that cannot be set up is reported. -/
def renderDirective (copy : Bindings → Tree → Render Tree) (room : Nat) (bindings : Bindings)
    (look : Look) (directive : Directive) : Render (Look × Descent) :=
  match directive.setUp? with
  | .error fault => do
      Render.report fault
      return (look, .afterFault directive.kind)
  | .ok none => return (look, .children)
  | .ok (some demand) => setting.renderServed copy room bindings look directive.kind demand

/-- What an element looks like after the directives among some attributes. -/
def renderDirectives (copy : Bindings → Tree → Render Tree) (room : Nat) (bindings : Bindings) :
    Look → Descent → List (String × String) → Render (Look × Descent)
  | look, descent, [] => pure (look, descent)
  | look, descent, (name, value) :: rest =>
      match Directive.ofAttribute? setting.binder.attributePrefix name value with
      | none => renderDirectives copy room bindings look descent rest
      | some directive => do
          let served ← setting.renderDirective copy room bindings look directive
          renderDirectives copy room bindings served.1 (served.2.both descent) rest

/-- Directives are rendered one after another. -/
theorem renderDirectives_append (copy : Bindings → Tree → Render Tree) (room : Nat)
    (bindings : Bindings) (look : Look) (descent : Descent) (before after : List (String × String)) :
    setting.renderDirectives copy room bindings look descent (before ++ after) = (do
      let served ← setting.renderDirectives copy room bindings look descent before
      setting.renderDirectives copy room bindings served.1 served.2 after) := by
  induction before generalizing look descent with
  | nil => rfl
  | cons entry rest ih =>
      obtain ⟨name, value⟩ := entry
      rw [List.cons_append, renderDirectives, renderDirectives]
      cases Directive.ofAttribute? setting.binder.attributePrefix name value with
      | none => exact ih look descent
      | some directive =>
          rw [bind_assoc]
          exact congrArg (fun next => setting.renderDirective copy room bindings look directive >>= next)
            (funext fun served => ih _ _)

/-- Children that a directive has taken over are not handed back. -/
theorem descent_of_children {copy : Bindings → Tree → Render Tree} {room : Nat} {bindings : Bindings}
    {look : Look} {descent : Descent} {attributes : List (String × String)} {heap : Heap}
    (children : (setting.renderDirectives copy room bindings look descent attributes heap).result.2 =
      .children) : descent = .children := by
  induction attributes generalizing look descent heap with
  | nil => exact children
  | cons entry rest ih =>
      obtain ⟨name, value⟩ := entry
      rw [renderDirectives] at children
      cases found : Directive.ofAttribute? setting.binder.attributePrefix name value with
      | none =>
          simp only [found] at children
          exact ih children
      | some directive =>
          simp only [found] at children
          have both := ih children
          revert both
          cases (setting.renderDirective copy room bindings look directive heap).result.2 with
          | children => exact id
          | claimed => exact fun both => nomatch both

/-- Renders a child unless it declares data of its own. -/
def renderChild (child : Tree → Render Tree) (tree : Tree) : Render Tree :=
  if tree.declares setting.binder then pure tree else child tree

/-- Renders the children of an element in order. -/
def renderRow (child : Tree → Render Tree) : List Tree → Render (List Tree)
  | [] => pure []
  | tree :: rest => do
      let first ← setting.renderChild child tree
      let others ← renderRow child rest
      return first :: others

theorem renderRow_append (child : Tree → Render Tree) (earlier later : List Tree) :
    setting.renderRow child (earlier ++ later) = (do
      let first ← setting.renderRow child earlier
      let others ← setting.renderRow child later
      return first ++ others) := by
  induction earlier with
  | nil => exact (bind_pure _).symm
  | cons tree rest ih =>
      rw [List.cons_append, renderRow, renderRow, ih]
      simp only [bind_assoc, pure_bind, List.cons_append]

theorem length_renderRow (child : Tree → Render Tree) (trees : List Tree) (heap : Heap) :
    (setting.renderRow child trees heap).result.length = trees.length := by
  induction trees generalizing heap with
  | nil => rfl
  | cons tree rest ih => exact congrArg (· + 1) (ih _)

/-- What becomes of an element whose directives have been bound. -/
def renderBelow (child : Tree → Render Tree) (tag : String) (attributes : Assoc String String)
    (served : Look × Descent) : Render Tree :=
  match served.2 with
  | .claimed => return .element tag attributes served.1.style served.1.children
  | .children => do
      let children ← setting.renderRow child served.1.children
      return .element tag attributes served.1.style children

/-- What becomes of a tree that is bound as far down as a bound, where there is room for some nested
effects. -/
def renderWithin : Nat → Nat → Bindings → Tree → Render Tree
  | 0, _, _, tree => pure tree
  | _ + 1, _, _, .text content => pure (.text content)
  | depth + 1, room, bindings, .element tag attributes style children => do
      let served ← setting.renderDirectives (renderWithin depth (room - 1)) room bindings
        ⟨style, children⟩ .children attributes.entries
      setting.renderBelow (renderWithin depth room bindings) tag attributes served

end Setting

end LiveMarkup
