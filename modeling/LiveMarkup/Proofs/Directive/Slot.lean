import LiveMarkup.Proofs.Directive.Duty

/-!
# What directives are about

A `show` directive is about the style of its element, and `text` and `for` are about its children.
A tree is admissible if no element has two directives about the same thing, none has listeners or
data of its own below the root, and all expressions are plain.
-/

namespace LiveMarkup

/-- What a directive can be about. -/
inductive Slot where
  /-- The style of an element. -/
  | style
  /-- The children of an element. -/
  | children
  deriving DecidableEq

/-- What a directive of a kind is about. -/
def DirectiveKind.slot? : DirectiveKind → Option Slot
  | .visible => some .style
  | .text | .repeated => some .children
  | .data | .on | .unknown => none

/-- What an aim is about. -/
def Aim.slot : Aim → Slot
  | visible => .style
  | text | repeated _ _ _ _ => .children

namespace Directive

/-- The loop variable of a `for` directive and the expression of any directive, if they can be
read. -/
def demand? (directive : Directive) : Except Fault (String × Expr) :=
  if directive.kind = .repeated then
    match splitRepeat directive.expression with
    | .error fault => .error (.directive fault)
    | .ok parts =>
        match Expr.parse parts.2 with
        | .error fault => .error (.eval fault)
        | .ok expr => .ok (parts.1, expr)
  else
    match Expr.parse directive.expression with
    | .error fault => .error (.eval fault)
    | .ok expr => .ok ("", expr)

/-- The first directive about something. -/
def about? (slot : Slot) (directives : List Directive) : Option Directive :=
  directives.find? fun directive => directive.kind.slot? = some slot

/-- Whether no two directives are about the same thing. -/
def Apart (directives : List Directive) : Prop :=
  directives.Pairwise fun first second =>
    first.kind.slot? = none ∨ second.kind.slot? ≠ first.kind.slot?

instance (directives : List Directive) : Decidable (Apart directives) :=
  inferInstanceAs (Decidable (directives.Pairwise _))

theorem about?_append (slot : Slot) (served : List Directive) (directive : Directive) :
    about? slot (served ++ [directive]) = (about? slot served).or
      (if directive.kind.slot? = some slot then some directive else none) := by
  rw [about?, about?, List.find?_append, List.find?_singleton]
  congr 1
  by_cases same : directive.kind.slot? = some slot <;> simp [same]

theorem about?_append_of_eq {slot : Slot} {served : List Directive} {directive : Directive}
    (none : about? slot served = none) (about : directive.kind.slot? = some slot) :
    about? slot (served ++ [directive]) = some directive := by
  rw [about?_append, none, if_pos about, Option.none_or]

theorem about?_append_of_ne {slot : Slot} {directive : Directive}
    (differs : directive.kind.slot? ≠ some slot) (served : List Directive) :
    about? slot (served ++ [directive]) = about? slot served := by
  rw [about?_append, if_neg differs, Option.or_none]

/-- What a directive is about, no earlier one is. -/
theorem about?_of_apart {slot : Slot} {served rest : List Directive} {directive : Directive}
    (apart : Apart (served ++ directive :: rest)) (about : directive.kind.slot? = some slot) :
    about? slot served = none := by
  refine List.find?_eq_none.mpr fun earlier member => ?_
  have differs := (List.pairwise_append.mp apart).2.2 earlier member directive List.mem_cons_self
  simp only [decide_eq_true_eq]
  intro same
  rcases differs with none | other
  · rw [none] at same
    contradiction
  · exact other (about.trans same.symm)

end Directive

namespace Binder

/-- The directives among some attributes. -/
def directives (binder : Binder) (attributes : List (String × String)) : List Directive :=
  attributes.filterMap fun entry =>
    Directive.ofAttribute? binder.attributePrefix entry.1 entry.2

/-- Whether all expressions that directives among some attributes show are plain. -/
def Plain (binder : Binder) (attributes : List (String × String)) : Prop :=
  ∀ directive ∈ binder.directives attributes, directive.kind.slot? ≠ none →
    ∀ demand, directive.demand? = .ok demand → demand.2.isPlain = true

/-- Whether the directives among some attributes are apart, listen to no event and have plain
expressions. -/
structure Permits (binder : Binder) (attributes : List (String × String)) : Prop where
  /-- No two are about the same thing. -/
  apart : Directive.Apart (binder.directives attributes)
  /-- None listens to events. -/
  silent : ∀ directive ∈ binder.directives attributes, directive.kind ≠ .on
  /-- Expressions that can be read are plain. -/
  plain : binder.Plain attributes

end Binder

namespace Tree

/-- Whether a tree is an element that declares data. -/
def declares (binder : Binder) : Tree → Bool
  | .text _ => false
  | .element _ attributes _ _ => attributes.contains binder.dataAttribute

mutual

/-- Whether all expressions that directives of a tree show are plain. -/
def Plain (binder : Binder) : Tree → Prop
  | .text _ => True
  | .element _ attributes _ children => binder.Plain attributes.entries ∧ PlainAll binder children

/-- Whether all expressions that directives of a row of trees show are plain. -/
def PlainAll (binder : Binder) : List Tree → Prop
  | [] => True
  | tree :: rest => Plain binder tree ∧ PlainAll binder rest

end

mutual

/-- Whether the directives of every element of a tree are permitted and nothing below the root
declares data. -/
def Admissible (binder : Binder) : Tree → Prop
  | .text _ => True
  | .element _ attributes _ children =>
      binder.Permits attributes.entries ∧ AdmissibleAll binder children

/-- Whether the trees of a row are admissible and declare no data. -/
def AdmissibleAll (binder : Binder) : List Tree → Prop
  | [] => True
  | tree :: rest =>
      tree.declares binder = false ∧ Admissible binder tree ∧ AdmissibleAll binder rest

end

mutual

/-- The greatest number of `for` directives above one another. -/
def nesting (binder : Binder) : Tree → Nat
  | .text _ => 0
  | .element _ attributes _ children =>
      if (binder.directives attributes.entries).any fun directive => directive.kind = .repeated then
        nestingAll binder children + 1
      else nestingAll binder children

/-- The greatest number of `for` directives above one another in a row of trees. -/
def nestingAll (binder : Binder) : List Tree → Nat
  | [] => 0
  | tree :: rest => max (nesting binder tree) (nestingAll binder rest)

end

end Tree

end LiveMarkup
