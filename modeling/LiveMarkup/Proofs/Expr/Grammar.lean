import LiveMarkup.Expr.Parser

/-!
# What the grammar lets through

Every expression that is read assigns only to names, members and computed members, combines old and
new values only by sums and products, and has its statements at the top.  Each reader yields such
expressions if the reader of whole assignments does that it is built over.
-/

namespace LiveMarkup

namespace Expr

/-- The expressions that an expression is directly made of. -/
def parts : Expr → List Expr
  | literal _ | ident _ => []
  | array items => items
  | object entries => entries.map Prod.snd
  | member holder _ => [holder]
  | index holder position => [holder, position]
  | call callee args => callee :: args
  | unary _ operand => [operand]
  | binary _ left right | logical _ left right => [left, right]
  | conditional test consequent alternate => [test, consequent, alternate]
  | assign _ target value => [target, value]
  | update _ _ target => [target]
  | arrow _ body => [body]
  | sequence statements => statements

/-- Where an expression stands in another one: it is that one itself, or a part of something that
stands in it. -/
inductive Occurs (whole : Expr) : Expr → Prop
  | itself : Occurs whole whole
  | part {outer inner : Expr} (stands : Occurs whole outer) (direct : inner ∈ outer.parts) :
      Occurs whole inner

/-- The operators that assignments may have. -/
def assignOps : List AssignOp := [
  .set, .compound .add, .compound .sub, .compound .mul, .compound .div]

/-- Whether an expression itself, its parts aside, is one that the grammar has below statements. -/
def Fits : Expr → Prop
  | assign op target _ => target.isAssignable = true ∧ op ∈ assignOps
  | update _ _ target => target.isAssignable = true
  | sequence _ => False
  | _ => True

/-- Whether an expression and everything that stands in it fits. -/
inductive Regular : Expr → Prop
  | intro {expr : Expr} (fits : expr.Fits) (parts : ∀ part ∈ expr.parts, Regular part) :
      Regular expr

theorem Regular.fits {expr : Expr} (regular : expr.Regular) : expr.Fits := by
  cases regular with
  | intro fits _ => exact fits

theorem Regular.parts {expr : Expr} (regular : expr.Regular) : ∀ part ∈ expr.parts, part.Regular := by
  cases regular with
  | intro _ parts => exact parts

/-- Whether an expression is a program: an expression without statements, or some statements. -/
inductive Program : Expr → Prop
  /-- An expression. -/
  | expression {expr : Expr} (regular : expr.Regular) : Program expr
  /-- Statements; a single one would be an expression. -/
  | statements {statements : List Expr} (each : ∀ statement ∈ statements, statement.Regular)
      (several : statements.length ≠ 1) : Program (sequence statements)

/-- All that stands below the top of a program is regular. -/
theorem Program.regular_of_part {program outer inner : Expr} (grammatical : program.Program)
    (stands : program.Occurs outer) (direct : inner ∈ outer.parts) : inner.Regular := by
  induction stands generalizing inner with
  | itself =>
      cases grammatical with
      | expression regular => exact regular.parts inner direct
      | statements each _ => exact each inner direct
  | part _ between ih => exact (ih between).parts inner direct

/-- All that stands in a program fits, but for statements at its top. -/
theorem Program.fits_of_occurs {program part : Expr} (grammatical : program.Program)
    (stands : program.Occurs part) : part.Fits ∨ ∃ statements, part = sequence statements := by
  cases stands with
  | itself =>
      cases grammatical with
      | expression regular => exact .inl regular.fits
      | statements _ _ => exact .inr ⟨_, rfl⟩
  | part stands direct => exact .inl (grammatical.regular_of_part stands direct).fits

end Expr

namespace Parser

open LiveMarkup.Expr (Regular Program assignOps)

variable {α β : Type}

/-- Whether everything that a reader yields is good. -/
def Gives (good : α → Prop) (reader : Parser α) : Prop :=
  ∀ tokens result rest, reader tokens = .ok (result, rest) → good result

namespace Gives

variable {good : β → Prop} {between : α → Prop}

theorem anything (reader : Parser α) : Gives (fun _ => True) reader := fun _ _ _ _ => trivial

theorem pure {b : β} (holds : good b) : Gives good (Pure.pure b) := by
  intro tokens result rest read
  cases read
  exact holds

theorem throw (fault : EvalFault) : Gives good (throw fault) := by
  intro tokens result rest read
  contradiction

theorem bind {reader : Parser α} {later : α → Parser β} (first : Gives between reader)
    (second : ∀ a, between a → Gives good (later a)) : Gives good (reader >>= later) := by
  intro tokens result rest read
  change ((reader tokens).bind fun read => later read.1 read.2) = _ at read
  cases given : reader tokens with
  | error fault =>
      rw [given] at read
      contradiction
  | ok taken =>
      rw [given] at read
      exact second taken.1 (first _ _ _ given) _ _ _ read

/-- A reader behind one of which nothing has to be known. -/
theorem behind {reader : Parser α} {later : α → Parser β} (second : ∀ a, Gives good (later a)) :
    Gives good (reader >>= later) :=
  (anything reader).bind fun a _ => second a

end Gives

/-! ## Lists -/

theorem gives_listItems {good : α → Prop} {item : Parser α} (each : Gives good item) (close : Punct)
    (fuel : Nat) : Gives (fun items => ∀ a ∈ items, good a) (listItems close item fuel) := by
  induction fuel with
  | zero => exact .throw _
  | succ fuel ih =>
      refine .behind fun closed => ?_
      split
      · exact .pure fun _ member => nomatch member
      · refine each.bind fun first here => ?_
        refine .behind fun more => ?_
        split
        · exact ih.bind fun rest later => .pure (List.forall_mem_cons.mpr ⟨here, later⟩)
        · exact .behind fun _ => .pure (List.forall_mem_singleton.mpr here)

theorem gives_list {good : α → Prop} {item : Parser α} (each : Gives good item) (close : Punct) :
    Gives (fun items => ∀ a ∈ items, good a) (list close item) :=
  .behind fun _ => gives_listItems each close _

/-! ## Levels over a reader of whole assignments -/

theorem regular_named (name : String) : (named name).Regular := by
  unfold named
  repeat' split
  all_goals exact .intro trivial fun _ member => nomatch member

section Levels

variable {whole : Parser Expr} (each : Gives Regular whole)

include each

theorem gives_property : Gives (fun entry => entry.2.Regular) (property whole) := by
  refine .behind fun lexeme => ?_
  split
  · exact .throw _
  · refine .behind fun colon => ?_
    split
    · exact each.bind fun value regular => .pure regular
    · exact .pure (.intro trivial fun _ member => nomatch member)
  · exact .behind fun _ => each.bind fun value regular => .pure regular
  · exact .behind fun _ => each.bind fun value regular => .pure regular
  · exact .throw _

theorem gives_primary : Gives Regular (primary whole) := by
  refine .behind fun lexeme => ?_
  split
  · exact .throw _
  · exact .pure (.intro trivial fun _ member => nomatch member)
  · exact .pure (.intro trivial fun _ member => nomatch member)
  · exact .pure (regular_named _)
  · exact each.bind fun inner regular => .behind fun _ => .pure regular
  · exact (gives_list each _).bind fun items regular => .pure (.intro trivial regular)
  · refine (gives_list (gives_property each) _).bind fun entries regular => ?_
    exact .pure (.intro trivial (List.forall_mem_map.mpr regular))
  · exact .throw _

theorem gives_accesses (fuel : Nat) : ∀ base : Expr, base.Regular →
    Gives Regular (accesses whole fuel base) := by
  induction fuel with
  | zero => exact fun base regular => .pure regular
  | succ fuel ih =>
      intro base regular tokens result rest read
      simp only [accesses] at read
      split at read
      · refine Gives.behind (fun name => ?_) _ _ _ read
        exact ih _ (.intro trivial (List.forall_mem_singleton.mpr regular))
      · refine each.bind (fun position inside => .behind fun _ => ?_) _ _ _ read
        exact ih _ (.intro trivial (List.forall_mem_cons.mpr
          ⟨regular, List.forall_mem_singleton.mpr inside⟩))
      · refine (gives_list each _).bind (fun args inside => ?_) _ _ _ read
        exact ih _ (.intro trivial (List.forall_mem_cons.mpr ⟨regular, inside⟩))
      · cases read
        exact regular

theorem gives_callOrMember : Gives Regular (callOrMember whole) :=
  (gives_primary each).bind fun base regular => .behind fun _ => gives_accesses each _ base regular

omit each in
theorem gives_update (step : Step) (before : Bool) {target : Expr} (regular : target.Regular) :
    Gives Regular (update step before target) := by
  unfold update
  split
  next assignable => exact .pure (.intro assignable (List.forall_mem_singleton.mpr regular))
  next => exact .throw _

theorem gives_postfixUpdate : Gives Regular (postfixUpdate whole) := by
  refine (gives_callOrMember each).bind fun base regular => .behind fun next => ?_
  split
  · exact .behind fun _ => gives_update _ _ regular
  · exact .behind fun _ => gives_update _ _ regular
  · exact .pure regular

theorem gives_unary (fuel : Nat) : Gives Regular (unary whole fuel) := by
  induction fuel with
  | zero => exact gives_postfixUpdate each
  | succ fuel ih =>
      have operator (op : UnaryOp) :
          Gives Regular (do advance; return .unary op (← unary whole fuel)) :=
        .behind fun _ => ih.bind fun operand regular =>
          .pure (.intro trivial (List.forall_mem_singleton.mpr regular))
      have updates (step : Step) :
          Gives Regular (do advance; update step true (← unary whole fuel)) :=
        .behind fun _ => ih.bind fun target regular => gives_update step true regular
      refine .behind fun next => ?_
      split
      · exact operator .not
      · exact operator .neg
      · exact operator .plus
      · exact updates .up
      · exact updates .down
      · exact gives_postfixUpdate each

theorem gives_operand : Gives Regular (operand whole) := .behind fun _ => gives_unary each _

end Levels

/-! ## Operators between operands -/

/-- Whether joining two expressions by an operator keeps them regular. -/
def JoinsRegular (op? : Punct → Option (Expr → Expr → Expr)) : Prop :=
  ∀ p join, op? p = some join → ∀ left right : Expr, left.Regular → right.Regular →
    (join left right).Regular

theorem regular_pair {left right whole : Expr} (fits : whole.Fits) (parts : whole.parts = [left, right])
    (first : left.Regular) (second : right.Regular) : whole.Regular := by
  refine .intro fits ?_
  rw [parts]
  exact List.forall_mem_cons.mpr ⟨first, List.forall_mem_singleton.mpr second⟩

/-- The operators of all levels do. -/
theorem joinsRegular_levels :
    JoinsRegular productOp? ∧ JoinsRegular sumOp? ∧ JoinsRegular orderOp? ∧
      JoinsRegular equalityOp? ∧ JoinsRegular andOp? ∧ JoinsRegular orOp? := by
  refine ⟨?_, ?_, ?_, ?_, ?_, ?_⟩
  all_goals
    intro p join found left right
    cases p <;> cases found <;> exact regular_pair trivial rfl

theorem gives_chain {level : Parser Expr} (each : Gives Regular level)
    {op? : Punct → Option (Expr → Expr → Expr)} (joins : JoinsRegular op?) (fuel : Nat) :
    ∀ left : Expr, left.Regular → Gives Regular (chain level op? fuel left) := by
  induction fuel with
  | zero => exact fun left regular => .pure regular
  | succ fuel ih =>
      intro left regular
      refine .behind fun next => ?_
      split
      next join found =>
        obtain ⟨p, _, found⟩ := Option.bind_eq_some_iff.mp found
        refine .behind fun _ => each.bind fun right inside => ?_
        exact ih _ (joins p join found left right regular inside)
      next => exact .pure regular

theorem gives_leftAssociative {level : Parser Expr} (each : Gives Regular level)
    {op? : Punct → Option (Expr → Expr → Expr)} (joins : JoinsRegular op?) :
    Gives Regular (leftAssociative level op?) :=
  each.bind fun left regular => .behind fun _ => gives_chain each joins _ left regular

theorem gives_disjunction {whole : Parser Expr} (each : Gives Regular whole) :
    Gives Regular (disjunction whole) := by
  obtain ⟨product, sum, order, equality, and, or⟩ := joinsRegular_levels
  have products := gives_leftAssociative (gives_operand each) product
  have sums := gives_leftAssociative products sum
  have orders := gives_leftAssociative sums order
  have equalities := gives_leftAssociative orders equality
  have conjunctions := gives_leftAssociative equalities and
  exact gives_leftAssociative conjunctions or

theorem gives_conditional {whole : Parser Expr} (each : Gives Regular whole) :
    Gives Regular (conditional whole) := by
  refine (gives_disjunction each).bind fun test first => .behind fun asks => ?_
  split
  · refine each.bind fun consequent second => .behind fun _ => ?_
    refine each.bind fun alternate third => .pure (.intro trivial ?_)
    exact List.forall_mem_cons.mpr
      ⟨first, List.forall_mem_cons.mpr ⟨second, List.forall_mem_singleton.mpr third⟩⟩
  · exact .pure first

/-! ## Assignments and statements -/

theorem mem_assignOps {p : Punct} {op : AssignOp} (found : assignOp? p = some op) :
    op ∈ assignOps := by
  cases p <;> cases found <;> decide

/-- Whole assignments are regular, however deep they nest. -/
theorem gives_assignment (depth : Nat) : Gives Regular (assignment depth) := by
  induction depth with
  | zero => exact .throw _
  | succ depth ih =>
      refine .behind fun head => ?_
      split
      · exact ih.bind fun body regular =>
          .pure (.intro trivial (List.forall_mem_singleton.mpr regular))
      · refine (gives_conditional ih).bind fun target first => .behind fun next => ?_
        split
        · exact .pure first
        next op found =>
          obtain ⟨p, _, found⟩ := Option.bind_eq_some_iff.mp found
          split
          next assignable =>
            refine .behind fun _ => ih.bind fun value second => .pure ?_
            exact regular_pair ⟨assignable, mem_assignOps found⟩ rfl first second
          next => exact .throw _

theorem gives_statements {statement : Parser Expr} (each : Gives Regular statement) (fuel : Nat) :
    Gives (fun list => ∀ one ∈ list, one.Regular) (statements statement fuel) := by
  induction fuel with
  | zero => exact .pure fun _ member => nomatch member
  | succ fuel ih =>
      refine .behind fun count => ?_
      split
      · exact .pure fun _ member => nomatch member
      · refine .behind fun skipped => ?_
        split
        · exact ih
        · refine each.bind fun first here => .behind fun count => ?_
          split
          · exact .pure (List.forall_mem_singleton.mpr here)
          · refine .behind fun _ => ih.bind fun rest later => ?_
            exact .pure (List.forall_mem_cons.mpr ⟨here, later⟩)

theorem program_joinStatements {list : List Expr} (each : ∀ one ∈ list, one.Regular) :
    (joinStatements list).Program := by
  unfold joinStatements
  split
  next only => exact .expression (List.forall_mem_singleton.mp each)
  next several =>
    refine .statements each fun one => ?_
    obtain ⟨only, rfl⟩ := List.length_eq_one_iff.mp one
    exact several only rfl

theorem gives_program : Gives Program program :=
  .behind fun _ => (gives_statements (gives_assignment _) _).bind fun _ each =>
    .pure (program_joinStatements each)

end Parser

/-- Every text that is accepted stands for a program. -/
theorem Expr.program_of_parse {source : String} {expr : Expr} (parsed : parse source = .ok expr) :
    expr.Program := by
  rw [parse] at parsed
  cases tokens : Lexeme.ofText source.toList with
  | error fault =>
      rw [tokens] at parsed
      contradiction
  | ok lexemes =>
      rw [tokens] at parsed
      change (Parser.program lexemes).map Prod.fst = .ok expr at parsed
      cases read : Parser.program lexemes with
      | error fault =>
          rw [read] at parsed
          contradiction
      | ok result =>
          rw [read] at parsed
          cases parsed
          exact Parser.gives_program _ _ _ read

end LiveMarkup
