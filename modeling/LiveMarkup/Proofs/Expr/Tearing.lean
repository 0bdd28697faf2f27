import LiveMarkup.Proofs.Expr.Recognition

/-!
# What a cut tears apart

A row of tokens may be cut anywhere, but in two places the front part is not the beginning of any
expression that is read without looking ahead: right behind a dot, and inside the parentheses of an
arrow function with no parameter or with several.  Whether a cut tears something is seen on the
parts of a row: where a phrase ends or a token stands alone, no head of an arrow function goes
across.
-/

namespace LiveMarkup

open LiveMarkup.Parser (commas headPunct)

namespace Expr

variable {params : List String} {row first second cut more inner : List Token}

/-- Whether a cut between two rows tears apart what cannot be read as anything else: a dot from the
name behind it, or the head of an arrow function that has not exactly one parameter, behind a comma
or the closing parenthesis and in front of the arrow. -/
def Torn (cut more : List Token) : Prop :=
  cut.getLast? = some (.punct .dot) ∨
    ∃ params head tail, params.length ≠ 1 ∧ Head params (head ++ tail) ∧ head <:+ cut ∧
      tail <+: more ∧ tail ≠ [] ∧ (.punct .comma ∈ head ∨ .punct .rightParen ∈ head)

/-! ## Parts of a head -/

/-- What stands between the parentheses of a head is neither a parenthesis nor an arrow. -/
theorem mem_commas {token : Token}
    (member : token ∈ commas (params.map fun param => [.ident param])) :
    token = .punct .comma ∨ ∃ name, token = .ident name := by
  induction params with
  | nil => cases member
  | cons param params ih =>
      cases params with
      | nil => exact .inr ⟨param, List.mem_singleton.mp (by simpa using member)⟩
      | cons next params =>
          rw [List.map_cons, List.map_cons, commas, Parser.separated_cons_cons] at member
          rcases List.mem_cons.mp member with rfl | member
          · exact .inr ⟨param, rfl⟩
          rcases List.mem_cons.mp member with rfl | later
          · exact .inl rfl
          · exact ih later

theorem Head.behind_paren (written : Head params (.punct .leftParen :: row)) :
    row =
      commas (params.map fun param => [.ident param]) ++ [.punct .rightParen, .punct .arrow] := by
  cases written
  rfl

/-- A head ends with its arrow. -/
theorem Head.ends (written : Head params row) : ∃ front, row = front ++ [.punct .arrow] := by
  cases written with
  | single param => exact ⟨[.ident param], rfl⟩
  | several params =>
      exact ⟨.punct .leftParen :: (commas (params.map fun param => [.ident param]) ++
        [.punct .rightParen]), by simp⟩

theorem Head.dot_notMem (written : Head params row) : .punct .dot ∉ row := by
  cases written with
  | single param => simp
  | several params =>
      have names : .punct .dot ∉ commas (params.map fun param => [.ident param]) := by
        intro member
        rcases mem_commas member with same | ⟨name, same⟩ <;> cases same
      simp [names]

/-- A head that is cut into two parts is cut in front of its arrow or between its parentheses. -/
theorem Head.parts {r s : List Token} (written : Head params (r ++ s)) (several : params.length ≠ 1)
    (front : r ≠ []) (back : s ≠ []) :
    ∃ before, r = .punct .leftParen :: before ∧ .punct .leftParen ∉ before ∧
      .punct .arrow ∉ before ∧
      ((s = [.punct .arrow] ∧ .punct .rightParen ∈ before) ∨
        ∃ after, s = after ++ [.punct .rightParen, .punct .arrow] ∧ .punct .leftParen ∉ after ∧
          .punct .rightParen ∉ before) := by
  generalize same : r ++ s = row at written
  cases written with
  | single param => exact absurd rfl several
  | several params =>
      obtain ⟨first, before, rfl⟩ := List.exists_cons_of_ne_nil front
      obtain ⟨rfl, rest⟩ := List.cons.inj same
      have names {token : Token}
          (member : token ∈ commas (params.map fun param => [.ident param])) :
          token ≠ .punct .leftParen ∧ token ≠ .punct .rightParen ∧ token ≠ .punct .arrow := by
        rcases mem_commas member with rfl | ⟨name, rfl⟩ <;> simp
      refine ⟨before, rfl, ?_⟩
      rcases List.append_eq_append_iff.mp rest with ⟨after, split, rfl⟩ | ⟨ending, rfl, split⟩
      · rw [split] at names
        refine ⟨?_, ?_, .inr ⟨after, rfl, ?_, ?_⟩⟩
        · exact fun member => (names (List.mem_append_left after member)).1 rfl
        · exact fun member => (names (List.mem_append_left after member)).2.2 rfl
        · exact fun member => (names (List.mem_append_right before member)).1 rfl
        · exact fun member => (names (List.mem_append_left after member)).2.1 rfl
      · match ending with
        | [] =>
            obtain rfl : [.punct .rightParen, .punct .arrow] = s := split
            rw [List.append_nil]
            refine ⟨fun member => (names member).1 rfl, fun member => (names member).2.2 rfl,
              .inr ⟨[], rfl, List.not_mem_nil, fun member => (names member).2.1 rfl⟩⟩
        | [last] =>
            obtain ⟨rfl, rfl⟩ := List.cons.inj split
            refine ⟨fun member => ?_, fun member => ?_, .inl ⟨rfl, by simp⟩⟩
            · rcases List.mem_append.mp member with inside | last
              · exact (names inside).1 rfl
              · simp at last
            · rcases List.mem_append.mp member with inside | last
              · exact (names inside).2.2 rfl
              · simp at last
        | first :: second :: ending =>
            obtain ⟨-, split⟩ := List.cons.inj split
            obtain ⟨-, split⟩ := List.cons.inj split
            exact absurd (List.append_eq_nil_iff.mp split.symm).2 back

/-! ## Balanced rows -/

/-- Rows in which every parenthesis has its counterpart. -/
inductive Balanced : List Token → Prop
  /-- Nothing. -/
  | nil : Balanced []
  /-- A token that is no parenthesis. -/
  | token {token : Token} {rest : List Token} (opens : token ≠ .punct .leftParen)
      (closes : token ≠ .punct .rightParen) (behind : Balanced rest) : Balanced (token :: rest)
  /-- Something in parentheses. -/
  | parens {inner rest : List Token} (inside : Balanced inner) (behind : Balanced rest) :
      Balanced (.punct .leftParen :: (inner ++ .punct .rightParen :: rest))

theorem Balanced.append (before : Balanced first) (behind : Balanced second) :
    Balanced (first ++ second) := by
  induction before with
  | nil => exact behind
  | token opens closes _ ih => exact .token opens closes ih
  | parens inside _ _ ih =>
      rw [List.cons_append, List.append_assoc]
      exact .parens inside ih

theorem suffix_of_append {s : List Token} (ends : s <:+ first ++ second) :
    s <:+ second ∨ ∃ r, s = r ++ second ∧ r <:+ first := by
  obtain ⟨front, same⟩ := ends
  rcases List.append_eq_append_iff.mp same with ⟨r, rfl, rfl⟩ | ⟨between, rfl, rfl⟩
  · exact .inr ⟨r, rfl, List.suffix_append _ _⟩
  · exact .inl (List.suffix_append _ _)

theorem prefix_of_append {p : List Token} (begins : p <+: first ++ second) :
    p <+: first ∨ ∃ r, p = first ++ r ∧ r <+: second := by
  obtain ⟨rest, same⟩ := begins
  rcases List.append_eq_append_iff.mp same with ⟨between, rfl, rfl⟩ | ⟨r, rfl, rfl⟩
  · exact .inl (List.prefix_append _ _)
  · exact .inr ⟨r, rfl, List.prefix_append _ _⟩

/-- How many parentheses a row opens beyond those that it closes. -/
def surplus (row : List Token) : Int :=
  row.count (.punct .leftParen) - row.count (.punct .rightParen)

@[simp]
theorem surplus_nil : surplus [] = 0 := rfl

@[simp]
theorem surplus_open : surplus (.punct .leftParen :: row) = surplus row + 1 := by
  rw [surplus, surplus, List.count_cons_self, List.count_cons_of_ne (by simp)]
  omega

@[simp]
theorem surplus_close : surplus (.punct .rightParen :: row) = surplus row - 1 := by
  rw [surplus, surplus, List.count_cons_self, List.count_cons_of_ne (by simp)]
  omega

theorem surplus_other {token : Token} (opens : token ≠ .punct .leftParen)
    (closes : token ≠ .punct .rightParen) : surplus (token :: row) = surplus row := by
  rw [surplus, surplus, List.count_cons_of_ne opens, List.count_cons_of_ne closes]

@[simp]
theorem surplus_append : surplus (first ++ second) = surplus first + surplus second := by
  rw [surplus, surplus, surplus, List.count_append, List.count_append]
  omega

/-- The end of a balanced row closes what it opens. -/
theorem Balanced.surplus_suffix (balanced : Balanced row) {s : List Token} (ends : s <:+ row) :
    surplus s ≤ 0 := by
  induction balanced generalizing s with
  | nil => simp [List.suffix_nil.mp ends]
  | token opens closes _ ih =>
      rcases List.suffix_cons_iff.mp ends with rfl | later
      · rw [surplus_other opens closes]
        exact ih List.suffix_rfl
      · exact ih later
  | @parens inner rest _ _ ihInside ihBehind =>
      have inside : surplus inner ≤ 0 := ihInside List.suffix_rfl
      have behind : surplus rest ≤ 0 := ihBehind List.suffix_rfl
      rcases List.suffix_cons_iff.mp ends with rfl | later
      · rw [surplus_open, surplus_append, surplus_close]
        omega
      rcases suffix_of_append later with later | ⟨r, rfl, tail⟩
      · rcases List.suffix_cons_iff.mp later with rfl | later
        · rw [surplus_close]
          omega
        · exact ihBehind later
      · have part := ihInside tail
        rw [surplus_append, surplus_close]
        omega

/-- The beginning of a balanced row opens what it closes. -/
theorem Balanced.surplus_prefix (balanced : Balanced row) {p : List Token} (begins : p <+: row) :
    0 ≤ surplus p := by
  induction balanced generalizing p with
  | nil => simp [List.prefix_nil.mp begins]
  | token opens closes _ ih =>
      rcases List.prefix_cons_iff.mp begins with rfl | ⟨tail, rfl, later⟩
      · simp
      · rw [surplus_other opens closes]
        exact ih later
  | @parens inner rest _ _ ihInside ihBehind =>
      rcases List.prefix_cons_iff.mp begins with rfl | ⟨tail, rfl, later⟩
      · simp
      rcases prefix_of_append later with part | ⟨between, rfl, part⟩
      · have front := ihInside part
        rw [surplus_open]
        omega
      · have inside : 0 ≤ surplus inner := ihInside List.prefix_rfl
        rcases List.prefix_cons_iff.mp part with rfl | ⟨front, rfl, last⟩
        · rw [List.append_nil, surplus_open]
          omega
        · have front := ihBehind last
          rw [surplus_open, surplus_append, surplus_close]
          omega

/-- A row with one closing parenthesis and no opening one is short of one. -/
theorem surplus_neg (opens : .punct .leftParen ∉ row) (closes : .punct .rightParen ∈ row) :
    surplus row < 0 := by
  have some := List.count_pos_iff.mpr closes
  rw [surplus, List.count_eq_zero_of_not_mem opens]
  omega

/-- A row with one opening parenthesis and no closing one has one too many. -/
theorem surplus_pos (opens : .punct .leftParen ∈ row) (closes : .punct .rightParen ∉ row) :
    0 < surplus row := by
  have some := List.count_pos_iff.mpr opens
  rw [surplus, List.count_eq_zero_of_not_mem closes]
  omega

/-! ## Where nothing goes across -/

/-- Whether a cut between two rows tears nothing, whatever stands around them: the first does not
end with a dot, and no head of an arrow function goes from one into the other, but for a single
parameter in parentheses. -/
structure Apart (first second : List Token) : Prop where
  /-- There is no name missing behind a dot. -/
  dot : first.getLast? ≠ some (.punct .dot)
  /-- No head goes across. -/
  head : ∀ params r s, params.length ≠ 1 → Head params (r ++ s) → r ≠ [] → s ≠ [] → r <:+ first →
    ¬s <+: second

/-- Behind a balanced row only the arrow of a head could be. -/
theorem Balanced.apart (balanced : Balanced first) (dot : first.getLast? ≠ some (.punct .dot))
    (ends : headPunct second ≠ some .arrow) : Apart first second := by
  refine ⟨dot, fun params r s several written front back suffix begins => ?_⟩
  obtain ⟨before, rfl, -, -, ⟨rfl, -⟩ | ⟨after, rfl, -, unclosed⟩⟩ :=
    written.parts several front back
  · obtain ⟨rest, rfl⟩ := begins
    exact ends rfl
  · have closed := balanced.surplus_suffix suffix
    have opened := surplus_pos List.mem_cons_self (by simpa using unclosed)
    omega

/-- A token that opens no parentheses begins no head of that kind. -/
theorem apart_token {token : Token} (opens : token ≠ .punct .leftParen)
    (dot : token ≠ .punct .dot) (second : List Token) : Apart [token] second := by
  refine ⟨by simpa using dot, fun params r s several written front back suffix begins => ?_⟩
  obtain ⟨before, rfl, -⟩ := written.parts several front back
  rcases List.suffix_cons_iff.mp suffix with same | none
  · exact opens (List.cons.inj same).1.symm
  · cases List.suffix_nil.mp none

/-- Parentheses around a balanced row are no head while no arrow is behind them. -/
theorem apart_parens (balanced : Balanced inner) :
    Apart [.punct .leftParen] (inner ++ [.punct .rightParen]) := by
  refine ⟨by simp, fun params r s several written front back suffix begins => ?_⟩
  obtain ⟨before, rfl, -, -, ending⟩ := written.parts several front back
  obtain rfl : before = [] := by
    rcases List.suffix_cons_iff.mp suffix with same | none
    · exact (List.cons.inj same).2
    · cases List.suffix_nil.mp none
  rcases ending with ⟨-, closed⟩ | ⟨after, rfl, opens, -⟩
  · cases closed
  rcases List.prefix_concat_iff.mp begins with same | within
  · have last := congrArg List.getLast? same
    simp at last
  · have opened := balanced.surplus_prefix within
    have closed : surplus (after ++ [.punct .rightParen, .punct .arrow]) < 0 :=
      surplus_neg (by simpa using opens) (by simp)
    omega

/-- Nothing goes across the end of a head. -/
theorem Head.apart (written : Head params first) (second : List Token) : Apart first second := by
  obtain ⟨front, rfl⟩ := written.ends
  refine ⟨by simp, fun others r s several written filled back suffix begins => ?_⟩
  obtain ⟨before, rfl, -, arrow, -⟩ := written.parts several filled back
  rcases List.suffix_concat_iff.mp suffix with none | ⟨rest, same, -⟩
  · cases none
  · have last : .punct .arrow ∈ .punct .leftParen :: before := by simp [same]
    exact arrow ((List.mem_cons.mp last).resolve_left (by simp))

/-! ## Parts of rows -/

theorem not_torn_nil (more : List Token) : ¬Torn [] more := by
  rintro (dot | ⟨params, head, tail, -, -, ends, -, -, inside⟩)
  · cases dot
  · rw [List.suffix_nil.mp ends] at inside
    simp at inside

/-- What has no dot and nothing from the inside of a head of that kind is not torn. -/
theorem not_torn_of_plain (dot : .punct .dot ∉ cut) (comma : .punct .comma ∉ cut)
    (closes : .punct .rightParen ∉ cut) : ¬Torn cut more := by
  rintro (last | ⟨params, head, tail, -, -, ends, -, -, inside | inside⟩)
  · exact dot (List.mem_of_getLast? last)
  · exact comma (ends.subset inside)
  · exact closes (ends.subset inside)

/-- Without an arrow behind the cut there is no head that could be torn. -/
theorem not_torn_of_noArrow (dot : cut.getLast? ≠ some (.punct .dot))
    (arrow : .punct .arrow ∉ more) : ¬Torn cut more := by
  rintro (last | ⟨params, head, tail, -, written, -, begins, filled, -⟩)
  · exact dot last
  · obtain ⟨front, ends⟩ := written.ends
    have last := congrArg List.getLast? ends
    rw [List.getLast?_append_of_ne_nil _ filled, List.getLast?_concat] at last
    exact arrow (begins.subset (List.mem_of_getLast? last))

/-- A head that has not one parameter tears when it is cut behind a comma or its closing
parenthesis. -/
theorem Head.torn_iff {rest : List Token} (several : params.length ≠ 1)
    (written : Head params (.punct .leftParen :: rest ++ more)) (proper : more ≠ []) :
    Torn (.punct .leftParen :: rest) more ↔ .punct .comma ∈ rest ∨ .punct .rightParen ∈ rest := by
  constructor
  · intro torn
    by_contra plain
    rw [not_or] at plain
    refine not_torn_of_plain ?_ (by simpa using plain.1) (by simpa using plain.2) torn
    exact fun dot => written.dot_notMem (List.mem_append_left more dot)
  · intro inside
    exact .inr ⟨params, _, more, several, written, List.suffix_rfl, List.prefix_rfl, proper,
      inside.imp (List.mem_cons_of_mem _) (List.mem_cons_of_mem _)⟩

/-- What is torn in the first of two rows is torn in it alone. -/
theorem torn_within (apart : Apart (cut ++ more) second) (proper : more ≠ []) :
    Torn cut (more ++ second) ↔ Torn cut more := by
  refine or_congr_right ⟨?_, ?_⟩
  · rintro ⟨params, head, tail, several, written, ends, begins, filled, inside⟩
    refine ⟨params, head, tail, several, written, ends, ?_, filled, inside⟩
    rcases prefix_of_append begins with within | ⟨s, rfl, across⟩
    · exact within
    by_cases empty : s = []
    · simp [empty]
    · -- the head would go on behind the first row
      obtain ⟨before, rfl⟩ := ends
      rw [← List.append_assoc] at written
      refine absurd across (apart.head params _ s several written ?_ empty ?_)
      · simp [proper]
      · rw [List.append_assoc]
        exact List.suffix_append _ _
  · rintro ⟨params, head, tail, several, written, ends, begins, filled, inside⟩
    exact ⟨params, head, tail, several, written, ends,
      begins.trans (List.prefix_append more second), filled, inside⟩

/-- What is torn behind the first of two rows is torn in the second alone. -/
theorem torn_behind (apart : Apart first (cut ++ more)) :
    Torn (first ++ cut) more ↔ Torn cut more := by
  constructor
  · rintro (dot | ⟨params, head, tail, several, written, ends, begins, filled, inside⟩)
    · rcases List.eq_nil_or_concat cut with rfl | ⟨front, last, rfl⟩
      · rw [List.append_nil] at dot
        exact absurd dot apart.dot
      · left
        simpa using dot
    · rcases suffix_of_append ends with within | ⟨r, rfl, across⟩
      · exact .inr ⟨params, head, tail, several, written, within, begins, filled, inside⟩
      by_cases empty : r = []
      · subst empty
        exact .inr ⟨params, cut, tail, several, written, List.suffix_rfl, begins, filled, inside⟩
      · -- the head would begin in the first row
        rw [List.append_assoc] at written
        refine absurd ?_ (apart.head params r (cut ++ tail) several written empty ?_ across)
        · exact (List.prefix_append_right_inj cut).mpr begins
        · simp [filled]
  · rintro (dot | ⟨params, head, tail, several, written, ends, begins, filled, inside⟩)
    · left
      simp [List.getLast?_append, dot]
    · exact .inr ⟨params, head, tail, several, written,
        ends.trans (List.suffix_append first cut), begins, filled, inside⟩

/-! ## Phrases -/

/-- An operator that continues an expression and is no call is neither a parenthesis nor a dot. -/
theorem ne_of_binds {p : Punct} {level : Nat} (binds : Parser.binds p = some (level + 1)) :
    p ≠ .leftParen ∧ p ≠ .rightParen ∧ p ≠ .dot := by
  refine ⟨?_, ?_, ?_⟩ <;> rintro rfl <;> cases binds

theorem Balanced.operator {p : Punct} {level : Nat} (binds : Parser.binds p = some (level + 1))
    (behind : Balanced second) : Balanced (.punct p :: second) := by
  obtain ⟨opens, closes, -⟩ := ne_of_binds binds
  exact .token (by simpa using opens) (by simpa using closes) behind

theorem apart_operator {p : Punct} {level : Nat} (binds : Parser.binds p = some (level + 1))
    (second : List Token) : Apart [.punct p] second := by
  obtain ⟨opens, -, dot⟩ := ne_of_binds binds
  exact apart_token (by simpa using opens) (by simpa using dot) second

/-- A key is neither a parenthesis nor a dot. -/
theorem ne_of_key {token : Token} {key : String} (keys : token.key? = some key) :
    token ≠ .punct .leftParen ∧ token ≠ .punct .rightParen ∧ token ≠ .punct .dot := by
  refine ⟨?_, ?_, ?_⟩ <;> rintro rfl <;> cases keys

theorem binds_step (step : Step) : Parser.binds step.punct = some 1 := by cases step <;> rfl

theorem Listed.balanced {α : Type} {items : List (Parser.Item α)} (listed : Listed items row)
    (each : ∀ item ∈ items, Balanced item.2) : Balanced row := by
  induction listed with
  | nil => exact .nil
  | last item => exact each item List.mem_cons_self
  | cons item others ih =>
      obtain ⟨here, later⟩ := List.forall_mem_cons.mp each
      exact here.append (.token (by simp) (by simp) (ih later))

theorem Head.balanced (written : Head params row) : Balanced row := by
  cases written with
  | single param => exact .token (by simp) (by simp) (.token (by simp) (by simp) .nil)
  | several params =>
      have names : ∀ names : List Token, (∀ token ∈ names, token ≠ .punct .leftParen ∧
          token ≠ .punct .rightParen) → Balanced names := by
        intro names plain
        induction names with
        | nil => exact .nil
        | cons token names ih =>
            obtain ⟨here, later⟩ := List.forall_mem_cons.mp plain
            exact .token here.1 here.2 (ih later)
      refine .parens (names _ fun token member => ?_) (.token (by simp) (by simp) .nil)
      rcases mem_commas member with rfl | ⟨name, rfl⟩ <;> simp

variable {level : Nat} {expr : Expr}

/-- The parentheses of a phrase are balanced. -/
theorem Phrase.balanced (phrase : Phrase level expr row) : Balanced row := by
  induction phrase with
  | number level value => exact .token (by simp) (by simp) .nil
  | string level text => exact .token (by simp) (by simp) .nil
  | name level name => exact .token (by simp) (by simp) .nil
  | parens level inner ih => exact .parens ih .nil
  | array level listed each ih =>
      exact .token (by simp) (by simp)
        ((listed.balanced ih).append (.token (by simp) (by simp) .nil))
  | object level listed each ih =>
      refine .token (by simp) (by simp) (Balanced.append ?_ (.token (by simp) (by simp) .nil))
      refine listed.balanced (List.forall_mem_map.mpr fun field member => ?_)
      cases field with
      | alone name => exact .token (by simp) (by simp) .nil
      | keyed token key keys value row =>
          obtain ⟨opens, closes, -⟩ := ne_of_key keys
          have value := ih token key keys value row member
          exact .token opens closes (.token (by simp) (by simp) value)
  | member level inner property ih =>
      exact ih.append (.token (by simp) (by simp) (.token (by simp) (by simp) .nil))
  | index level inner at_ ih ihAt =>
      exact ih.append (.token (by simp) (by simp)
        (ihAt.append (.token (by simp) (by simp) .nil)))
  | call level inner listed each ih ihEach =>
      exact ih.append (.parens (listed.balanced ihEach) .nil)
  | updateAfter loose step assignable inner ih =>
      exact ih.append (.operator (binds_step step) .nil)
  | updateBefore loose step assignable inner ih => exact .operator (binds_step step) ih
  | unary loose op inner ih =>
      exact .token (by cases op <;> simp [UnaryOp.punct]) (by cases op <;> simp [UnaryOp.punct]) ih
  | join found loose leftPhrase rightPhrase ih ihRight =>
      exact ih.append (.operator (Parser.binds_of_joins? found) ihRight)
  | conditional testPhrase consequentPhrase alternatePhrase ih ihThen ihElse =>
      exact ih.append (.token (by simp) (by simp)
        (ihThen.append (.token (by simp) (by simp) ihElse)))
  | assign found assignable targetPhrase valuePhrase ih ihValue =>
      exact ih.append (.operator (Parser.binds_of_assignOp? found) ihValue)
  | arrow written valid phrase ih => exact written.balanced.append ih

/-- Whether a row ends with a token that is no dot. -/
def EndsPlain (row : List Token) : Prop := ∃ token ∈ row.getLast?, token ≠ .punct .dot

theorem endsPlain_concat (row : List Token) {token : Token} (other : token ≠ .punct .dot) :
    EndsPlain (row ++ [token]) := ⟨token, by simp, other⟩

theorem EndsPlain.behind (ends : EndsPlain second) (first : List Token) :
    EndsPlain (first ++ second) := by
  obtain ⟨token, last, other⟩ := ends
  exact ⟨token, by simp [List.getLast?_append, Option.mem_def.mp last], other⟩

theorem EndsPlain.ne_dot (ends : EndsPlain row) : row.getLast? ≠ some (.punct .dot) := by
  obtain ⟨token, last, other⟩ := ends
  rw [Option.mem_def.mp last]
  simpa using other

/-- A phrase does not end with a dot. -/
theorem Phrase.endsPlain (phrase : Phrase level expr row) : EndsPlain row := by
  induction phrase with
  | number level value => exact endsPlain_concat [] (by simp)
  | string level text => exact endsPlain_concat [] (by simp)
  | name level name => exact endsPlain_concat [] (by simp)
  | parens level inner ih => exact endsPlain_concat (_ :: _) (by simp)
  | array level listed each ih => exact endsPlain_concat (_ :: _) (by simp)
  | object level listed each ih => exact endsPlain_concat (_ :: _) (by simp)
  | member level inner property ih =>
      exact (endsPlain_concat [.punct .dot] (by simp)).behind _
  | index level inner at_ ih ihAt => exact (endsPlain_concat (_ :: _) (by simp)).behind _
  | call level inner listed each ih ihEach => exact (endsPlain_concat (_ :: _) (by simp)).behind _
  | updateAfter loose step assignable inner ih =>
      exact endsPlain_concat _ (by cases step <;> simp [Step.punct])
  | updateBefore loose step assignable inner ih => exact ih.behind [_]
  | unary loose op inner ih => exact ih.behind [_]
  | join found loose leftPhrase rightPhrase ih ihRight => exact (ihRight.behind [_]).behind _
  | conditional testPhrase consequentPhrase alternatePhrase ih ihThen ihElse =>
      exact (((ihElse.behind [_]).behind _).behind [_]).behind _
  | assign found assignable targetPhrase valuePhrase ih ihValue =>
      exact (ihValue.behind [_]).behind _
  | arrow written valid phrase ih => exact ih.behind _

/-- Nothing goes across the end of a phrase, unless an arrow is behind it. -/
theorem Phrase.apart (phrase : Phrase level expr row) (ends : headPunct second ≠ some .arrow) :
    Apart row second :=
  phrase.balanced.apart phrase.endsPlain.ne_dot ends

/-- Neither does anything go across the end of a field. -/
theorem Field.apart (field : Field)
    (each : ∀ token key keys value row, field = .keyed token key keys value row →
      Phrase 9 value row) (ends : headPunct second ≠ some .arrow) :
    Apart field.item.2 second := by
  cases field with
  | alone name => exact apart_token (by simp) (by simp) second
  | keyed token key keys value row =>
      have phrase := each token key keys value row rfl
      obtain ⟨opens, closes, -⟩ := ne_of_key keys
      have balanced : Balanced (token :: .punct .colon :: row) :=
        .token opens closes (.token (by simp) (by simp) phrase.balanced)
      exact balanced.apart (phrase.endsPlain.behind [_, _]).ne_dot ends

end Expr

end LiveMarkup
