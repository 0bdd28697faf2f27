import LiveMarkup.Proofs.Expr.Tearing

/-!
# Input that is cut short

A reader that is given the front part of a row of tokens either reads all of it or misses the end of
the text, unless the cut tears something apart.  This goes up from token to token and from level to
level: where a reader has taken a whole part of the row, the cut is in the rest, and where it has
not, it has come to the end, where every reader misses something or yields.
-/

namespace LiveMarkup

open LiveMarkup.Expr (Listed Torn Apart torn_within torn_behind not_torn_nil)

namespace Parser

variable {α β : Type}

/-! ## Outcomes -/

/-- What comes of reading a row that is cut short, given whether the cut tears something: all of it
is read, the end of the text is missed, or a target cannot be assigned to, unless something is torn;
then a token is out of place. -/
inductive Halts (torn : Prop) : Except EvalFault (α × List Lexeme) → Prop
  /-- No token is left. -/
  | whole (fair : ¬torn) (a : α) : Halts torn (.ok (a, []))
  /-- More was expected. -/
  | ends (fair : ¬torn) : Halts torn (.error .unexpectedEnd)
  /-- The beginning of a target is none. -/
  | target (fair : ¬torn) : Halts torn (.error .invalidAssignmentTarget)
  /-- The last token that is read is out of place. -/
  | stray (unfair : torn) (offset : Nat) (expected : Expectation) (token : Token) :
      Halts torn (.error (.unexpectedToken offset expected token))

/-- Whether a reader misses the end or yields where no token is left. -/
def Calm (reader : Parser α) : Prop := Halts False (reader [])

section Outcomes

variable {torn other : Prop} {reader : Parser α} {later : α → Parser β} {lexemes : List Lexeme}

theorem Halts.congr {outcome : Except EvalFault (α × List Lexeme)} (halts : Halts torn outcome)
    (same : torn ↔ other) : Halts other outcome := by
  rw [propext same] at halts
  exact halts

theorem Calm.halts (calm : Calm reader) (fair : ¬torn) : Halts torn (reader []) :=
  Halts.congr calm (iff_of_false not_false fair)

theorem bind_ok {a : α} {rest : List Lexeme} (read : reader lexemes = .ok (a, rest)) :
    (reader >>= later) lexemes = later a rest := by
  change ((reader lexemes).bind fun read => later read.1 read.2) = _
  rw [read]
  rfl

theorem bind_error {fault : EvalFault} (read : reader lexemes = .error fault) :
    (reader >>= later) lexemes = .error fault := by
  change ((reader lexemes).bind fun read => later read.1 read.2) = _
  rw [read]
  rfl

/-- What comes at the end of the text does not tear anything. -/
theorem Halts.bind (halts : Halts torn (reader lexemes)) (calm : ∀ a, Calm (later a)) :
    Halts torn ((reader >>= later) lexemes) := by
  generalize given : reader lexemes = outcome at halts
  cases halts with
  | whole fair a =>
      rw [bind_ok given]
      exact (calm a).halts fair
  | ends fair =>
      rw [bind_error given]
      exact .ends fair
  | target fair =>
      rw [bind_error given]
      exact .target fair
  | stray unfair offset expected token =>
      rw [bind_error given]
      exact .stray unfair offset expected token

end Outcomes

/-! ## At the end of the text -/

namespace Calm

variable {reader : Parser α} {later : α → Parser β}

theorem pure (a : α) : Calm (Pure.pure a) := .whole not_false a

theorem ends : Calm (throw .unexpectedEnd : Parser α) := Halts.ends not_false

theorem bind (calm : Calm reader) (behind : ∀ a, Calm (later a)) : Calm (reader >>= later) :=
  Halts.bind calm behind

theorem eat {p : Punct} {later : Bool → Parser β} (behind : Calm (later false)) :
    Calm (Parser.eat p >>= later) := behind

theorem expect (p : Punct) (expected : Expectation) (later : Unit → Parser β) :
    Calm (Parser.expect p expected >>= later) := Halts.ends not_false

theorem next {later : Option Lexeme → Parser β} (behind : Calm (later none)) :
    Calm (Parser.next >>= later) := behind

theorem peek {later : Option Punct → Parser β} (behind : Calm (later none)) :
    Calm (peekPunct >>= later) := behind

theorem remaining {later : Nat → Parser β} (behind : Calm (later 0)) :
    Calm (Parser.remaining >>= later) := behind

theorem head {later : Option (List String) → Parser β} (behind : Calm (later none)) :
    Calm (arrowHead >>= later) := behind

end Calm

theorem calm_listItems {close : Punct} {item : Parser α} (each : Calm item) (fuel : Nat) :
    Calm (listItems close item fuel) := by
  cases fuel with
  | zero => exact .ends
  | succ fuel => exact .eat (each.bind fun first => .eat (.expect _ _ _))

theorem calm_update (step : Step) (before : Bool) (target : Expr) :
    Calm (update step before target) := by
  unfold update
  split
  · exact .pure _
  · exact .target not_false

section Levels

variable (whole : Parser Expr)

theorem calm_property : Calm (property whole) := .next .ends

theorem calm_primary : Calm (primary whole) := .next .ends

theorem calm_accesses (fuel : Nat) (base : Expr) : Calm (accesses whole fuel base) := by
  cases fuel <;> exact .whole not_false base

theorem calm_callOrMember : Calm (callOrMember whole) :=
  (calm_primary whole).bind fun base => .remaining (calm_accesses whole _ base)

theorem calm_postfixUpdate : Calm (postfixUpdate whole) :=
  (calm_callOrMember whole).bind fun base => .peek (.pure base)

theorem calm_unary (fuel : Nat) : Calm (unary whole fuel) := by
  cases fuel with
  | zero => exact calm_postfixUpdate whole
  | succ fuel => exact .peek (calm_postfixUpdate whole)

theorem calm_chain {reader : Parser Expr} {op? : Punct → Option (Expr → Expr → Expr)} (fuel : Nat)
    (left : Expr) : Calm (chain reader op? fuel left) := by
  cases fuel with
  | zero => exact .pure left
  | succ fuel => exact .peek (.pure left)

theorem calm_level (n : Nat) : Calm (level whole n) := by
  induction n using level.induct with
  | case1 => exact calm_callOrMember whole
  | case2 => exact calm_postfixUpdate whole
  | case3 => exact .remaining (calm_unary whole _)
  | case4 n ih => exact ih.bind fun left => .remaining (calm_chain _ left)

theorem calm_conditional : Calm (conditional whole) :=
  (calm_level whole 8).bind fun test => .eat (.pure test)

theorem calm_assignment (depth : Nat) : Calm (assignment depth) := by
  cases depth with
  | zero => exact .ends
  | succ depth => exact .head ((calm_conditional _).bind fun target => .peek (.pure target))

theorem calm_statements {statement : Parser Expr} (fuel : Nat) :
    Calm (statements statement fuel) := by
  cases fuel with
  | zero => exact .pure []
  | succ fuel => exact .remaining (.pure [])

end Levels

/-! ## Rows that are cut short -/

/-- Whether a reader halts on the front part of a row, wherever the row is cut, as long as there is
room for the tokens that it is given. -/
def Breaks (room : Nat) (reader : Parser α) (row : List Token) : Prop :=
  ∀ (lexemes : List Lexeme) (more : List Token), lexemes.map Lexeme.token ++ more = row →
    more ≠ [] → lexemes.length ≤ room →
      Halts (Torn (lexemes.map Lexeme.token) more) (reader lexemes)

theorem follows_nil (level : Nat) : Follows level [] := by
  intro p bound head
  cases head

theorem Follows.cut {level : Nat} {row cut : List Token} (follows : Follows level row)
    (begins : cut <+: row) : Follows level cut := by
  cases cut with
  | nil => exact follows_nil level
  | cons token cut =>
      obtain ⟨more, rfl⟩ := begins
      intro p bound head
      exact follows p bound (by rwa [headPunct_append (by simp)])

theorem eat_self (p : Punct) (offset : Nat) (rest : List Lexeme) :
    eat p (⟨.punct p, offset⟩ :: rest) = .ok (true, rest) := by
  simp [eat]

namespace Breaks

variable {room : Nat} {reader : Parser α} {later : α → Parser β} {row first second : List Token}

theorem weaken {less : Nat} (breaks : Breaks room reader row) (le : less ≤ room) :
    Breaks less reader row :=
  fun lexemes more split proper enough => breaks lexemes more split proper (Nat.le_trans enough le)

/-- A row without room is cut at its beginning. -/
theorem zero (calm : Calm reader) (row : List Token) : Breaks 0 reader row := by
  intro lexemes more split proper enough
  obtain rfl := List.length_eq_zero_iff.mp (Nat.le_zero.mp enough)
  exact calm.halts (not_torn_nil more)

/-- A loop that is bounded by the room goes on while there is some. -/
theorem loop (reader : Nat → Parser α) {fuel : Nat} (calm : Calm (reader 0)) (enough : room ≤ fuel)
    (step : ∀ left, room ≤ left + 1 → Breaks room (reader (left + 1)) row) :
    Breaks room (reader fuel) row := by
  cases fuel with
  | zero =>
      obtain rfl := Nat.le_zero.mp enough
      exact .zero calm row
  | succ left => exact step left enough

/-- A single token can only be cut off. -/
theorem single (calm : Calm reader) (token : Token) : Breaks room reader [token] := by
  intro lexemes more split proper _
  rcases List.append_eq_singleton_iff.mp split with ⟨none, -⟩ | ⟨-, rfl⟩
  · obtain rfl := List.map_eq_nil_iff.mp none
    exact calm.halts (not_torn_nil more)
  · exact absurd rfl proper

/-- Behind the end of the text nothing is torn. -/
theorem thenCalm (breaks : Breaks room reader row) (calm : ∀ a, Calm (later a)) :
    Breaks room (reader >>= later) row :=
  fun lexemes more split proper enough => (breaks lexemes more split proper enough).bind calm

theorem yield {make : α → β} (breaks : Breaks room reader row) :
    Breaks room (do return make (← reader)) row :=
  breaks.thenCalm fun a => .pure (make a)

theorem remaining {later : Nat → Parser β}
    (each : ∀ count ≤ room, Breaks count (later count) row) :
    Breaks room (Parser.remaining >>= later) row :=
  fun lexemes more split proper enough =>
    each lexemes.length enough lexemes more split proper (Nat.le_refl _)

/-- A reader that takes a token goes on with the rest of the row. -/
theorem token {token : Token} {other : Nat → Parser α} (calm : Calm reader)
    (apart : Apart [token] row)
    (step : ∀ offset rest, reader (⟨token, offset⟩ :: rest) = other offset rest)
    (each : ∀ offset, Breaks (room - 1) (other offset) row) :
    Breaks room reader (token :: row) := by
  intro lexemes more split proper enough
  cases lexemes with
  | nil => exact calm.halts (not_torn_nil more)
  | cons lexeme rest =>
      obtain ⟨rfl, rfl⟩ := List.cons.inj split
      rw [step lexeme.offset rest]
      have room : rest.length ≤ room - 1 := Nat.le_sub_one_of_lt enough
      exact (each lexeme.offset rest more rfl proper room).congr (torn_behind apart).symm

/-- A cut of two rows is in the first or in the second; one between them counts as one in the
second. -/
theorem divide (breaks : Breaks room reader first) (apart : Apart first second)
    (behind : ∀ (front rest : List Lexeme) (more : List Token), front.map Lexeme.token = first →
      rest.map Lexeme.token ++ more = second → more ≠ [] → (front ++ rest).length ≤ room →
      Halts (Torn (rest.map Lexeme.token) more) (reader (front ++ rest))) :
    Breaks room reader (first ++ second) := by
  intro lexemes more split proper enough
  have divided (front rest : List Lexeme) (same : front.map Lexeme.token = first)
      (whole : rest.map Lexeme.token ++ more = second) (length : (front ++ rest).length ≤ room) :
      Halts (Torn ((front ++ rest).map Lexeme.token) more) (reader (front ++ rest)) := by
    subst whole
    rw [List.map_append, same]
    exact (behind front rest more same rfl proper length).congr (torn_behind apart).symm
  rcases List.append_eq_append_iff.mp split with ⟨between, rfl, rfl⟩ | ⟨front, same, rfl⟩
  · by_cases none : between = []
    · subst none
      have whole := divided lexemes [] (List.append_nil _).symm rfl (by simpa using enough)
      rwa [List.append_nil] at whole
    · exact (breaks lexemes between rfl none enough).congr (torn_within apart none).symm
  · obtain ⟨before, rest, rfl, rfl, rfl⟩ := List.map_eq_append_iff.mp same
    exact divided before rest rfl rfl enough

/-- If a reader takes the first part of a row, then a cut is in what is read first or in what is
read afterwards. -/
theorem bind {a : α} {behind : List Token → Prop} (breaks : Breaks room reader first)
    (takes : first.length ≤ room → Takes reader first a behind)
    (fits : ∀ cut, cut <+: second → behind cut) (apart : Apart first second)
    (breaksLater : Breaks room (later a) second) (calm : ∀ a, Calm (later a)) :
    Breaks room (reader >>= later) (first ++ second) := by
  apply (breaks.thenCalm calm).divide apart
  rintro front rest more rfl rfl proper enough
  rw [List.length_append] at enough
  have read := takes (by rw [List.length_map]; omega) front rest rfl
    (fits _ (List.prefix_append _ more))
  rw [bind_ok read]
  exact breaksLater rest more rfl proper (by omega)

/-- What a reader begins with may be the first part of a row; then it goes on with the second. -/
theorem goOn (breaks : Breaks room reader first) (goesOn : Nat → Parser α)
    (apart : Apart first second) (filled : first ≠ [])
    (begins : first.length ≤ room → ∀ front rest : List Lexeme, front.map Lexeme.token = first →
      rest.map Lexeme.token <+: second →
      ∃ fuel, rest.length ≤ fuel ∧ reader (front ++ rest) = goesOn fuel rest)
    (step : ∀ fuel count, count ≤ fuel → count < room → Breaks count (goesOn fuel) second) :
    Breaks room reader (first ++ second) := by
  apply breaks.divide apart
  rintro front rest more rfl rfl proper enough
  have some : 0 < (front.map Lexeme.token).length := List.length_pos_iff.mpr filled
  rw [List.length_map] at some
  rw [List.length_append] at enough
  obtain ⟨fuel, short, same⟩ := begins (by rw [List.length_map]; omega) front rest rfl
    (List.prefix_append _ more)
  rw [same]
  exact step fuel rest.length short (by omega) rest more rfl proper (Nat.le_refl _)

theorem skip {p : Punct} {later : Bool → Parser β} (misses : headPunct row ≠ some p)
    (breaks : Breaks room (later false) row) : Breaks room (Parser.eat p >>= later) row := by
  intro lexemes more split proper enough
  have skipped : Parser.eat p lexemes = .ok (false, lexemes) := by
    match lexemes with
    | [] => rfl
    | ⟨.number _, _⟩ :: _ | ⟨.string _, _⟩ :: _ | ⟨.ident _, _⟩ :: _ => rfl
    | ⟨.punct q, offset⟩ :: rest =>
        have differs : q ≠ p := by
          rintro rfl
          exact misses (split ▸ rfl)
        simp [Parser.eat, differs]
  rw [bind_ok skipped]
  exact breaks lexemes more split proper enough

theorem next {token : Token} {later : Option Lexeme → Parser β} (calm : Calm (later none))
    (apart : Apart [token] row)
    (each : ∀ offset, Breaks (room - 1) (later (some ⟨token, offset⟩)) row) :
    Breaks room (Parser.next >>= later) (token :: row) :=
  Breaks.token (.next calm) apart (fun _ _ => rfl) each

theorem eat {p : Punct} {later : Bool → Parser β} (calm : Calm (later false))
    (apart : Apart [.punct p] row) (each : Breaks (room - 1) (later true) row) :
    Breaks room (Parser.eat p >>= later) (.punct p :: row) :=
  .token (.eat calm) apart (fun offset rest => bind_ok (eat_self p offset rest)) fun _ => each

theorem expect {p : Punct} {later : Unit → Parser β} (expected : Expectation)
    (apart : Apart [.punct p] row) (each : Breaks (room - 1) (later ()) row) :
    Breaks room (Parser.expect p expected >>= later) (.punct p :: row) := by
  refine .token (.expect _ _ _) apart (fun offset rest => bind_ok ?_) fun _ => each
  exact bind_ok (eat_self p offset rest)

end Breaks

/-! ## Lists -/

theorem apart_comma (row : List Token) : Apart [.punct .comma] row :=
  Expr.apart_token (by simp) (by simp) row

/-- What a list asks of an item that may be cut short: it halts, or it is read if it ends well, it
does not begin with the closing token, and nothing goes across its end. -/
structure Listable (room : Nat) (close : Punct) (item : Parser α) (ends : List Token → Prop)
    (entry : Item α) : Prop where
  breaks : Breaks room item entry.2
  takes : entry.2.length ≤ room → Takes item entry.2 entry.1 ends
  filled : entry.2 ≠ []
  begins : headPunct entry.2 ≠ some close
  apart : ∀ rest, headPunct rest ≠ some .arrow → Apart entry.2 rest

section Lists

variable {room fuel : Nat} {close : Punct} {item : Parser α} {ends : List Token → Prop}

theorem Listable.weaken {entry : Item α} {less : Nat}
    (listable : Listable room close item ends entry) (le : less ≤ room) :
    Listable less close item ends entry :=
  { listable with
    breaks := listable.breaks.weaken le
    takes := fun short => listable.takes (Nat.le_trans short le) }

/-- The first item of a list halts, or what is behind it does. -/
theorem Listable.first {entry : Item α} (listable : Listable room close item ends entry)
    (stops : ends []) {p : Punct} (fits : ∀ rest, ends (.punct p :: rest)) (other : p ≠ .arrow)
    {behind : List Token}
    (later : Breaks room (do
      if ← eat .comma then return entry.1 :: (← listItems close item fuel)
      expect close .commaOrClosing
      return [entry.1]) (.punct p :: behind)) :
    Breaks room (listItems close item (fuel + 1)) (entry.2 ++ .punct p :: behind) := by
  rw [listItems]
  apply Breaks.skip
  · rw [headPunct_append listable.filled]
    exact listable.begins
  apply listable.breaks.bind listable.takes
  · intro cut begins
    rcases List.prefix_cons_iff.mp begins with rfl | ⟨rest, rfl, -⟩
    · exact stops
    · exact fits rest
  · exact listable.apart _ (by simpa [headPunct] using other)
  · exact later
  · exact fun first => .eat (.expect _ _ _)

/-- Items between commas halt where one of them does. -/
theorem breaks_listItems (calm : Calm item) (comma : ∀ rest, ends (.punct .comma :: rest))
    (closes : ∀ rest, ends (.punct close :: rest)) (stops : ends []) (differs : close ≠ .comma)
    (noArrow : close ≠ .arrow) {items : List (Item α)} {row : List Token}
    (listed : Listed items row) (each : ∀ entry ∈ items, Listable room close item ends entry)
    (enough : room ≤ fuel) : Breaks room (listItems close item fuel) (row ++ [.punct close]) := by
  induction listed generalizing room fuel with
  | nil => exact .single (calm_listItems calm fuel) _
  | last entry =>
      refine Breaks.loop _ (calm_listItems calm 0) enough fun fuel _ => ?_
      apply (each entry List.mem_cons_self).first stops closes noArrow
      apply Breaks.skip
      · simpa [headPunct] using differs
      exact .single (.expect _ _ _) _
  | cons entry others ih =>
      refine Breaks.loop _ (calm_listItems calm 0) enough fun fuel enough => ?_
      obtain ⟨here, later⟩ := List.forall_mem_cons.mp each
      rw [List.append_assoc]
      apply here.first stops comma (by decide)
      apply Breaks.eat (.expect _ _ _) (apart_comma _)
      apply Breaks.yield
      apply ih _ (Nat.sub_le_of_le_add enough)
      exact fun entry member => (later entry member).weaken (Nat.sub_le room 1)

end Lists

/-! ## Looser levels -/

section Levels

variable {whole : Parser Expr} {torn : Prop} {lexemes : List Lexeme}

/-- Without an operator at its beginning, an operand is read as what may be updated. -/
theorem unary_of_plain
    (plain : ∀ p, headPunct (lexemes.map Lexeme.token) = some p → p.leads = false) (fuel : Nat) :
    unary whole fuel lexemes = postfixUpdate whole lexemes := by
  cases fuel with
  | zero => rfl
  | succ fuel =>
      match lexemes with
      | [] => rfl
      | ⟨.number _, _⟩ :: _ | ⟨.string _, _⟩ :: _ | ⟨.ident _, _⟩ :: _ => rfl
      | ⟨.punct p, _⟩ :: _ =>
          have leads : p.leads = false := plain p rfl
          cases p <;> first | rfl | cases leads

/-- What halts at a level halts at every looser one. -/
theorem Halts.loosen {own n : Nat} (halts : Halts torn (level whole own lexemes))
    (plain : own ≤ 1 → ∀ p, headPunct (lexemes.map Lexeme.token) = some p → p.leads = false)
    (le : own ≤ n) : Halts torn (level whole n lexemes) := by
  induction n, le using Nat.le_induction with
  | base => exact halts
  | succ n le ih =>
      match n with
      | 0 => exact ih.bind fun base => .peek (.pure base)
      | 1 =>
          change Halts torn (unary whole lexemes.length lexemes)
          rw [unary_of_plain (plain le)]
          exact ih
      | n + 2 => exact ih.bind fun left => .remaining (calm_chain _ left)

theorem Breaks.loosen {room own n : Nat} {row : List Token}
    (breaks : Breaks room (level whole own) row) (front : Front own row) (le : own ≤ n) :
    Breaks room (level whole n) row := by
  intro lexemes more split proper enough
  refine (breaks lexemes more split proper enough).loosen (fun tight p head => ?_) le
  apply front.plain tight p
  cases lexemes with
  | nil => cases head
  | cons lexeme rest =>
      rw [← split, headPunct_append (by simp)]
      exact head

/-- The name behind a dot may be cut off, which tears it from the dot. -/
theorem breaks_member {fuel room : Nat} (base : Expr) (name : String) (enough : room ≤ fuel) :
    Breaks room (accesses whole fuel base) [.punct .dot, .ident name] := by
  intro lexemes more split proper short
  match lexemes with
  | [] => exact (calm_accesses whole fuel base).halts (not_torn_nil more)
  | [⟨token, offset⟩] =>
      obtain ⟨rfl, -⟩ := List.cons.inj split
      obtain ⟨fuel, rfl⟩ := Nat.exists_eq_add_of_le' (Nat.le_trans short enough)
      exact .stray (.inl rfl) offset .propertyName (.punct .dot)
  | first :: second :: rest =>
      obtain ⟨-, split⟩ := List.cons.inj split
      obtain ⟨-, split⟩ := List.cons.inj split
      exact absurd (List.append_eq_nil_iff.mp split).2 proper

/-- What continues a member or call with a bracket halts if what is in the brackets does. -/
theorem breaks_access (other : Nat → Parser Expr) {p : Punct} {base : Expr} {behind : List Token}
    (apart : Apart [.punct p] behind)
    (step : ∀ fuel offset rest,
      accesses whole (fuel + 1) base (⟨.punct p, offset⟩ :: rest) = other fuel rest)
    {fuel room : Nat} (enough : room ≤ fuel)
    (each : ∀ fuel, Breaks (room - 1) (other fuel) behind) :
    Breaks room (accesses whole fuel base) (.punct p :: behind) := by
  refine Breaks.loop (fun fuel => accesses whole fuel base) (calm_accesses whole 0 base) enough
    fun fuel _ => ?_
  exact .token (calm_accesses whole _ base) apart (step fuel) fun _ => each fuel

/-- What continues an operand with an operator halts if the next operand does. -/
theorem breaks_chain {reader : Parser Expr} {op? : Punct → Option (Expr → Expr → Expr)} {p : Punct}
    {join : Expr → Expr → Expr} (found : op? p = some join) {second : List Token}
    (apart : Apart [.punct p] second) {fuel room : Nat} (enough : room ≤ fuel)
    (operand : Breaks room reader second) (left : Expr) :
    Breaks room (chain reader op? fuel left) (.punct p :: second) := by
  refine Breaks.loop (fun fuel => chain reader op? fuel left) (calm_chain 0 left) enough
    fun fuel _ => ?_
  have others : Breaks (room - 1)
      (reader >>= fun right => chain reader op? fuel (join left right)) second :=
    (operand.weaken (Nat.sub_le room 1)).thenCalm fun right => calm_chain fuel _
  exact .token (calm_chain _ left) apart (fun offset => chain_step found fuel offset left)
    fun _ => others

/-- What is no head of an arrow function is none when it is cut short. -/
theorem arrowHead?_of_cut {row more : List Token} (noHead : NoHead row)
    (split : lexemes.map Lexeme.token ++ more = row) : arrowHead? lexemes = none := by
  cases found : arrowHead? lexemes with
  | none => rfl
  | some head =>
      obtain ⟨taken, rfl, written, valid⟩ := head_of_arrowHead? found
      let behind := more.map fun token => Lexeme.mk token 0
      have again := arrowHead?_of_head written valid rfl (head.2 ++ behind)
      have tokens : behind.map Lexeme.token = more := by simp [behind, Function.comp_def]
      rw [noHead _ (by simp [tokens, ← split])] at again
      cases again

/-- A head has its arrow in front of what is behind it. -/
theorem arrowHead?_of_noArrow (noArrow : .punct .arrow ∉ lexemes.map Lexeme.token) :
    arrowHead? lexemes = none := by
  cases found : arrowHead? lexemes with
  | none => rfl
  | some head =>
      obtain ⟨taken, rfl, written, -⟩ := head_of_arrowHead? found
      obtain ⟨front, ends⟩ := written.ends
      rw [List.map_append, ends] at noArrow
      exact absurd (by simp) noArrow

theorem Breaks.noHead {room : Nat} {row : List Token} {later : Option (List String) → Parser α}
    (noHead : NoHead row) (breaks : Breaks room (later none) row) :
    Breaks room (arrowHead >>= later) row := by
  intro lexemes more split proper enough
  have missed : arrowHead lexemes = .ok (none, lexemes) := by
    rw [arrowHead, arrowHead?_of_cut noHead split]
  rw [bind_ok missed]
  exact breaks lexemes more split proper enough

/-- What halts by itself, where no head and no operator begins, halts as a whole. -/
theorem Halts.assignment {depth : Nat} (missing : arrowHead? lexemes = none)
    (plain : ∀ p, headPunct (lexemes.map Lexeme.token) = some p → p.leads = false)
    (halts : Halts torn (primary (Parser.assignment depth) lexemes)) :
    Halts torn (Parser.assignment (depth + 1) lexemes) := by
  have missed : arrowHead lexemes = .ok (none, lexemes) := by rw [arrowHead, missing]
  have base : Halts torn (level (Parser.assignment depth) 0 lexemes) :=
    halts.bind fun base => .remaining (calm_accesses _ _ base)
  have test : Halts torn (level (Parser.assignment depth) 8 lexemes) :=
    base.loosen (fun _ => plain) (by decide)
  have target : Halts torn (conditional (Parser.assignment depth) lexemes) :=
    test.bind fun test => .eat (.pure test)
  rw [Parser.assignment, bind_ok missed]
  exact target.bind fun target => .peek (.pure target)

end Levels

end Parser

end LiveMarkup
