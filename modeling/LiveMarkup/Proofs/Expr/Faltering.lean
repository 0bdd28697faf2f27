import LiveMarkup.Proofs.Expr.Cutoff

/-!
# Programs that are cut short

Every phrase that is cut short is read up to the cut, or the end of the text is missed, unless the
cut tears something; one case for each way to write a phrase, then statements and programs.
-/

namespace LiveMarkup

open LiveMarkup.Parser (Breaks Halts Calm Follows Item follows_free follows_looser headPunct binds
  joins? joinStatements assignment calm_accesses calm_assignment calm_primary calm_property
  calm_update bind_ok)

namespace Expr

variable {level : Nat} {expr : Expr} {row first second : List Token}

/-- How a row that is cut short is read: at its level, at every looser one and as a whole, with a
bound on the nesting that leaves room for the tokens that are there. -/
structure Falters (level : Nat) (row : List Token) : Prop where
  /-- It halts at its level and at the looser ones. -/
  opens : ∀ depth n, level ≤ n → n ≤ 8 →
    Breaks (depth + 1) (Parser.level (assignment depth) n) row
  /-- It halts as a whole. -/
  whole : ∀ depth, Breaks depth (assignment depth) row

theorem Falters.own (falters : Falters level row) (tight : level ≤ 8) (depth : Nat) :
    Breaks (depth + 1) (Parser.level (assignment depth) level) row :=
  falters.opens depth level (Nat.le_refl _) tight

theorem falters_of_whole
    (whole : ∀ depth, Breaks (depth + 1) (assignment (depth + 1)) row) : Falters 9 row := by
  refine ⟨fun _ _ loose tight => absurd (Nat.le_trans loose tight) (by decide), fun depth => ?_⟩
  cases depth with
  | zero => exact .zero (calm_assignment 0) row
  | succ depth => exact whole depth

/-- What halts at its own level halts at every looser one. -/
theorem falters_of_opens {own : Nat} (front : Front own row) (tight : own ≤ 8) (le : own ≤ level)
    (opens : ∀ depth, Breaks (depth + 1) (Parser.level (assignment depth) own) row) :
    Falters level row := by
  constructor
  · exact fun depth n loose _ => (opens depth).loosen front (Nat.le_trans le loose)
  · intro depth
    cases depth with
    | zero => exact .zero (calm_assignment 0) row
    | succ depth =>
        rw [assignment]
        apply Breaks.noHead
        · simpa using front.noHead tight [] (by simp [headPunct])
        have test : Breaks (depth + 1) (Parser.conditional (assignment depth)) row :=
          ((opens depth).loosen front tight).thenCalm fun test => .eat (.pure test)
        exact test.thenCalm fun target => .peek (.pure target)

theorem falters_of_primary (front : Front 0 row)
    (primary : ∀ depth, Breaks (depth + 1) (Parser.primary (assignment depth)) row) :
    Falters level row := by
  apply falters_of_opens front (by decide) (Nat.zero_le _)
  exact fun depth => (primary depth).thenCalm fun base => .remaining (calm_accesses _ _ base)

/-! ## Lists -/

/-- Phrases between commas halt as a list. -/
theorem breaks_phrases {depth room : Nat} {close : Punct} (closes : close.closes = true)
    (closing : binds close = none) (differs : close ≠ .comma) {items : List (Item Expr)}
    (listed : Listed items row) (each : ∀ item ∈ items, Phrase 9 item.1 item.2)
    (falters : ∀ item ∈ items, Falters 9 item.2) (enough : room ≤ depth) :
    Breaks room (Parser.list close (assignment depth)) (row ++ [.punct close]) := by
  apply Breaks.remaining
  intro count less
  have short : count ≤ depth := Nat.le_trans less enough
  have other : close ≠ .arrow := by
    rintro rfl
    cases closes
  apply Parser.breaks_listItems (calm_assignment depth) (fun rest => follows_free rfl rest)
    (fun rest => follows_free closing rest) (Parser.follows_nil 9) differs other listed
  · intro item member
    have phrase := each item member
    exact {
      breaks := ((falters item member).whole depth).weaken short
      takes := fun room => phrase.reads.whole depth (Nat.le_trans room short)
      filled := phrase.front.filled
      begins := fun same => phrase.ne_close closes _ same rfl
      apart := fun rest ends => phrase.apart ends }
  · exact Nat.le_succ count

/-- A field halts if its value does. -/
theorem Field.breaks {whole : Parser Expr} {room : Nat} (field : Field)
    (value : ∀ token key keys value row, field = .keyed token key keys value row →
      Breaks room whole row) : Breaks room (Parser.property whole) field.item.2 := by
  cases field with
  | alone name => exact .single (calm_property whole) _
  | keyed token key keys expr row =>
      have breaks : Breaks (room - 1 - 1) whole row :=
        (value token key keys expr row rfl).weaken (by omega)
      have colon : Apart [.punct .colon] row := apart_token (by simp) (by simp) row
      obtain ⟨opens, -, dot⟩ := ne_of_key keys
      apply Breaks.next .ends (apart_token opens dot _)
      intro offset
      cases token with
      | ident name => exact .eat (.pure (name, Expr.ident name)) colon breaks.yield
      | string text => exact .expect _ colon breaks.yield
      | number number => exact .expect _ colon breaks.yield
      | punct p => simp [Token.key?] at keys

/-- Fields between commas halt as the entries of an object. -/
theorem breaks_fields {depth room : Nat} {fields : List Field}
    (listed : Listed (fields.map Field.item) row)
    (each : ∀ token key keys value row, .keyed token key keys value row ∈ fields →
      Phrase 9 value row)
    (falters : ∀ token key keys value row, .keyed token key keys value row ∈ fields →
      Falters 9 row) (enough : room ≤ depth) :
    Breaks room (Parser.list .rightBrace (Parser.property (assignment depth)))
      (row ++ [.punct .rightBrace]) := by
  apply Breaks.remaining
  intro count less
  have short : count ≤ depth := Nat.le_trans less enough
  have comma : ∀ rest, FieldEnds (.punct .comma :: rest) :=
    fun rest => ⟨follows_free rfl rest, by simp [headPunct]⟩
  have closes : ∀ rest, FieldEnds (.punct .rightBrace :: rest) :=
    fun rest => ⟨follows_free rfl rest, by simp [headPunct]⟩
  apply Parser.breaks_listItems (calm_property _) comma closes
    ⟨Parser.follows_nil 9, by simp [headPunct]⟩ (by decide) (by decide) listed
  · refine List.forall_mem_map.mpr fun field member => ?_
    constructor
    case breaks =>
      apply field.breaks
      rintro token key keys value inner rfl
      exact ((falters token key keys value inner member).whole depth).weaken short
    case takes =>
      intro room
      apply field.takes
      rintro token key keys value inner rfl
      simp only [Field.item, List.length_cons] at room
      exact (each token key keys value inner member).reads.whole depth (by omega)
    case filled => exact field.filled
    case begins => exact fun same => field.ne_close .rightBrace _ same rfl
    case apart =>
      refine fun rest ends => field.apart ?_ ends
      rintro token key keys value inner rfl
      exact each token key keys value inner member
  · exact Nat.le_succ count

/-! ## Members, calls and operators -/

/-- What continues a member or call is cut behind what it continues or in it. -/
theorem breaks_extend {depth : Nat} {base : Expr} {p : Punct} {behind : List Token}
    (phrase : Phrase 0 base row) (falters : Falters 0 row) (other : p ≠ .arrow)
    (step : ∀ fuel room, room ≤ fuel → room ≤ depth →
      Breaks room (Parser.accesses (assignment depth) fuel base) (.punct p :: behind)) :
    Breaks (depth + 1) (Parser.level (assignment depth) 0) (row ++ .punct p :: behind) := by
  apply (falters.own (by decide) depth).goOn _ (phrase.apart (by simpa [headPunct] using other))
    phrase.front.filled
  · intro room front rest same _
    exact phrase.reads.own (by decide) depth room front rest same
  · exact fun fuel count short less => step fuel count short (Nat.le_of_lt_succ less)

/-- An operator between operands halts if they do. -/
theorem breaks_join {depth n : Nat} {p : Punct} {join : Expr → Expr → Expr}
    (found : joins? (n + 3) p = some join) {left : Expr} (phrase : Phrase (n + 3) left first)
    (falters : Falters (n + 3) first) (faltersRight : Falters (n + 2) second) :
    Breaks (depth + 1) (Parser.level (assignment depth) (n + 3)) (first ++ .punct p :: second) := by
  obtain ⟨tight, -, -, other⟩ := joins?_spec found
  have bound := Parser.binds_of_joins? found
  apply (falters.own (by omega) depth).goOn _ (phrase.apart (by simpa [headPunct] using other))
    phrase.front.filled
  · intro room front rest same begins
    exact phrase.reads.own (by omega) depth room front rest same
      ((follows_looser bound (Nat.lt_succ_self _) _).cut begins)
  · intro fuel count short less
    apply Parser.breaks_chain found (apart_operator bound second) short
    exact (faltersRight.opens depth (n + 2) (Nat.le_refl _) (by omega)).weaken (Nat.le_of_lt less)

/-- An operator before its operand halts if the operand does. -/
theorem breaks_operator (made : Expr → Parser Expr) {depth : Nat} {p : Punct}
    (falters : Falters 2 row) (apart : Apart [.punct p] row)
    (step : ∀ offset rest, Parser.operand (assignment depth) (⟨.punct p, offset⟩ :: rest) =
      (Parser.operand (assignment depth) >>= made) rest) (calm : ∀ operand, Calm (made operand)) :
    Breaks (depth + 1) (Parser.level (assignment depth) 2) (.punct p :: row) := by
  apply Breaks.token (Parser.calm_level _ 2) apart step
  intro _
  exact ((falters.own (by decide) depth).weaken (Nat.le_succ depth)).thenCalm calm

theorem falters_name (level : Nat) (name : String) : Falters level [.ident name] :=
  falters_of_primary (Phrase.name 0 name).front fun _ => .single (calm_primary _) _

/-- A phrase in parentheses halts if it does. -/
theorem falters_parens (level : Nat) (phrase : Phrase 9 expr row) (falters : Falters 9 row) :
    Falters level (.punct .leftParen :: (row ++ [.punct .rightParen])) := by
  apply falters_of_primary (Phrase.parens 0 phrase).front
  intro depth
  apply Breaks.next .ends (apart_parens phrase.balanced)
  intro offset
  apply (falters.whole depth).bind (phrase.reads.whole depth)
  · exact fun cut begins => (follows_free rfl _).cut begins
  · exact phrase.apart (by simp [headPunct])
  · exact .single (.expect _ _ _) _
  · exact fun inner => .expect _ _ _

/-! ## Heads of arrow functions -/

/-- A phrase may be the beginning of a head; in front of the arrow it is read. -/
theorem breaks_single {depth : Nat} (phrase : Phrase 9 expr row) (falters : Falters 9 row)
    (apart : Apart row [.punct .arrow]) :
    Breaks depth (assignment depth) (row ++ [.punct .arrow]) := by
  apply (falters.whole depth).divide apart
  rintro front rest more rfl split proper enough
  have none : rest = [] := by
    rcases List.append_eq_singleton_iff.mp split with ⟨none, -⟩ | ⟨-, rfl⟩
    · exact List.map_eq_nil_iff.mp none
    · exact absurd rfl proper
  subst none
  rw [List.append_nil] at enough
  have read := phrase.reads.whole depth (by rwa [List.length_map]) front [] rfl
    (Parser.follows_nil 9)
  rw [read]
  exact .whole (not_torn_nil more) expr

/-- No expression begins with a closing parenthesis. -/
theorem halts_close (depth offset : Nat) :
    Halts True (assignment (depth + 1) [⟨.punct .rightParen, offset⟩]) := by
  apply Halts.assignment rfl
  · exact fun p same => Option.some.inj same ▸ rfl
  · exact .stray trivial offset .expression (.punct .rightParen)

/-- How the parentheses of a head that is cut short are read, behind the opening one. -/
theorem halts_parens {depth : Nat} {params : List String} (several : params.length ≠ 1)
    {rest : List Lexeme} {more : List Token}
    (written : Head params (.punct .leftParen :: (rest.map Lexeme.token ++ more)))
    (proper : more ≠ []) (room : rest.length ≤ depth) :
    Halts (.punct .comma ∈ rest.map Lexeme.token ∨ .punct .rightParen ∈ rest.map Lexeme.token)
      ((do
        let inner ← assignment depth
        Parser.expect .rightParen .closingParen
        return inner : Parser Expr) rest) := by
  have calm : Calm (do
      let inner ← assignment depth
      Parser.expect .rightParen .closingParen
      return inner : Parser Expr) := (calm_assignment depth).bind fun inner => .expect _ _ _
  have split := written.behind_paren
  match params, rest with
  | _, [] => exact calm.halts (by simp)
  | [_], _ => exact absurd rfl several
  | [], [⟨token, offset⟩] =>
      obtain ⟨rfl, -⟩ := List.cons.inj split
      obtain ⟨depth, rfl⟩ := Nat.exists_eq_add_of_le' room
      apply Halts.bind _ fun inner => .expect _ _ _
      exact (halts_close depth offset).congr (by simp)
  | [], _ :: _ :: _ =>
      obtain ⟨-, split⟩ := List.cons.inj split
      obtain ⟨-, split⟩ := List.cons.inj split
      exact absurd (List.append_eq_nil_iff.mp split).2 proper
  | param :: next :: params, ⟨token, offset⟩ :: others =>
      -- the first parameter is read as a name
      obtain ⟨rfl, behind⟩ := List.cons.inj split
      have follows : Follows 9 (others.map Lexeme.token) :=
        (follows_free rfl _).cut ⟨more, behind⟩
      have named := (Phrase.name 9 param).reads.whole depth (Nat.le_of_add_left_le room)
        [⟨.ident param, offset⟩] others rfl follows
      rw [List.singleton_append] at named
      rw [bind_ok named]
      cases others with
      | nil => exact .ends (by simp)
      | cons lexeme others =>
          obtain ⟨token, place⟩ := lexeme
          obtain ⟨rfl, -⟩ := List.cons.inj behind
          exact .stray (by simp) place .closingParen (.punct .comma)

/-- A head that has not one parameter halts. -/
theorem breaks_several {depth : Nat} {params : List String} (several : params.length ≠ 1)
    (written : Head params row) : Breaks (depth + 1) (assignment (depth + 1)) row := by
  intro lexemes more split proper enough
  match lexemes with
  | [] => exact (calm_assignment _).halts (not_torn_nil more)
  | ⟨token, offset⟩ :: rest =>
      subst split
      obtain ⟨before, same, -, noArrow, -⟩ := written.parts several (by simp) proper
      obtain ⟨rfl, rfl⟩ := List.cons.inj same
      have missing : Parser.arrowHead? (⟨.punct .leftParen, offset⟩ :: rest) = none := by
        apply Parser.arrowHead?_of_noArrow
        simpa using noArrow
      have inner := halts_parens several written proper (Nat.le_of_succ_le_succ enough)
      apply Halts.assignment missing
      · exact fun p same => Option.some.inj same ▸ rfl
      · exact inner.congr (written.torn_iff several proper).symm

/-- A name in parentheses may be the head of an arrow function, but that tears nothing. -/
theorem apart_parameter (param : String) :
    Apart [.punct .leftParen, .ident param, .punct .rightParen] [.punct .arrow] := by
  refine ⟨by simp, fun params r s several written front back suffix begins => ?_⟩
  obtain ⟨before, rfl, -, -, -⟩ := written.parts several front back
  rcases List.suffix_cons_iff.mp suffix with same | later
  · obtain ⟨-, rfl⟩ := List.cons.inj same
    have inside := written.behind_paren
    match params with
    | [] => cases inside
    | [_] => exact several rfl
    | first :: second :: params => cases inside
  · simpa using later.subset (List.mem_cons_self (a := .punct .leftParen) (l := before))

/-- The head of an arrow function halts. -/
theorem breaks_head {depth : Nat} {params : List String} (written : Head params row) :
    Breaks (depth + 1) (assignment (depth + 1)) row := by
  by_cases several : params.length ≠ 1
  · exact breaks_several several written
  cases written with
  | single param =>
      exact breaks_single (.name 9 param) (falters_name 9 param)
        (apart_token (by simp) (by simp) _)
  | several params =>
      obtain ⟨param, rfl⟩ := List.length_eq_one_iff.mp (not_not.mp several)
      have name := Phrase.name 9 param
      exact breaks_single (.parens 9 name) (falters_parens 9 name (falters_name 9 param))
        (apart_parameter param)

/-- An arrow function halts if its body does. -/
theorem falters_arrow {params : List String} {head : List Token} (written : Head params head)
    (valid : ∀ param ∈ params, Parser.isKeyword param = false) (falters : Falters 9 row) :
    Falters 9 (head ++ row) := by
  apply falters_of_whole
  intro depth
  apply (breaks_head written).goOn (fun _ => do return .arrow params (← assignment depth))
    (written.apart row)
  · exact List.length_pos_iff.mp written.length_pos
  · intro _ front rest same _
    have read : Parser.arrowHead (front ++ rest) = .ok (some params, rest) := by
      rw [Parser.arrowHead, Parser.arrowHead?_of_head written valid same]
    refine ⟨rest.length, Nat.le_refl _, ?_⟩
    rw [assignment, bind_ok read]
  · intro fuel count _ less
    exact ((falters.whole depth).weaken (Nat.le_of_lt_succ less)).yield

/-! ## Choices and assignments -/

/-- A choice halts if its parts do. -/
theorem falters_conditional {test consequent : Expr} {third : List Token}
    (testPhrase : Phrase 8 test first) (consequentPhrase : Phrase 9 consequent second)
    (falters : Falters 8 first) (faltersThen : Falters 9 second) (faltersElse : Falters 9 third) :
    Falters 9 (first ++ .punct .question :: (second ++ .punct .colon :: third)) := by
  apply falters_of_whole
  intro depth
  rw [assignment]
  apply Breaks.noHead
  · exact testPhrase.front.noHead (Nat.le_refl 8) _ (by simp [headPunct])
  have choice : Breaks (depth + 1) (Parser.conditional (assignment depth))
      (first ++ .punct .question :: (second ++ .punct .colon :: third)) := by
    apply (falters.own (Nat.le_refl 8) depth).bind
    · exact fun room => (testPhrase.reads.own (Nat.le_refl 8) depth room).takes
    · exact fun cut begins => (follows_looser rfl (Nat.lt_succ_self 8) _).cut begins
    · exact testPhrase.apart (by simp [headPunct])
    · apply Breaks.eat (.pure test) (apart_token (by simp) (by simp) _)
      apply (faltersThen.whole depth).bind (consequentPhrase.reads.whole depth)
      · exact fun cut begins => (follows_free rfl _).cut begins
      · exact consequentPhrase.apart (by simp [headPunct])
      · apply Breaks.expect _ (apart_token (by simp) (by simp) _)
        exact ((faltersElse.whole depth).weaken (Nat.sub_le _ 1)).yield
      · exact fun consequent => .expect _ _ _
    · exact fun test => .eat (.pure test)
  exact choice.thenCalm fun target => .peek (.pure target)

/-- An assignment halts if its target and its value do. -/
theorem falters_assign {op : AssignOp} {p : Punct} (found : Parser.assignOp? p = some op)
    {target : Expr} (assignable : target.isAssignable = true) (targetPhrase : Phrase 8 target first)
    (falters : Falters 8 first) (faltersValue : Falters 9 second) :
    Falters 9 (first ++ .punct p :: second) := by
  have bound := Parser.binds_of_assignOp? found
  have arrow : p ≠ .arrow := by
    rintro rfl
    cases found
  have question : p ≠ .question := by
    rintro rfl
    cases found
  apply falters_of_whole
  intro depth
  rw [assignment]
  apply Breaks.noHead
  · exact targetPhrase.front.noHead (Nat.le_refl 8) _ (by simpa [headPunct] using arrow)
  have test : Breaks (depth + 1) (Parser.conditional (assignment depth)) first :=
    (falters.own (Nat.le_refl 8) depth).thenCalm fun test => .eat (.pure test)
  apply test.bind
  · exact fun room =>
      Parser.takes_conditional (targetPhrase.reads.own (Nat.le_refl 8) depth room)
  · intro cut begins
    refine ⟨(follows_looser bound (Nat.lt_succ_self 8) _).cut begins, ?_⟩
    rcases List.prefix_cons_iff.mp begins with rfl | ⟨rest, rfl, -⟩
    · simp [headPunct]
    · simpa [headPunct] using question
  · exact targetPhrase.apart (by simpa [headPunct] using arrow)
  · have value : Breaks (depth + 1 - 1) (do return assign op target (← assignment depth)) second :=
      (faltersValue.whole depth).yield
    apply Breaks.token (.peek (.pure target)) (apart_operator bound second) _ fun _ => value
    intro offset rest
    have joined : (some p).bind Parser.assignOp? = some op := found
    simp only [Parser.peekPunct, bind, StateT.bind, Except.bind, joined, assignable, if_true]
    rfl
  · exact fun target => .peek (.pure target)

/-! ## Phrases -/

/-- A phrase that is cut short is read up to the cut, or the end of the text is missed, unless
something is torn. -/
theorem Phrase.falters (phrase : Phrase level expr row) : Falters level row := by
  induction phrase with
  | number level value =>
      exact falters_of_primary (Phrase.number 0 value).front fun _ => .single (calm_primary _) _
  | string level text =>
      exact falters_of_primary (Phrase.string 0 text).front fun _ => .single (calm_primary _) _
  | name level name => exact falters_name level name
  | parens level inner ih => exact falters_parens level inner ih
  | array level listed each ih =>
      apply falters_of_primary (Phrase.array 0 listed each).front
      intro depth
      apply Breaks.next .ends (apart_token (by simp) (by simp) _)
      intro offset
      exact (breaks_phrases rfl rfl (by decide) listed each ih (Nat.le_refl _)).yield
  | object level listed each ih =>
      apply falters_of_primary (Phrase.object 0 listed each).front
      intro depth
      apply Breaks.next .ends (apart_token (by simp) (by simp) _)
      intro offset
      exact (breaks_fields listed each ih (Nat.le_refl _)).yield
  | member level inner property ih =>
      apply falters_of_opens (Phrase.member 0 inner property).front (by decide) (Nat.zero_le _)
      intro depth
      exact breaks_extend inner ih (by decide) fun fuel room short _ =>
        Parser.breaks_member _ property short
  | index level inner at_ ih ihAt =>
      apply falters_of_opens (Phrase.index 0 inner at_).front (by decide) (Nat.zero_le _)
      intro depth
      apply breaks_extend inner ih (by decide)
      intro fuel room short less
      apply Parser.breaks_access (fun fuel => do
          let place ← assignment depth
          Parser.expect .rightBracket .closingBracket
          Parser.accesses (assignment depth) fuel (.index _ place))
        (apart_token (by simp) (by simp) _) (fun _ _ _ => rfl) short
      intro fuel
      have place := (ihAt.whole depth).weaken (Nat.le_trans (Nat.sub_le room 1) less)
      apply place.bind
      · exact fun enough => at_.reads.whole depth (by omega)
      · exact fun cut begins => (follows_free rfl _).cut begins
      · exact at_.apart (by simp [headPunct])
      · exact .single (.expect _ _ _) _
      · exact fun index => .expect _ _ _
  | call level inner listed each ih ihEach =>
      apply falters_of_opens (Phrase.call 0 inner listed each).front (by decide) (Nat.zero_le _)
      intro depth
      apply breaks_extend inner ih (by decide)
      intro fuel room short less
      have balanced := listed.balanced fun arg member => (each arg member).balanced
      apply Parser.breaks_access (fun fuel => do
          let args ← Parser.list .rightParen (assignment depth)
          Parser.accesses (assignment depth) fuel (.call _ args))
        (apart_parens balanced) (fun _ _ _ => rfl) short
      intro fuel
      apply Breaks.thenCalm
      · exact breaks_phrases rfl rfl (by decide) listed each ihEach
          (Nat.le_trans (Nat.sub_le room 1) less)
      · exact fun args => calm_accesses _ fuel _
  | updateAfter loose step assignable inner ih =>
      apply falters_of_opens (Phrase.updateAfter (Nat.le_refl _) step assignable inner).front
        (by decide) loose
      intro depth
      apply (ih.own (by decide) depth).bind
      · exact fun room => (inner.reads.own (by decide) depth room).takes
      · exact fun cut begins => (follows_looser (binds_step step) Nat.one_pos _).cut begins
      · exact inner.apart (by cases step <;> decide)
      · apply Breaks.single
        exact .peek (.pure _)
      · exact fun base => .peek (.pure base)
  | updateBefore loose step assignable inner ih =>
      apply falters_of_opens (Phrase.updateBefore (Nat.le_refl _) step assignable inner).front
        (by decide) loose
      intro depth
      apply breaks_operator (Parser.update step true) ih (apart_operator (binds_step step) _)
      · cases step <;> exact fun _ _ => rfl
      · exact calm_update step true
  | unary loose op inner ih =>
      apply falters_of_opens (Phrase.unary (Nat.le_refl _) op inner).front (by decide) loose
      intro depth
      apply breaks_operator (fun operand => pure (.unary op operand)) ih
      · cases op <;> exact apart_token (by decide) (by decide) _
      · cases op <;> exact fun _ _ => rfl
      · exact fun operand => .pure _
  | join found loose leftPhrase rightPhrase ih ihRight =>
      have front := (Phrase.join found (Nat.le_refl _) leftPhrase rightPhrase).front
      obtain ⟨tight, -⟩ := joins?_spec found
      exact falters_of_opens front (by omega) loose fun _ => breaks_join found leftPhrase ih ihRight
  | conditional testPhrase consequentPhrase alternatePhrase ih ihThen ihElse =>
      exact falters_conditional testPhrase consequentPhrase ih ihThen ihElse
  | assign found assignable targetPhrase valuePhrase ih ihValue =>
      exact falters_assign found assignable targetPhrase ih ihValue
  | arrow written valid inner ih => exact falters_arrow written valid ih

/-! ## Programs -/

/-- Statements that are cut short halt like the one that the cut is in. -/
theorem Statements.breaks {all : List Expr} (statements : Statements all row)
    {depth room fuel : Nat} (deep : room ≤ depth) (enough : room ≤ fuel) :
    Breaks room (Parser.statements (assignment depth) fuel) row := by
  induction statements generalizing room fuel with
  | nil =>
      intro lexemes more split proper _
      exact absurd (List.append_eq_nil_iff.mp split).2 proper
  | skip others ih =>
      refine Breaks.loop _ (Parser.calm_statements 0) enough fun fuel enough => ?_
      have others := ih (Nat.le_trans (Nat.sub_le room 1) deep) (Nat.sub_le_of_le_add enough)
      exact .token (Parser.calm_statements _) (apart_token (by simp) (by simp) _)
        (fun _ _ => rfl) fun _ => others
  | @last statement row phrase =>
      refine Breaks.loop _ (Parser.calm_statements 0) enough fun fuel _ => ?_
      apply Breaks.remaining
      intro count less
      split
      next none => exact none ▸ .zero (.pure []) _
      apply Breaks.skip
      · exact fun same => phrase.ne_close rfl _ same rfl
      have first := (phrase.falters.whole depth).weaken (Nat.le_trans less deep)
      exact first.thenCalm fun statement => .remaining (.pure [statement])
  | @more statement statements row others phrase rest ih =>
      refine Breaks.loop _ (Parser.calm_statements 0) enough fun fuel enough => ?_
      apply Breaks.remaining
      intro count less
      split
      next none => exact none ▸ .zero (.pure []) _
      apply Breaks.skip
      · rw [headPunct_append phrase.front.filled]
        exact fun same => phrase.ne_close rfl _ same rfl
      have first := (phrase.falters.whole depth).weaken (Nat.le_trans less deep)
      apply first.bind
      · exact fun room => phrase.reads.whole depth (by omega)
      · exact fun cut begins => (follows_free rfl _).cut begins
      · exact phrase.apart (by simp [headPunct])
      · apply Breaks.remaining
        intro left fewer
        split
        next none => exact none ▸ .zero (.pure [statement]) _
        apply Breaks.expect _ (apart_token (by simp) (by simp) _)
        exact (ih (by omega) (by omega)).yield
      · exact fun statement => .remaining (.pure [statement])

/-- A program that is cut short halts. -/
theorem program_halts {all : List Expr} {cut : List Lexeme} {more : List Token}
    (statements : Statements all (cut.map Lexeme.token ++ more)) (proper : more ≠ []) :
    Halts (Torn (cut.map Lexeme.token) more) (Parser.program cut) := by
  have deep : cut.length ≤ cut.length + 1 := Nat.le_succ _
  have halts := statements.breaks deep (Nat.le_refl _) cut more rfl proper (Nat.le_refl _)
  exact halts.bind fun all => .pure (joinStatements all)

/-- Whether the outcome of reading a program blames no token: it is an expression, or the end of the
text is missed, or a target cannot be assigned to. -/
def BlamesNoToken (outcome : Except EvalFault Expr) : Prop :=
  (∃ program, outcome = .ok program) ∨ outcome = .error .unexpectedEnd ∨
    outcome = .error .invalidAssignmentTarget

/-- Where a program is cut short, no token of what is left is blamed if and only if the cut tears
nothing. -/
theorem cut_blames_no_token_iff {source : String} {program : Expr} {cut more : List Lexeme}
    (parsed : parse source = .ok program)
    (lexed : Lexeme.ofText source.toList = .ok (cut ++ more)) (proper : more ≠ []) :
    (BlamesNoToken (ofTokens cut) ↔ ¬Torn (cut.map Lexeme.token) (more.map Lexeme.token)) ∧
      (Torn (cut.map Lexeme.token) (more.map Lexeme.token) → ∃ offset expected token,
        ofTokens cut = .error (.unexpectedToken offset expected token)) := by
  obtain ⟨lexemes, same, read⟩ := parse_eq_ok_iff.mp parsed
  obtain rfl := Except.ok.inj (lexed.symm.trans same)
  obtain ⟨all, statements, -⟩ := ofTokens_eq_ok_iff.mp read
  rw [List.map_append] at statements
  have halts := program_halts statements (by simpa using proper)
  rw [BlamesNoToken, ofTokens]
  generalize Parser.program cut = outcome at halts
  cases halts with
  | whole fair tree => simp [Except.map, fair]
  | ends fair => simp [Except.map, fair]
  | target fair => simp [Except.map, fair]
  | stray unfair offset expected token => simp [Except.map, unfair]

/-- The call `f(a, b)`, cut behind the comma between its arguments. -/
theorem open_call_blames_no_token :
    parse "f(a, b)" = .ok (.call (.ident "f") [.ident "a", .ident "b"]) ∧
      BlamesNoToken (ofTokens [⟨.ident "f", 0⟩, ⟨.punct .leftParen, 1⟩, ⟨.ident "a", 2⟩,
        ⟨.punct .comma, 3⟩]) := by
  have lexed : Lexeme.ofText "f(a, b)".toList = .ok ([⟨.ident "f", 0⟩, ⟨.punct .leftParen, 1⟩,
      ⟨.ident "a", 2⟩, ⟨.punct .comma, 3⟩] ++ [⟨.ident "b", 5⟩, ⟨.punct .rightParen, 6⟩]) := rfl
  have parsed : parse "f(a, b)" = .ok (.call (.ident "f") [.ident "a", .ident "b"]) :=
    parse_eq_ok_iff.mpr ⟨_, lexed, rfl⟩
  have fair : ¬Torn [.ident "f", .punct .leftParen, .ident "a", .punct .comma]
      [.ident "b", .punct .rightParen] := not_torn_of_noArrow (by simp) (by simp)
  exact ⟨parsed, (cut_blames_no_token_iff parsed lexed (by simp)).1.mpr fair⟩

/-- In `a.b` without its last name the dot is blamed, and in `(a, b) => c` the first comma, if the
text ends there. -/
theorem last_token_is_blamed :
    (parse "a.b" = .ok (.member (.ident "a") "b") ∧
      Lexeme.ofText "a.b".toList =
        .ok ([⟨.ident "a", 0⟩, ⟨.punct .dot, 1⟩] ++ [⟨.ident "b", 2⟩]) ∧
      ofTokens [⟨.ident "a", 0⟩, ⟨.punct .dot, 1⟩] =
        .error (.unexpectedToken 1 .propertyName (.punct .dot))) ∧
    parse "(a, b) => c" = .ok (.arrow ["a", "b"] (.ident "c")) ∧
      Lexeme.ofText "(a, b) => c".toList =
        .ok ([⟨.punct .leftParen, 0⟩, ⟨.ident "a", 1⟩, ⟨.punct .comma, 2⟩] ++
          [⟨.ident "b", 4⟩, ⟨.punct .rightParen, 5⟩, ⟨.punct .arrow, 7⟩, ⟨.ident "c", 10⟩]) ∧
      ofTokens [⟨.punct .leftParen, 0⟩, ⟨.ident "a", 1⟩, ⟨.punct .comma, 2⟩] =
        .error (.unexpectedToken 2 .closingParen (.punct .comma)) := by
  have dotted : Lexeme.ofText "a.b".toList =
      .ok [⟨.ident "a", 0⟩, ⟨.punct .dot, 1⟩, ⟨.ident "b", 2⟩] := rfl
  have arrow : Lexeme.ofText "(a, b) => c".toList = .ok [⟨.punct .leftParen, 0⟩, ⟨.ident "a", 1⟩,
      ⟨.punct .comma, 2⟩, ⟨.ident "b", 4⟩, ⟨.punct .rightParen, 5⟩, ⟨.punct .arrow, 7⟩,
      ⟨.ident "c", 10⟩] := rfl
  exact ⟨⟨parse_eq_ok_iff.mpr ⟨_, dotted, rfl⟩, dotted, rfl⟩,
    parse_eq_ok_iff.mpr ⟨_, arrow, rfl⟩, arrow, rfl⟩

end Expr

end LiveMarkup
