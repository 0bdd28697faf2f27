import LiveMarkup.Proofs.Expr.Phrase

/-!
# What is read is a phrase

Whatever a reader accepts stands for the tokens that it took: each reader yields phrases of its own
level if the reader of whole assignments that it is built over yields phrases.  Together with the
converse, that every phrase is read, this says exactly which rows of tokens are programs and what
they stand for.
-/

namespace LiveMarkup

open LiveMarkup.Expr (Phrase Listed Field Head)

namespace Parser

variable {α β : Type}

/-- Whether what a reader gives for a row of tokens stands for the tokens that it took. -/
def SpansAt (reader : Parser α) (stands : α → List Token → Prop) (lexemes : List Lexeme) : Prop :=
  ∀ result rest, reader lexemes = .ok (result, rest) →
    ∃ taken, lexemes = taken ++ rest ∧ stands result (taken.map Lexeme.token)

/-- Whether whatever a reader gives stands for the tokens that it took. -/
def Spans (reader : Parser α) (stands : α → List Token → Prop) : Prop :=
  ∀ lexemes, SpansAt reader stands lexemes

/-! ## Steps -/

theorem of_bind {reader : Parser α} {later : α → Parser β} {lexemes rest : List Lexeme} {b : β}
    (read : (reader >>= later) lexemes = .ok (b, rest)) :
    ∃ a between, reader lexemes = .ok (a, between) ∧ later a between = .ok (b, rest) := by
  change ((reader lexemes).bind fun read => later read.1 read.2) = _ at read
  cases given : reader lexemes with
  | error fault =>
      rw [given] at read
      cases read
  | ok between =>
      rw [given] at read
      exact ⟨between.1, between.2, rfl, read⟩

section Steps

variable {stands : β → List Token → Prop} {lexemes : List Lexeme}

/-- A reader that gives what another one gives behind some tokens stands for these as well. -/
theorem SpansAt.shift {reader other : Parser β} (row : List Lexeme) {rest : List Lexeme}
    (same : reader (row ++ rest) = other rest)
    (spans : SpansAt other (fun b more => stands b (row.map Lexeme.token ++ more)) rest) :
    SpansAt reader stands (row ++ rest) := by
  intro result left read
  rw [same] at read
  obtain ⟨taken, rfl, holds⟩ := spans result left read
  refine ⟨row ++ taken, (List.append_assoc row taken left).symm, ?_⟩
  rw [List.map_append]
  exact holds

theorem SpansAt.advance {later : Unit → Parser β} {p : Punct}
    (here : headPunct (lexemes.map Lexeme.token) = some p)
    (second : Spans (later ()) fun b more => stands b (.punct p :: more)) :
    SpansAt (Parser.advance >>= later) stands lexemes := by
  match lexemes with
  | [] => cases here
  | ⟨.number _, _⟩ :: _ | ⟨.string _, _⟩ :: _ | ⟨.ident _, _⟩ :: _ => cases here
  | ⟨.punct q, offset⟩ :: rest =>
      obtain rfl : q = p := Option.some.inj here
      exact SpansAt.shift [⟨.punct q, offset⟩] rfl (second rest)

namespace Spans

theorem pure {b : β} (holds : stands b []) : Spans (Pure.pure b) stands := by
  intro lexemes result rest read
  cases read
  exact ⟨[], rfl, holds⟩

theorem throw (fault : EvalFault) : Spans (throw fault) stands := by
  intro lexemes result rest read
  cases read

theorem weaken {other : β → List Token → Prop} {reader : Parser β} (spans : Spans reader other)
    (fits : ∀ b row, other b row → stands b row) : Spans reader stands := by
  intro lexemes result rest read
  obtain ⟨taken, split, holds⟩ := spans lexemes result rest read
  exact ⟨taken, split, fits _ _ holds⟩

theorem bind {reader : Parser α} {later : α → Parser β} {before : α → List Token → Prop}
    (first : Spans reader before)
    (second : ∀ a row, before a row → Spans (later a) fun b more => stands b (row ++ more)) :
    Spans (reader >>= later) stands := by
  intro lexemes result rest read
  obtain ⟨a, between, given, later⟩ := of_bind read
  obtain ⟨front, rfl, holds⟩ := first lexemes a between given
  obtain ⟨back, split, stood⟩ := second _ _ holds between result rest later
  refine ⟨front ++ back, ?_, ?_⟩
  · rw [split, List.append_assoc]
  · rw [List.map_append]
    exact stood

theorem yield {reader : Parser α} {make : α → β}
    (first : Spans reader fun a row => stands (make a) row) :
    Spans (do return make (← reader)) stands := by
  apply first.bind
  intro a row holds
  apply pure
  rw [List.append_nil]
  exact holds

theorem remaining {later : Nat → Parser β} (each : ∀ count, Spans (later count) stands) :
    Spans (Parser.remaining >>= later) stands :=
  fun lexemes => each lexemes.length lexemes

/-- What comes next may decide. -/
theorem peek {later : Option Punct → Parser β}
    (each : ∀ head lexemes, headPunct (lexemes.map Lexeme.token) = head →
      SpansAt (later head) stands lexemes) : Spans (peekPunct >>= later) stands := by
  intro lexemes
  have seen : (peekPunct >>= later) lexemes =
      later (headPunct (lexemes.map Lexeme.token)) lexemes := by
    match lexemes with
    | [] => rfl
    | ⟨.number _, _⟩ :: _ | ⟨.string _, _⟩ :: _ | ⟨.ident _, _⟩ :: _ | ⟨.punct _, _⟩ :: _ => rfl
  intro result rest read
  rw [seen] at read
  exact each _ lexemes rfl result rest read

theorem next {later : Option Lexeme → Parser β} (ends : Spans (later none) stands)
    (each : ∀ token offset,
      Spans (later (some ⟨token, offset⟩)) fun b more => stands b (token :: more)) :
    Spans (Parser.next >>= later) stands := by
  intro lexemes
  match lexemes with
  | [] => exact ends []
  | ⟨token, offset⟩ :: rest =>
      exact SpansAt.shift [⟨token, offset⟩] rfl (each token offset rest)

theorem eaten (p : Punct) :
    Spans (Parser.eat p) fun yes row => row = if yes then [.punct p] else [] := by
  intro lexemes result rest read
  unfold Parser.eat at read
  split at read
  next q offset others =>
    split at read
    next same =>
      cases read
      subst same
      exact ⟨[⟨.punct q, offset⟩], rfl, rfl⟩
    next =>
      cases read
      exact ⟨[], rfl, rfl⟩
  next =>
    cases read
    exact ⟨[], rfl, rfl⟩

theorem eat {later : Bool → Parser β} {p : Punct}
    (taken : Spans (later true) fun b more => stands b (.punct p :: more))
    (left : Spans (later false) stands) : Spans (Parser.eat p >>= later) stands := by
  apply (eaten p).bind
  rintro (_ | _) - rfl
  · exact left
  · exact taken

theorem expected (p : Punct) (expected : Expectation) :
    Spans (Parser.expect p expected) fun _ row => row = [.punct p] := by
  apply Spans.eat
  · exact .pure rfl
  · intro lexemes result rest read
    cases lexemes <;> cases read

theorem expect {later : Unit → Parser β} {p : Punct} (expected : Expectation)
    (second : Spans (later ()) fun b more => stands b (.punct p :: more)) :
    Spans (Parser.expect p expected >>= later) stands := by
  apply (Spans.expected p expected).bind
  rintro - row rfl
  exact second

end Spans

end Steps

/-! ## Lists -/

/-- Whether results stand for a row of tokens that lists them up to a closing token. -/
def Closes (close : Punct) (stands : α → List Token → Prop) (results : List α)
    (row : List Token) : Prop :=
  ∃ (items : List (Item α)) (inner : List Token), Listed items inner ∧
    (∀ item ∈ items, stands item.1 item.2) ∧ results = items.map Prod.fst ∧
    row = inner ++ [.punct close]

theorem spans_listItems {stands : α → List Token → Prop} {item : Parser α}
    (each : Spans item stands) (close : Punct) (fuel : Nat) :
    Spans (listItems close item fuel) (Closes close stands) := by
  induction fuel with
  | zero => exact .throw _
  | succ fuel ih =>
      apply Spans.eat
      · exact .pure ⟨[], [], .nil, fun _ member => (List.not_mem_nil member).elim, rfl, rfl⟩
      apply each.bind
      intro first row holds
      apply Spans.eat
      · apply Spans.yield
        apply ih.weaken
        rintro results more ⟨items, inner, listed, stood, rfl, rfl⟩
        refine ⟨(first, row) :: items, row ++ .punct .comma :: inner, .cons (first, row) listed,
          List.forall_mem_cons.mpr ⟨holds, stood⟩, rfl, ?_⟩
        simp
      · apply Spans.expect
        apply Spans.pure
        exact ⟨[(first, row)], row, .last (first, row), List.forall_mem_singleton.mpr holds, rfl,
          rfl⟩

theorem spans_list {stands : α → List Token → Prop} {item : Parser α} (each : Spans item stands)
    (close : Punct) : Spans (list close item) (Closes close stands) :=
  .remaining fun _ => spans_listItems each close _

/-! ## Levels over a reader of whole assignments -/

/-- Whether an entry of an object stands for a row of tokens. -/
def FieldStands (entry : String × Expr) (row : List Token) : Prop :=
  ∃ field : Field, field.item = (entry, row) ∧
    ∀ token key keys value row, field = .keyed token key keys value row → Phrase 9 value row

/-- Fields one by one are the fields of an object. -/
theorem exists_fields {items : List (Item (String × Expr))}
    (each : ∀ item ∈ items, FieldStands item.1 item.2) :
    ∃ fields : List Field, fields.map Field.item = items ∧
      ∀ token key keys value row, .keyed token key keys value row ∈ fields →
        Phrase 9 value row := by
  induction items with
  | nil => exact ⟨[], rfl, fun _ _ _ _ _ member => (List.not_mem_nil member).elim⟩
  | cons item items ih =>
      obtain ⟨⟨field, same, phrase⟩, others⟩ := List.forall_mem_cons.mp each
      obtain ⟨fields, rfl, phrases⟩ := ih others
      refine ⟨field :: fields, by rw [List.map_cons, same], ?_⟩
      intro token key keys value row member
      rcases List.mem_cons.mp member with rfl | later
      · exact phrase token key keys value row rfl
      · exact phrases token key keys value row later

section Levels

variable {whole : Parser Expr} (each : Spans whole (Phrase 9))

include each

theorem spans_property : Spans (property whole) FieldStands := by
  have keyed {token : Token} {key : String} (keys : token.key? = some key) :
      Spans (do return (key, ← whole)) fun entry more =>
        FieldStands entry (token :: .punct .colon :: more) := by
    apply Spans.yield
    apply each.weaken
    intro value row phrase
    refine ⟨.keyed token key keys value row, rfl, ?_⟩
    intro _ _ _ _ _ same
    cases same
    exact phrase
  apply Spans.next
  · exact .throw _
  · intro token offset
    cases token with
    | ident name =>
        apply Spans.eat
        · exact keyed rfl
        · exact .pure ⟨.alone name, rfl, fun _ _ _ _ _ same => nomatch same⟩
    | string text => exact .expect _ (keyed rfl)
    | number value => exact .expect _ (keyed rfl)
    | punct p => exact .throw _

theorem spans_primary : Spans (primary whole) (Phrase 0) := by
  apply Spans.next
  · exact .throw _
  · intro token offset
    cases token with
    | number value => exact .pure (.number 0 value)
    | string text => exact .pure (.string 0 text)
    | ident name => exact .pure (.name 0 name)
    | punct p =>
        cases p with
        | leftParen =>
            apply each.bind
            intro inner row phrase
            exact .expect _ (.pure (.parens 0 phrase))
        | leftBracket =>
            apply Spans.yield
            apply (spans_list each _).weaken
            rintro - - ⟨items, inner, listed, phrases, rfl, rfl⟩
            exact .array 0 listed phrases
        | leftBrace =>
            apply Spans.yield
            apply (spans_list (spans_property each) _).weaken
            rintro - - ⟨items, inner, listed, stood, rfl, rfl⟩
            obtain ⟨fields, rfl, phrases⟩ := exists_fields stood
            exact .object 0 listed phrases
        | _ => exact .throw _

omit each in
theorem spans_memberName (dot : Lexeme) :
    Spans (memberName dot) fun name row => row = [.ident name] := by
  apply Spans.next
  · exact .throw _
  · intro token offset
    cases token with
    | ident name => exact .pure rfl
    | _ => exact .throw _

theorem spans_accesses (fuel : Nat) {base : Expr} {row : List Token} (phrase : Phrase 0 base row) :
    Spans (accesses whole fuel base) fun expr more => Phrase 0 expr (row ++ more) := by
  induction fuel generalizing base row with
  | zero =>
      apply Spans.pure
      rw [List.append_nil]
      exact phrase
  | succ fuel ih =>
      have stays (lexemes : List Lexeme)
          (same : accesses whole (fuel + 1) base lexemes = .ok (base, lexemes)) :
          SpansAt (accesses whole (fuel + 1) base)
            (fun expr more => Phrase 0 expr (row ++ more)) lexemes := by
        intro result rest read
        cases same.symm.trans read
        exact ⟨[], rfl, by simpa using phrase⟩
      intro lexemes
      match lexemes with
      | [] => exact stays _ rfl
      | ⟨.number _, _⟩ :: _ | ⟨.string _, _⟩ :: _ | ⟨.ident _, _⟩ :: _ => exact stays _ rfl
      | ⟨.punct p, offset⟩ :: rest =>
          cases p with
          | dot =>
              refine SpansAt.shift [⟨.punct .dot, offset⟩] rfl
                ((spans_memberName ⟨.punct .dot, offset⟩).bind ?_ rest)
              rintro name - rfl
              simpa using ih (.member 0 phrase name)
          | leftBracket =>
              refine SpansAt.shift [⟨.punct .leftBracket, offset⟩] rfl (each.bind ?_ rest)
              intro place placeRow at_
              apply Spans.expect
              simpa using ih (.index 0 phrase at_)
          | leftParen =>
              refine SpansAt.shift [⟨.punct .leftParen, offset⟩] rfl
                ((spans_list each .rightParen).bind ?_ rest)
              rintro - - ⟨args, inner, listed, phrases, rfl, rfl⟩
              simpa using ih (.call 0 phrase listed phrases)
          | _ => exact stays _ rfl

theorem spans_callOrMember : Spans (callOrMember whole) (Phrase 0) := by
  apply (spans_primary each).bind
  intro base row phrase
  exact .remaining fun _ => spans_accesses each _ phrase

omit each in
theorem spans_update (step : Step) (before : Bool) (target : Expr) :
    Spans (update step before target) fun expr row =>
      expr = .update step before target ∧ target.isAssignable = true ∧ row = [] := by
  unfold update
  split
  next assignable => exact .pure ⟨rfl, assignable, rfl⟩
  next => exact .throw _

theorem spans_postfixUpdate : Spans (postfixUpdate whole) (Phrase 1) := by
  apply (spans_callOrMember each).bind
  intro base row phrase
  have updates (step : Step) : Spans (update step false base) fun expr more =>
      Phrase 1 expr (row ++ .punct step.punct :: more) := by
    apply (spans_update step false base).weaken
    rintro - - ⟨rfl, assignable, rfl⟩
    exact .updateAfter (Nat.le_refl 1) step assignable phrase
  apply Spans.peek
  intro head lexemes here
  split
  · exact .advance here (updates .up)
  · exact .advance here (updates .down)
  · apply Spans.pure
    simpa using phrase.loosen (Nat.zero_le 1) (by decide)

theorem spans_unary (fuel : Nat) : Spans (unary whole fuel) (Phrase 2) := by
  have plain : Spans (postfixUpdate whole) (Phrase 2) :=
    (spans_postfixUpdate each).weaken fun _ _ phrase => phrase.loosen (by decide) (by decide)
  induction fuel with
  | zero => exact plain
  | succ fuel ih =>
      have operator (op : UnaryOp) : Spans (do return .unary op (← unary whole fuel))
          fun expr more => Phrase 2 expr (.punct op.punct :: more) :=
        .yield (ih.weaken fun _ _ phrase => .unary (Nat.le_refl 2) op phrase)
      have updates (step : Step) : Spans (do update step true (← unary whole fuel))
          fun expr more => Phrase 2 expr (.punct step.punct :: more) := by
        apply ih.bind
        intro target row phrase
        apply (spans_update step true target).weaken
        rintro - - ⟨rfl, assignable, rfl⟩
        simpa using .updateBefore (Nat.le_refl 2) step assignable phrase
      apply Spans.peek
      intro head lexemes here
      split
      · exact .advance here (operator .not)
      · exact .advance here (operator .neg)
      · exact .advance here (operator .plus)
      · exact .advance here (updates .up)
      · exact .advance here (updates .down)
      · exact plain lexemes

theorem spans_operand : Spans (operand whole) (Phrase 2) :=
  .remaining fun _ => spans_unary each _

omit each in
theorem spans_chain {tighter : Parser Expr} {n : Nat}
    (operands : Spans tighter (Phrase (n + 2))) (fuel : Nat) {left : Expr} {row : List Token}
    (phrase : Phrase (n + 3) left row) :
    Spans (chain tighter (joins? (n + 3)) fuel left) fun expr more =>
      Phrase (n + 3) expr (row ++ more) := by
  induction fuel generalizing left row with
  | zero =>
      apply Spans.pure
      simpa using phrase
  | succ fuel ih =>
      apply Spans.peek
      intro head lexemes here
      split
      next join found =>
        obtain ⟨p, rfl, found⟩ := Option.bind_eq_some_iff.mp found
        apply SpansAt.advance here
        apply operands.bind
        intro right second rightPhrase
        simpa using ih (.join found (Nat.le_refl _) phrase rightPhrase)
      next =>
        apply Spans.pure
        simpa using phrase

/-- Each level gives phrases that are as loose as the level. -/
theorem spans_level {n : Nat} (tight : n ≤ 8) : Spans (level whole n) (Phrase n) := by
  induction n using level.induct with
  | case1 => exact spans_callOrMember each
  | case2 => exact spans_postfixUpdate each
  | case3 => exact spans_operand each
  | case4 n ih =>
      have operands : Spans (level whole (n + 2)) (Phrase (n + 2)) := ih (by omega)
      apply operands.bind
      intro left row phrase
      exact .remaining fun _ =>
        spans_chain operands _ (phrase.loosen (Nat.le_succ _) (by omega))

/-- What is read where a conditional may stand is a conditional or tighter. -/
theorem spans_conditional : Spans (conditional whole) fun expr row =>
    Phrase 9 expr row ∧ (expr.isAssignable = true → Phrase 8 expr row) := by
  have test : Spans (disjunction whole) (Phrase 8) := spans_level each (Nat.le_refl 8)
  apply test.bind
  intro test first testPhrase
  apply Spans.eat
  · apply each.bind
    intro consequent second consequentPhrase
    apply Spans.expect
    apply Spans.yield
    apply each.weaken
    intro alternate third alternatePhrase
    have phrase := Phrase.conditional testPhrase consequentPhrase alternatePhrase
    exact ⟨phrase, fun assignable => nomatch assignable⟩
  · apply Spans.pure
    rw [List.append_nil]
    exact ⟨testPhrase.loosen (by decide) (by decide), fun _ => testPhrase⟩

end Levels

/-! ## Arrow functions and assignments -/

/-- The names that end the head of an arrow function have commas between them and are no names of
constants. -/
theorem commas_of_arrowNames {lexemes rest : List Lexeme} {params : List String}
    (found : arrowNames lexemes = some (params, rest)) :
    ∃ param others taken, params = param :: others ∧ lexemes = taken ++ rest ∧
      (∀ name ∈ params, isKeyword name = false) ∧
      taken.map Lexeme.token = commas (params.map fun name => [.ident name]) ++
        [.punct .rightParen, .punct .arrow] := by
  induction lexemes using arrowNames.induct generalizing params with
  | case1 name offset₁ offset₂ others keyword => simp [arrowNames, keyword] at found
  | case2 name offset₁ offset₂ others plain ih =>
      simp only [arrowNames, plain, Bool.false_eq_true, if_false, Option.map_eq_some_iff] at found
      obtain ⟨⟨names, left⟩, found, same⟩ := found
      cases same
      obtain ⟨param, more, taken, rfl, rfl, valid, row⟩ := ih found
      refine ⟨name, param :: more,
        ⟨.ident name, offset₁⟩ :: ⟨.punct .comma, offset₂⟩ :: taken, rfl, rfl, ?_, ?_⟩
      · exact List.forall_mem_cons.mpr ⟨Bool.not_eq_true _ ▸ plain, valid⟩
      · simp only [List.map_cons, row, commas, separated_cons_cons]
        rfl
  | case3 name offset₁ offset₂ offset₃ others keyword => simp [arrowNames, keyword] at found
  | case4 name offset₁ offset₂ offset₃ others plain =>
      simp only [arrowNames, plain, Bool.false_eq_true, if_false, Option.some.injEq] at found
      cases found
      refine ⟨name, [],
        [⟨.ident name, offset₁⟩, ⟨.punct .rightParen, offset₂⟩, ⟨.punct .arrow, offset₃⟩], rfl, rfl,
        ?_, ?_⟩
      · exact List.forall_mem_singleton.mpr (Bool.not_eq_true _ ▸ plain)
      · simp
  | case5 lexemes names last => simp [arrowNames] at found

/-- What is taken for the head of an arrow function is one. -/
theorem head_of_arrowHead? {lexemes rest : List Lexeme} {params : List String}
    (found : arrowHead? lexemes = some (params, rest)) :
    ∃ taken, lexemes = taken ++ rest ∧ Head params (taken.map Lexeme.token) ∧
      ∀ param ∈ params, isKeyword param = false := by
  unfold arrowHead? at found
  split at found
  next name offset₁ offset₂ others =>
      split at found
      next => cases found
      next plain =>
        cases found
        refine ⟨[⟨.ident name, offset₁⟩, ⟨.punct .arrow, offset₂⟩], rfl, .single name, ?_⟩
        exact List.forall_mem_singleton.mpr (Bool.not_eq_true _ ▸ plain)
  next offset₁ offset₂ offset₃ others =>
      cases found
      exact ⟨[⟨.punct .leftParen, offset₁⟩, ⟨.punct .rightParen, offset₂⟩,
        ⟨.punct .arrow, offset₃⟩], rfl, .several [], fun _ member => nomatch member⟩
  next offset others _ =>
      obtain ⟨param, more, taken, rfl, rfl, valid, row⟩ := commas_of_arrowNames found
      refine ⟨⟨.punct .leftParen, offset⟩ :: taken, rfl, ?_, valid⟩
      rw [List.map_cons, row]
      exact .several _
  next => cases found

theorem Spans.head {stands : β → List Token → Prop} {later : Option (List String) → Parser β}
    (arrow : ∀ params row, Head params row → (∀ param ∈ params, isKeyword param = false) →
      Spans (later (some params)) fun b more => stands b (row ++ more))
    (plain : Spans (later none) stands) : Spans (arrowHead >>= later) stands := by
  intro lexemes
  cases found : arrowHead? lexemes with
  | none =>
      intro result rest read
      change ((arrowHead lexemes).bind fun read => later read.1 read.2) = _ at read
      rw [arrowHead, found] at read
      exact plain lexemes result rest read
  | some head =>
      obtain ⟨taken, rfl, written, valid⟩ := head_of_arrowHead? found
      have read : (arrowHead >>= later) (taken ++ head.2) = later (some head.1) head.2 := by
        change ((arrowHead (taken ++ head.2)).bind fun read => later read.1 read.2) = _
        rw [arrowHead, found]
        rfl
      exact SpansAt.shift taken read (arrow head.1 _ written valid head.2)

/-- Whole assignments are phrases, however deep they nest. -/
theorem spans_assignment (depth : Nat) : Spans (assignment depth) (Phrase 9) := by
  induction depth with
  | zero => exact .throw _
  | succ depth ih =>
      apply Spans.head
      · intro params row written valid
        exact .yield (ih.weaken fun _ _ phrase => .arrow written valid phrase)
      apply (spans_conditional ih).bind
      rintro target row ⟨phrase, tight⟩
      apply Spans.peek
      intro head lexemes here
      split
      next =>
        apply Spans.pure
        simpa using phrase
      next op found =>
        obtain ⟨p, rfl, found⟩ := Option.bind_eq_some_iff.mp found
        split
        next assignable =>
          apply SpansAt.advance here
          exact .yield (ih.weaken fun _ _ valuePhrase =>
            .assign found assignable (tight assignable) valuePhrase)
        next => exact Spans.throw _ lexemes

end Parser

namespace Expr

open LiveMarkup.Parser (Spans spans_assignment Takes follows_free headPunct)

/-! ## Programs -/

/-- Whether a row of tokens stands for statements: there are semicolons between them, and there may
be more around them or in a row. -/
inductive Statements : List Expr → List Token → Prop
  /-- No statements. -/
  | nil : Statements [] []
  /-- A semicolon before the next statement. -/
  | skip {statements : List Expr} {row : List Token} (others : Statements statements row) :
      Statements statements (.punct .semicolon :: row)
  /-- The last statement need not end with a semicolon. -/
  | last {statement : Expr} {row : List Token} (phrase : Phrase 9 statement row) :
      Statements [statement] row
  /-- Behind a semicolon the others follow, if there are any. -/
  | more {statement : Expr} {statements : List Expr} {row others : List Token}
      (phrase : Phrase 9 statement row) (rest : Statements statements others) :
      Statements (statement :: statements) (row ++ .punct .semicolon :: others)

/-- The statements that are read stand for the tokens that were taken. -/
theorem spans_statements (depth fuel : Nat) :
    Spans (Parser.statements (Parser.assignment depth) fuel) Statements := by
  induction fuel with
  | zero => exact .pure .nil
  | succ fuel ih =>
      apply Spans.remaining
      intro count
      split
      next => exact .pure .nil
      next =>
        apply Spans.eat
        · exact ih.weaken fun _ _ others => .skip others
        apply (spans_assignment depth).bind
        intro first row phrase
        apply Spans.remaining
        intro count
        split
        next =>
          apply Spans.pure
          simpa using .last phrase
        next => exact .expect _ (.yield (ih.weaken fun _ _ others => .more phrase others))

/-- Statements are read up to the last token: each step takes at least one. -/
theorem rest_of_statements {depth fuel : Nat} {lexemes rest : List Lexeme} {all : List Expr}
    (read : Parser.statements (Parser.assignment depth) fuel lexemes = .ok (all, rest))
    (enough : lexemes.length ≤ fuel) : rest = [] := by
  induction fuel generalizing lexemes all with
  | zero =>
      cases read
      exact List.length_eq_zero_iff.mp (Nat.le_zero.mp enough)
  | succ fuel ih =>
      obtain ⟨_, _, ⟨⟩, afterCount⟩ := Parser.of_bind read
      split at afterCount
      next none =>
        cases afterCount
        exact List.length_eq_zero_iff.mp none
      next =>
        obtain ⟨skipped, behind, ate, afterEat⟩ := Parser.of_bind afterCount
        obtain ⟨taken, rfl, row⟩ := Spans.eaten _ _ _ _ ate
        rw [List.length_append] at enough
        cases skipped with
        | true =>
            have one : taken.length = 1 := by simpa using congrArg List.length row
            exact ih afterEat (by omega)
        | false =>
            obtain ⟨first, others, parsed, afterFirst⟩ := Parser.of_bind afterEat
            obtain ⟨front, rfl, phrase⟩ := spans_assignment depth _ _ _ parsed
            have some : 0 < front.length := by
              simpa [List.length_pos_iff] using phrase.front.filled
            rw [List.length_append] at enough
            obtain ⟨_, _, ⟨⟩, afterRest⟩ := Parser.of_bind afterFirst
            split at afterRest
            next none =>
              cases afterRest
              exact List.length_eq_zero_iff.mp none
            next =>
              obtain ⟨_, more, ended, afterEnd⟩ := Parser.of_bind afterRest
              obtain ⟨semicolon, rfl, -⟩ := Spans.expected _ _ _ _ _ ended
              obtain ⟨tokens, left, parsedMore, ⟨⟩⟩ := Parser.of_bind afterEnd
              rw [List.length_append] at enough
              exact ih parsedMore (by omega)

/-- Statements are read as such up to the end. -/
theorem Statements.takes {all : List Expr} {row : List Token} (statements : Statements all row)
    {depth fuel : Nat} (room : row.length ≤ depth) (enough : row.length ≤ fuel) :
    Takes (Parser.statements (Parser.assignment depth) fuel) row all (· = []) := by
  induction statements generalizing fuel with
  | nil =>
      cases fuel with
      | zero => exact .pure []
      | succ fuel => exact .remainingAtEnd (.pure [])
  | skip others ih =>
      rw [List.length_cons] at room enough
      obtain ⟨fuel, rfl⟩ := Nat.exists_eq_add_of_le' (Nat.le_trans (Nat.le_add_left 1 _) enough)
      rw [Parser.statements]
      apply Takes.remainingAtEnd
      exact .eat (ih (by omega) (by omega))
  | @last statement row phrase =>
      have first := phrase.reads.whole depth room
      have some : 0 < row.length := List.length_pos_iff.mpr phrase.front.filled
      obtain ⟨fuel, rfl⟩ := Nat.exists_eq_add_of_le' (Nat.le_trans some enough)
      rw [Parser.statements]
      apply Takes.remainingAtEnd
      rw [if_neg (by omega)]
      apply Takes.skip
      · intro rest _
        rw [headPunct_append phrase.front.filled]
        exact fun same => phrase.ne_close rfl _ same rfl
      apply first.thenNothing
      · exact .remainingAtEnd (.pure [statement])
      · rintro rest rfl p bound head
        cases head
  | @more statement statements row others phrase rest ih =>
      rw [List.length_append, List.length_cons] at room enough
      have first := phrase.reads.whole depth (by omega)
      obtain ⟨fuel, rfl⟩ := Nat.exists_eq_add_of_le' (by omega : 1 ≤ fuel)
      rw [Parser.statements]
      apply Takes.remaining
      intro count many
      rw [List.length_append, List.length_cons] at many
      rw [if_neg (by omega)]
      apply Takes.skip
      · intro rest _
        rw [List.append_assoc, headPunct_append phrase.front.filled]
        exact fun same => phrase.ne_close rfl _ same rfl
      apply first.bind
      · apply Takes.remaining
        intro left some
        rw [List.length_cons] at some
        rw [if_neg (by omega)]
        exact .expect _ (ih (by omega) (by omega)).yield
      · exact fun rest _ => follows_free rfl _

/-- A program reads all of its tokens as statements. -/
theorem statements_of_program {lexemes rest : List Lexeme} {expr : Expr}
    (read : Parser.program lexemes = .ok (expr, rest)) :
    rest = [] ∧ ∃ all, Statements all (lexemes.map Lexeme.token) ∧
      expr = Parser.joinStatements all := by
  obtain ⟨_, _, ⟨⟩, afterCount⟩ := Parser.of_bind read
  obtain ⟨all, left, parsed, ⟨⟩⟩ := Parser.of_bind afterCount
  obtain rfl := rest_of_statements parsed (Nat.le_refl _)
  obtain ⟨taken, rfl, statements⟩ := spans_statements _ _ _ _ _ parsed
  rw [List.append_nil]
  exact ⟨rfl, all, statements, rfl⟩

/-- A row of tokens is read as an expression if and only if it stands for the statements of that
expression. -/
theorem ofTokens_eq_ok_iff {lexemes : List Lexeme} {expr : Expr} :
    ofTokens lexemes = .ok expr ↔
      ∃ all, Statements all (lexemes.map Lexeme.token) ∧ expr = Parser.joinStatements all := by
  constructor
  · intro read
    cases given : Parser.program lexemes with
    | error fault =>
        rw [ofTokens, given] at read
        cases read
    | ok result =>
        rw [ofTokens, given] at read
        cases read
        exact (statements_of_program given).2
  · rintro ⟨all, statements, rfl⟩
    have taken : Takes Parser.program (lexemes.map Lexeme.token) (Parser.joinStatements all)
        (· = []) := by
      apply Takes.remainingAtEnd
      exact (statements.takes (Nat.le_succ _) (Nat.le_refl _)).yield
    have read := taken lexemes [] rfl rfl
    rw [List.append_nil] at read
    rw [ofTokens, read]
    rfl

theorem parse_eq_ok_iff {source : String} {expr : Expr} :
    parse source = .ok expr ↔
      ∃ lexemes, Lexeme.ofText source.toList = .ok lexemes ∧ ofTokens lexemes = .ok expr := by
  change (Lexeme.ofText source.toList).bind ofTokens = .ok expr ↔ _
  cases Lexeme.ofText source.toList with
  | error fault => simp [Except.bind]
  | ok lexemes => simp [Except.bind]

/-! ## The statements of an expression -/

/-- The statements of an expression; what is no row of statements is one statement. -/
def statements : Expr → List Expr
  | sequence all => all
  | expr => [expr]

theorem binary_or_logical {level : Nat} {p : Punct} {join : Expr → Expr → Expr}
    (found : Parser.joins? level p = some join) :
    (∃ op, join = binary op) ∨ ∃ op, join = logical op := by
  unfold Parser.joins? at found
  split at found
  all_goals cases p <;> cases found <;> simp

theorem Phrase.ne_sequence {level : Nat} {expr : Expr} {row : List Token}
    (phrase : Phrase level expr row) (all : List Expr) : expr ≠ sequence all := by
  induction phrase with
  | name level name =>
      unfold Parser.named
      repeat' split
      all_goals exact Expr.noConfusion
  | parens level inner ih => exact ih
  | join found loose leftPhrase rightPhrase =>
      rcases binary_or_logical found with ⟨op, rfl⟩ | ⟨op, rfl⟩ <;> exact Expr.noConfusion
  | _ => exact Expr.noConfusion

theorem Statements.not_sequence {all : List Expr} {row : List Token}
    (statements : Statements all row) :
    ∀ statement ∈ all, ∀ others, statement ≠ sequence others := by
  induction statements with
  | nil => exact fun _ member => nomatch member
  | skip others ih => exact ih
  | last phrase => exact List.forall_mem_singleton.mpr phrase.ne_sequence
  | more phrase rest ih => exact List.forall_mem_cons.mpr ⟨phrase.ne_sequence, ih⟩

/-- Statements that are joined are the statements of the result. -/
theorem statements_joinStatements {all : List Expr}
    (plain : ∀ statement ∈ all, ∀ others, statement ≠ sequence others) :
    (Parser.joinStatements all).statements = all := by
  unfold Parser.joinStatements
  split
  next only =>
    cases only with
    | sequence others => exact absurd rfl (plain _ List.mem_cons_self others)
    | _ => rfl
  next => rfl

end Expr

end LiveMarkup
