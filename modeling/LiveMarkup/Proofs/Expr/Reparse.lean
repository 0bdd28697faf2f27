import LiveMarkup.Proofs.Expr.Recognition

/-!
# Parsing undoes printing

Whatever is printed for an expression is read as that expression: what may be written for a
well-formed expression is one of its phrases, and what may be written for a program are its
statements.
-/

namespace LiveMarkup

open LiveMarkup.Parser (commas separated Item)

/-! ## The levels of the operators -/

theorem BinaryOp.joins (op : BinaryOp) :
    ∃ n, op.level = n + 3 ∧ n ≤ 5 ∧ Parser.joins? (n + 3) op.punct = some (.binary op) := by
  cases op <;> exact ⟨_, rfl, by decide, rfl⟩

theorem LogicalOp.joins (op : LogicalOp) :
    ∃ n, op.level = n + 3 ∧ n ≤ 5 ∧ Parser.joins? (n + 3) op.punct = some (.logical op) := by
  cases op <;> exact ⟨_, rfl, by decide, rfl⟩

namespace Expr

theorem assignOp?_of_punct? {op : AssignOp} {p : Punct} (written : op.punct? = some p) :
    Parser.assignOp? p = some op := by
  cases op with
  | set => exact Option.some.inj written ▸ rfl
  | compound op =>
      cases op with
      | add | sub | mul | div => exact Option.some.inj written ▸ rfl
      | _ => simp [AssignOp.punct?] at written

/-! ## Phrases -/

variable {level : Nat} {expr : Expr} {tokens : List Token}

theorem listed_commas {α : Type} (items : List (Item α)) :
    Listed items (commas (items.map Prod.snd)) := by
  induction items with
  | nil => exact .nil
  | cons item others ih =>
      cases others with
      | nil =>
          rw [List.map_singleton, commas, Parser.separated_singleton]
          exact .last item
      | cons next others =>
          rw [List.map_cons, List.map_cons, commas, Parser.separated_cons_cons]
          exact .cons item ih

/-- What is written for a literal is a phrase. -/
theorem phrase_literal (level : Nat) (value : Literal) :
    Phrase level (.literal value) [value.token] := by
  cases value with
  | undefined => exact .name level "undefined"
  | null => exact .name level "null"
  | bool value =>
      cases value with
      | false => exact .name level "false"
      | true => exact .name level "true"
  | number x => exact .number level x
  | string text => exact .string level text

theorem phrase_variable (level : Nat) {name : String} (valid : Parser.isKeyword name = false) :
    Phrase level (.ident name) [.ident name] := by
  have same : Parser.named name = .ident name := by
    simp only [Parser.isKeyword, Bool.or_eq_false_iff, beq_eq_false_iff_ne] at valid
    simp [Parser.named, valid]
  rw [← same]
  exact .name level name

theorem Entry.key?_keyToken (entry : Entry) : entry.keyToken.key? = some entry.key := by
  rcases entry.spelled with same | ⟨same, -⟩
  · rw [same, Token.key?]
  · rw [same, Token.key?]

/-- The field that an entry is. -/
def Entry.field (entry : Entry) : Field :=
  .keyed entry.keyToken entry.key entry.key?_keyToken entry.value entry.valueTokens

/-- Entries with commas between them are the fields of an object. -/
theorem phrase_entries (level : Nat) {entries : List Entry}
    (each : ∀ entry ∈ entries, Phrase 9 entry.value entry.valueTokens) :
    Phrase level (.object (entries.map fun entry => (entry.key, entry.value)))
      (.punct .leftBrace :: (commas (entries.map Entry.tokens) ++ [.punct .rightBrace])) := by
  let fields := entries.map Entry.field
  have listed := listed_commas (fields.map Field.item)
  have written : (fields.map Field.item).map Prod.snd = entries.map Entry.tokens := by
    rw [List.map_map, List.map_map]
    rfl
  have made : (fields.map Field.item).map Prod.fst =
      entries.map fun entry => (entry.key, entry.value) := by
    rw [List.map_map, List.map_map]
    rfl
  rw [written] at listed
  rw [← made]
  refine .object level listed fun token key keys value row member => ?_
  obtain ⟨entry, listed, same⟩ := List.mem_map.mp member
  cases same
  exact each entry listed

/-- Whatever may be written for a well-formed expression is one of its phrases. -/
theorem Written.phrase (written : Written level expr tokens) (wellFormed : WellFormed expr) :
    Phrase level expr tokens := by
  induction written with
  | literal level value => exact phrase_literal level value
  | ident level name =>
      cases wellFormed with
      | ident valid => exact phrase_variable level valid.2
  | parens level inner ih => exact .parens level (ih wellFormed)
  | @array level items each ih =>
      cases wellFormed with
      | array wellFormed =>
      exact .array level (listed_commas items) fun item member =>
        ih item member (wellFormed _ (List.mem_map_of_mem member))
  | @object level entries each ih =>
      cases wellFormed with
      | object wellFormed =>
      exact phrase_entries level fun entry member =>
        ih entry member (wellFormed _ (List.mem_map_of_mem member))
  | member level inner property ih =>
      cases wellFormed with
      | member wellFormed valid => exact .member level (ih wellFormed) property
  | index level inner at_ ih ihAt =>
      cases wellFormed with
      | index wellFormed wellFormedAt => exact .index level (ih wellFormed) (ihAt wellFormedAt)
  | @call level _ _ args inner each ih ihEach =>
      cases wellFormed with
      | call wellFormed wellFormedEach =>
      exact .call level (ih wellFormed) (listed_commas args) fun arg member =>
        ihEach arg member (wellFormedEach _ (List.mem_map_of_mem member))
  | updateAfter loose step inner ih =>
      cases wellFormed with
      | update assignable wellFormed => exact .updateAfter loose step assignable (ih wellFormed)
  | updateBefore loose step inner ih =>
      cases wellFormed with
      | update assignable wellFormed => exact .updateBefore loose step assignable (ih wellFormed)
  | unary loose op inner ih =>
      cases wellFormed with
      | unary wellFormed => exact .unary loose op (ih wellFormed)
  | @binary level op loose _ _ _ _ leftWritten rightWritten ihLeft ihRight =>
      cases wellFormed with
      | binary wellFormedLeft wellFormedRight =>
      obtain ⟨n, same, -, found⟩ := op.joins
      rw [same] at loose ihLeft ihRight
      exact .join found loose (ihLeft wellFormedLeft) (ihRight wellFormedRight)
  | @logical level op loose _ _ _ _ leftWritten rightWritten ihLeft ihRight =>
      cases wellFormed with
      | logical wellFormedLeft wellFormedRight =>
      obtain ⟨n, same, -, found⟩ := op.joins
      rw [same] at loose ihLeft ihRight
      exact .join found loose (ihLeft wellFormedLeft) (ihRight wellFormedRight)
  | conditional testWritten consequentWritten alternateWritten ih ihThen ihElse =>
      cases wellFormed with
      | conditional wellFormed wellFormedThen wellFormedElse =>
      exact .conditional (ih wellFormed) (ihThen wellFormedThen) (ihElse wellFormedElse)
  | assign written targetWritten valueWritten ihTarget ihValue =>
      cases wellFormed with
      | assign _ assignable wellFormed wellFormedValue =>
      -- a target is written as tight as a member, and may be read as loose as a choice's test
      have target := (ihTarget wellFormed).loosen (Nat.zero_le 8) (by decide)
      exact .assign (assignOp?_of_punct? written) assignable target (ihValue wellFormedValue)
  | arrow written inner ih =>
      cases wellFormed with
      | arrow valid wellFormed =>
      exact .arrow written (fun param member => (valid param member).2) (ih wellFormed)

/-! ## Programs -/

/-- Phrases with semicolons between them are statements. -/
theorem statements_separated {all : List (Item Expr)}
    (phrases : ∀ one ∈ all, Phrase 9 one.1 one.2) :
    Statements (all.map Prod.fst) (separated .semicolon (all.map Prod.snd)) := by
  induction all with
  | nil => exact .nil
  | cons one others ih =>
      rw [List.forall_mem_cons] at phrases
      cases others with
      | nil =>
          rw [List.map_singleton, List.map_singleton, Parser.separated_singleton]
          exact .last phrases.1
      | cons next others =>
          have rest := ih phrases.2
          simp only [List.map_cons, Parser.separated_cons_cons] at rest ⊢
          exact .more phrases.1 rest

theorem Written.not_sequence {all : List Expr} (written : Written level expr tokens) :
    expr ≠ .sequence all := by
  induction written with
  | parens level inner ih => exact ih
  | _ => simp

/-- Whatever may be written for a well-formed program stands for its statements. -/
theorem WrittenProgram.stands (written : WrittenProgram expr tokens)
    (wellFormed : WellFormedProgram expr) :
    ∃ all, Statements all tokens ∧ expr = Parser.joinStatements all := by
  cases written with
  | expression whole =>
      cases wellFormed with
      | expression wellFormed => exact ⟨[expr], .last (whole.phrase wellFormed), rfl⟩
      | statements several each => exact absurd rfl whole.not_sequence
  | @statements all written =>
      cases wellFormed with
      | expression wellFormed => cases wellFormed
      | statements several each =>
          refine ⟨all.map Prod.fst, statements_separated fun one member => ?_, ?_⟩
          · exact (written one member).phrase (each _ (List.mem_map_of_mem member))
          · match all.map Prod.fst, several with
            | [], _ => rfl
            | _ :: _ :: _, _ => rfl

theorem parse_of_printed {text : String} (printed : Printed expr text)
    (wellFormed : WellFormedProgram expr) : Expr.parse text = .ok expr := by
  obtain ⟨tokens, words, written, spelled, same⟩ := printed
  obtain ⟨lexemes, read, split⟩ := Lexeme.ofText_spaced spelled
  obtain ⟨all, statements, joined⟩ := written.stands wellFormed
  rw [← same] at read
  rw [← split] at statements
  exact parse_eq_ok_iff.mpr ⟨lexemes, read, ofTokens_eq_ok_iff.mpr ⟨all, statements, joined⟩⟩

/-- Parsing undoes printing: there is something to print for a well-formed program, and whatever is
printed for it is read as that program. -/
theorem parse_printed {expr : Expr} (wellFormed : WellFormedProgram expr) :
    (∃ text, Printed expr text) ∧ ∀ text, Printed expr text → Expr.parse text = .ok expr :=
  ⟨wellFormed.printed, fun _ printed => parse_of_printed printed wellFormed⟩

/-- An assignment of a function whose body needs parentheses in one place only. -/
def scaledSum : Expr :=
  .assign (.compound .add) (.index (.ident "table") (.literal (.string "a\"b")))
    (.arrow ["x", "y"]
      (.binary .mul (.unary .neg (.binary .add (.ident "x") (.ident "y")))
        (.literal (.number (Decimal.toFloat ⟨15, -1⟩)))))

theorem scaledSum_parse_printed :
    WellFormedProgram scaledSum ∧
      Printed scaledSum "table [ \"a\\\"b\" ] += ( x , y ) => - ( x + y ) * 1.5" ∧
      Expr.parse "table [ \"a\\\"b\" ] += ( x , y ) => - ( x + y ) * 1.5" = .ok scaledSum := by
  have number : Token.Spelled (.number (Decimal.toFloat ⟨15, -1⟩)) "1.5".toList := .number rfl
  have text : Token.Spelled (.string "a\"b") "\"a\\\"b\"".toList := .string (.inl rfl) "a\"b"
  have table : Token.Spelled (.ident "table") "table".toList := .ident (by decide)
  have x : Token.Spelled (.ident "x") "x".toList := .ident (by decide)
  have y : Token.Spelled (.ident "y") "y".toList := .ident (by decide)
  have wellFormed : WellFormedProgram scaledSum := by
    apply WellFormedProgram.expression
    apply WellFormed.assign rfl rfl
    · exact .index (.ident (by decide)) (.literal (by simp))
    · apply WellFormed.arrow (by decide)
      exact .binary (.unary (.binary (.ident (by decide)) (.ident (by decide)))) (.number number)
  have body := Written.parens 2 <| Written.binary (by decide : BinaryOp.add.level ≤ 9)
    (.ident 4 "x") (.ident 3 "y")
  have written : Written 9 scaledSum _ :=
    .assign rfl (.index 0 (.ident 0 _) (.literal 9 _))
      (.arrow (.several _) (.binary (by decide) (.unary (by decide) .neg body) (.literal 2 _)))
  have spelled := List.Forall₂.cons table <| .cons (.punct .leftBracket) <| .cons text <|
    .cons (.punct .rightBracket) <| .cons (.punct .plusAssign) <| .cons (.punct .leftParen) <|
    .cons x <| .cons (.punct .comma) <| .cons y <| .cons (.punct .rightParen) <|
    .cons (.punct .arrow) <| .cons (.punct .minus) <| .cons (.punct .leftParen) <| .cons x <|
    .cons (.punct .plus) <| .cons y <| .cons (.punct .rightParen) <| .cons (.punct .star) <|
    .cons number .nil
  have printed : Printed scaledSum "table [ \"a\\\"b\" ] += ( x , y ) => - ( x + y ) * 1.5" :=
    ⟨_, _, .expression written, spelled, rfl⟩
  exact ⟨wellFormed, printed, (parse_printed wellFormed).2 _ printed⟩

end Expr

end LiveMarkup
