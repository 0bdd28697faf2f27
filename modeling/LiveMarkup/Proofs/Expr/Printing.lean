import LiveMarkup.Expr.Parser
import LiveMarkup.Proofs.Expr.Spelling
import LiveMarkup.Proofs.Expr.Taking

/-!
# Printed expressions

What may be written for an expression, as rows of tokens.  An operator has a level, the tighter the
lower, and every place in an expression says how loose the expression may be that stands there.  One
that is looser stands in parentheses; others may stand in parentheses as well.
-/

namespace LiveMarkup

open LiveMarkup.Parser (commas separated Item)

/-! ## Operators -/

/-- The token of an operator before its operand. -/
def UnaryOp.punct : UnaryOp → Punct
  | not => .bang
  | neg => .minus
  | plus => .plus

/-- The token of an operator between its operands. -/
def BinaryOp.punct : BinaryOp → Punct
  | add => .plus
  | sub => .minus
  | mul => .star
  | div => .slash
  | rem => .percent
  | less => .less
  | lessEqual => .lessEqual
  | greater => .greater
  | greaterEqual => .greaterEqual
  | equal => .equal
  | notEqual => .notEqual
  | strictEqual => .strictEqual
  | strictNotEqual => .strictNotEqual

/-- How loose an operator between its operands is. -/
def BinaryOp.level : BinaryOp → Nat
  | mul | div | rem => 3
  | add | sub => 4
  | less | lessEqual | greater | greaterEqual => 5
  | equal | notEqual | strictEqual | strictNotEqual => 6

/-- The token of a logical operator. -/
def LogicalOp.punct : LogicalOp → Punct
  | and => .andAnd
  | or => .orOr

/-- How loose a logical operator is. -/
def LogicalOp.level : LogicalOp → Nat
  | and => 7
  | or => 8

/-- The token of an update. -/
def Step.punct : Step → Punct
  | up => .plusPlus
  | down => .minusMinus

/-- The token of an assignment; only sums and products have one of their own. -/
def AssignOp.punct? : AssignOp → Option Punct
  | set => some .assign
  | compound .add => some .plusAssign
  | compound .sub => some .minusAssign
  | compound .mul => some .starAssign
  | compound .div => some .slashAssign
  | compound _ => none

/-- The token of a literal. -/
def Literal.token : Literal → Token
  | undefined => .ident "undefined"
  | null => .ident "null"
  | bool true => .ident "true"
  | bool false => .ident "false"
  | number value => .number value
  | string text => .string text

namespace Expr

/-! ## Well-formed expressions -/

/-- Whether a name may stand for a variable. -/
def IsVariable (name : String) : Prop := Token.IsName name ∧ Parser.isKeyword name = false

instance : DecidablePred IsVariable := fun _ => inferInstanceAs (Decidable (_ ∧ _))

/-- Whether an expression is one that texts can stand for, statements aside. -/
inductive WellFormed : Expr → Prop
  /-- A literal that is no number. -/
  | literal {value : Literal} (other : ∀ x, value ≠ .number x) : WellFormed (.literal value)
  /-- A number that some text is read as. -/
  | number {x : Float} {word : List Char} (spelled : Token.Spelled (.number x) word) :
      WellFormed (.literal (.number x))
  /-- A variable. -/
  | ident {name : String} (valid : IsVariable name) : WellFormed (.ident name)
  /-- An array of well-formed items. -/
  | array {items : List Expr} (each : ∀ item ∈ items, WellFormed item) : WellFormed (.array items)
  /-- An object with well-formed values. -/
  | object {entries : List (String × Expr)} (each : ∀ entry ∈ entries, WellFormed entry.2) :
      WellFormed (.object entries)
  /-- A property whose name is an identifier. -/
  | member {object : Expr} {property : String} (inner : WellFormed object)
      (valid : Token.IsName property) : WellFormed (.member object property)
  /-- A property that is computed. -/
  | index {object place : Expr} (inner : WellFormed object) (at_ : WellFormed place) :
      WellFormed (.index object place)
  /-- A call. -/
  | call {callee : Expr} {args : List Expr} (inner : WellFormed callee)
      (each : ∀ arg ∈ args, WellFormed arg) : WellFormed (.call callee args)
  /-- An operator before its operand. -/
  | unary {op : UnaryOp} {operand : Expr} (inner : WellFormed operand) :
      WellFormed (.unary op operand)
  /-- An operator between its operands. -/
  | binary {op : BinaryOp} {left right : Expr} (first : WellFormed left)
      (second : WellFormed right) : WellFormed (.binary op left right)
  /-- A logical operator. -/
  | logical {op : LogicalOp} {left right : Expr} (first : WellFormed left)
      (second : WellFormed right) : WellFormed (.logical op left right)
  /-- A choice. -/
  | conditional {test consequent alternate : Expr} (first : WellFormed test)
      (second : WellFormed consequent) (third : WellFormed alternate) :
      WellFormed (.conditional test consequent alternate)
  /-- An assignment to something that can be assigned to, with an operator that has a token. -/
  | assign {op : AssignOp} {p : Punct} {target value : Expr} (written : op.punct? = some p)
      (assignable : target.isAssignable = true) (first : WellFormed target)
      (second : WellFormed value) : WellFormed (.assign op target value)
  /-- An update of something that can be assigned to. -/
  | update {step : Step} {before : Bool} {target : Expr} (assignable : target.isAssignable = true)
      (inner : WellFormed target) : WellFormed (.update step before target)
  /-- A function of variables. -/
  | arrow {params : List String} {body : Expr} (valid : ∀ param ∈ params, IsVariable param)
      (inner : WellFormed body) : WellFormed (.arrow params body)

/-- Whether a program is one that texts can stand for: an expression, or a sequence of them. -/
inductive WellFormedProgram : Expr → Prop
  /-- An expression. -/
  | expression {expr : Expr} (whole : WellFormed expr) : WellFormedProgram expr
  /-- Statements; a single one is an expression itself. -/
  | statements {all : List Expr} (several : all.length ≠ 1) (each : ∀ one ∈ all, WellFormed one) :
      WellFormedProgram (.sequence all)

/-! ## Written expressions -/

/-- What is written for an entry of an object: a key as a name or as a string, a colon and the
value. -/
structure Entry where
  /-- The key. -/
  key : String
  /-- The token of the key. -/
  keyToken : Token
  /-- The value. -/
  value : Expr
  /-- What is written for the value. -/
  valueTokens : List Token
  /-- A key is written as a name or as a string. -/
  spelled : keyToken = .string key ∨ keyToken = .ident key ∧ Token.IsName key

/-- The tokens of an entry. -/
def Entry.tokens (entry : Entry) : List Token :=
  entry.keyToken :: .punct .colon :: entry.valueTokens

/-- What may be written for the head of an arrow function. -/
inductive Head : List String → List Token → Prop
  /-- A single parameter may stand alone. -/
  | single (param : String) : Head [param] [.ident param, .punct .arrow]
  /-- Parameters stand in parentheses. -/
  | several (params : List String) :
      Head params (.punct .leftParen :: (commas (params.map fun param => [.ident param]) ++
        [.punct .rightParen, .punct .arrow]))

/-- Whether a row of tokens may be written for an expression where the expression may be as loose as
a level: 0 for names, literals, members and calls, 1 for updates behind their target, 2 for
operators before their operand, 3 to 8 for operators between operands, and 9 for all others. -/
inductive Written : Nat → Expr → List Token → Prop
  /-- A literal. -/
  | literal (level : Nat) (value : Literal) : Written level (.literal value) [value.token]
  /-- A variable. -/
  | ident (level : Nat) (name : String) : Written level (.ident name) [.ident name]
  /-- Any expression in parentheses. -/
  | parens (level : Nat) {expr : Expr} {tokens : List Token} (inner : Written 9 expr tokens) :
      Written level expr (.punct .leftParen :: (tokens ++ [.punct .rightParen]))
  /-- An array. -/
  | array (level : Nat) {items : List (Item Expr)}
      (each : ∀ item ∈ items, Written 9 item.1 item.2) :
      Written level (.array (items.map Prod.fst))
        (.punct .leftBracket :: (commas (items.map Prod.snd) ++ [.punct .rightBracket]))
  /-- An object. -/
  | object (level : Nat) {entries : List Entry}
      (each : ∀ entry ∈ entries, Written 9 entry.value entry.valueTokens) :
      Written level (.object (entries.map fun entry => (entry.key, entry.value)))
        (.punct .leftBrace :: (commas (entries.map Entry.tokens) ++ [.punct .rightBrace]))
  /-- A property with a name. -/
  | member (level : Nat) {object : Expr} {tokens : List Token} (inner : Written 0 object tokens)
      (property : String) :
      Written level (.member object property) (tokens ++ [.punct .dot, .ident property])
  /-- A property that is computed. -/
  | index (level : Nat) {object place : Expr} {tokens placeTokens : List Token}
      (inner : Written 0 object tokens) (at_ : Written 9 place placeTokens) :
      Written level (.index object place)
        (tokens ++ .punct .leftBracket :: (placeTokens ++ [.punct .rightBracket]))
  /-- A call. -/
  | call (level : Nat) {callee : Expr} {tokens : List Token} {args : List (Item Expr)}
      (inner : Written 0 callee tokens) (each : ∀ arg ∈ args, Written 9 arg.1 arg.2) :
      Written level (.call callee (args.map Prod.fst))
        (tokens ++ .punct .leftParen :: (commas (args.map Prod.snd) ++ [.punct .rightParen]))
  /-- An update behind its target. -/
  | updateAfter {level : Nat} (loose : 1 ≤ level) (step : Step) {target : Expr}
      {tokens : List Token} (inner : Written 0 target tokens) :
      Written level (.update step false target) (tokens ++ [.punct step.punct])
  /-- An update before its target. -/
  | updateBefore {level : Nat} (loose : 2 ≤ level) (step : Step) {target : Expr}
      {tokens : List Token} (inner : Written 2 target tokens) :
      Written level (.update step true target) (.punct step.punct :: tokens)
  /-- An operator before its operand. -/
  | unary {level : Nat} (loose : 2 ≤ level) (op : UnaryOp) {operand : Expr} {tokens : List Token}
      (inner : Written 2 operand tokens) :
      Written level (.unary op operand) (.punct op.punct :: tokens)
  /-- An operator between its operands; it associates to the left. -/
  | binary {level : Nat} {op : BinaryOp} (loose : op.level ≤ level) {left right : Expr}
      {first second : List Token} (leftWritten : Written op.level left first)
      (rightWritten : Written (op.level - 1) right second) :
      Written level (.binary op left right) (first ++ .punct op.punct :: second)
  /-- A logical operator; it associates to the left. -/
  | logical {level : Nat} {op : LogicalOp} (loose : op.level ≤ level) {left right : Expr}
      {first second : List Token} (leftWritten : Written op.level left first)
      (rightWritten : Written (op.level - 1) right second) :
      Written level (.logical op left right) (first ++ .punct op.punct :: second)
  /-- A choice; it associates to the right. -/
  | conditional {test consequent alternate : Expr} {first second third : List Token}
      (testWritten : Written 8 test first) (consequentWritten : Written 9 consequent second)
      (alternateWritten : Written 9 alternate third) :
      Written 9 (.conditional test consequent alternate)
        (first ++ .punct .question :: (second ++ .punct .colon :: third))
  /-- An assignment; it associates to the right. -/
  | assign {op : AssignOp} {p : Punct} (written : op.punct? = some p) {target value : Expr}
      {first second : List Token} (targetWritten : Written 0 target first)
      (valueWritten : Written 9 value second) :
      Written 9 (.assign op target value) (first ++ .punct p :: second)
  /-- An arrow function. -/
  | arrow {params : List String} {head : List Token} (written : Head params head) {body : Expr}
      {tokens : List Token} (inner : Written 9 body tokens) :
      Written 9 (.arrow params body) (head ++ tokens)

/-- What may be written for a program. -/
inductive WrittenProgram : Expr → List Token → Prop
  /-- An expression. -/
  | expression {expr : Expr} {tokens : List Token} (whole : Written 9 expr tokens) :
      WrittenProgram expr tokens
  /-- Statements with semicolons between them. -/
  | statements {all : List (Item Expr)} (each : ∀ one ∈ all, Written 9 one.1 one.2) :
      WrittenProgram (.sequence (all.map Prod.fst))
        (separated .semicolon (all.map Prod.snd))

/-- Whether a text may be printed for a program: tokens that may be written for it, with spaces
between them. -/
def Printed (expr : Expr) (text : String) : Prop :=
  ∃ tokens words, WrittenProgram expr tokens ∧ List.Forall₂ Token.Spelled tokens words ∧
    text.toList = Lexeme.spaced words

/-! ## Rows that can be spelled -/

/-- Whether every token of a row may be written as some text. -/
def Spellable (tokens : List Token) : Prop := ∀ token ∈ tokens, ∃ word, Token.Spelled token word

theorem Spellable.words {tokens : List Token} (spellable : Spellable tokens) :
    ∃ words, List.Forall₂ Token.Spelled tokens words := by
  induction tokens with
  | nil => exact ⟨[], .nil⟩
  | cons token tokens ih =>
      obtain ⟨⟨word, spelled⟩, later⟩ := List.forall_mem_cons.mp spellable
      obtain ⟨words, others⟩ := ih later
      exact ⟨word :: words, .cons spelled others⟩

@[simp]
theorem spellable_nil : Spellable [] := List.forall_mem_nil _

@[simp]
theorem spellable_append {first second : List Token} :
    Spellable (first ++ second) ↔ Spellable first ∧ Spellable second := List.forall_mem_append

theorem spellable_cons {token : Token} {tokens : List Token} :
    Spellable (token :: tokens) ↔ (∃ word, token.Spelled word) ∧ Spellable tokens :=
  List.forall_mem_cons

theorem spellable_singleton {token : Token} {word : List Char} (spelled : token.Spelled word) :
    Spellable [token] := spellable_cons.mpr ⟨⟨word, spelled⟩, spellable_nil⟩

@[simp]
theorem spellable_punct {p : Punct} {tokens : List Token} :
    Spellable (.punct p :: tokens) ↔ Spellable tokens := by
  rw [spellable_cons]
  exact and_iff_right ⟨_, .punct p⟩

@[simp]
theorem spellable_string {text : String} {tokens : List Token} :
    Spellable (.string text :: tokens) ↔ Spellable tokens := by
  rw [spellable_cons]
  exact and_iff_right ⟨_, .string (.inl rfl) text⟩

theorem spellable_separated {p : Punct} {rows : List (List Token)}
    (each : ∀ row ∈ rows, Spellable row) : Spellable (separated p rows) := by
  induction rows with
  | nil => exact spellable_nil
  | cons row rows ih =>
      rw [List.forall_mem_cons] at each
      cases rows with
      | nil => simpa using each.1
      | cons next rows => simpa using ⟨each.1, ih each.2⟩

theorem spellable_literal {value : Literal} (other : ∀ x, value ≠ .number x) :
    Spellable [value.token] := by
  cases value with
  | number x => exact absurd rfl (other x)
  | string text => exact spellable_string.mpr spellable_nil
  | undefined => exact spellable_singleton (.ident (by decide))
  | null => exact spellable_singleton (.ident (by decide))
  | bool value =>
      cases value
      · exact spellable_singleton (.ident (by decide))
      · exact spellable_singleton (.ident (by decide))

/-! ## Something is printed for every well-formed program -/

/-- Whether something may be written for an expression where it may be as loose as a level, each
token of it spelled in some way. -/
def Writable (level : Nat) (expr : Expr) : Prop :=
  ∃ tokens, Written level expr tokens ∧ Spellable tokens

/-- In parentheses an expression may stand anywhere. -/
theorem Writable.tighten {expr : Expr} (writable : Writable 9 expr) (level : Nat) :
    Writable level expr := by
  obtain ⟨tokens, written, spelled⟩ := writable
  exact ⟨_, .parens level written, by simpa using spelled⟩

theorem exists_items {α : Type} {written : α → List Token → Prop} {all : List α}
    (each : ∀ one ∈ all, ∃ tokens, written one tokens ∧ Spellable tokens) :
    ∃ items : List (Item α), items.map Prod.fst = all ∧ (∀ item ∈ items, written item.1 item.2) ∧
      ∀ p, Spellable (separated p (items.map Prod.snd)) := by
  choose! tokens chosen using each
  refine ⟨all.map fun one => (one, tokens one), by simp [Function.comp_def], ?_, fun p => ?_⟩
  · rw [List.forall_mem_map]
    exact fun one member => (chosen one member).1
  · apply spellable_separated
    rw [List.map_map, List.forall_mem_map]
    exact fun one member => (chosen one member).2

/-- Keys of objects are written as strings. -/
theorem exists_entries {all : List (String × Expr)} (each : ∀ one ∈ all, Writable 9 one.2) :
    ∃ entries : List Entry, (entries.map fun entry => (entry.key, entry.value)) = all ∧
      (∀ entry ∈ entries, Written 9 entry.value entry.valueTokens) ∧
      Spellable (commas (entries.map Entry.tokens)) := by
  choose! tokens chosen using each
  refine ⟨all.map fun one => ⟨one.1, .string one.1, one.2, tokens one, .inl rfl⟩,
    by simp [Function.comp_def], ?_, ?_⟩
  · rw [List.forall_mem_map]
    exact fun one member => (chosen one member).1
  · apply spellable_separated
    rw [List.map_map, List.forall_mem_map]
    intro one member
    simpa [Entry.tokens] using (chosen one member).2

theorem WellFormed.writable {expr : Expr} (wellFormed : WellFormed expr) : Writable 9 expr := by
  induction wellFormed with
  | literal other => exact ⟨_, .literal 9 _, spellable_literal other⟩
  | number spelled => exact ⟨_, .literal 9 _, spellable_singleton spelled⟩
  | ident valid => exact ⟨_, .ident 9 _, spellable_singleton (.ident valid.1)⟩
  | array each ih =>
      obtain ⟨items, rfl, written, spelled⟩ := exists_items ih
      exact ⟨_, .array 9 written, by simpa using spelled _⟩
  | object each ih =>
      obtain ⟨entries, rfl, written, spelled⟩ := exists_entries ih
      exact ⟨_, .object 9 written, by simpa using spelled⟩
  | member inner valid ih =>
      obtain ⟨tokens, written, spelled⟩ := ih.tighten 0
      exact ⟨_, .member 9 written _, by simp [spelled, spellable_singleton (.ident valid)]⟩
  | index inner at_ ih ihAt =>
      obtain ⟨tokens, written, spelled⟩ := ih.tighten 0
      obtain ⟨placeTokens, writtenAt, spelledAt⟩ := ihAt
      exact ⟨_, .index 9 written writtenAt, by simp [spelled, spelledAt]⟩
  | call inner each ih ihEach =>
      obtain ⟨tokens, written, spelled⟩ := ih.tighten 0
      obtain ⟨args, rfl, writtenEach, spelledEach⟩ := exists_items ihEach
      exact ⟨_, .call 9 written writtenEach, by simpa using ⟨spelled, spelledEach _⟩⟩
  | unary inner ih =>
      obtain ⟨tokens, written, spelled⟩ := ih.tighten 2
      exact ⟨_, .unary (by decide) _ written, by simpa using spelled⟩
  | @binary op left right first second ih ihRight =>
      obtain ⟨tokens, written, spelled⟩ := ih.tighten op.level
      obtain ⟨rightTokens, rightWritten, rightSpelled⟩ := ihRight.tighten (op.level - 1)
      have loose : op.level ≤ 9 := by cases op <;> decide
      exact ⟨_, .binary loose written rightWritten, by simp [spelled, rightSpelled]⟩
  | @logical op left right first second ih ihRight =>
      obtain ⟨tokens, written, spelled⟩ := ih.tighten op.level
      obtain ⟨rightTokens, rightWritten, rightSpelled⟩ := ihRight.tighten (op.level - 1)
      have loose : op.level ≤ 9 := by cases op <;> decide
      exact ⟨_, .logical loose written rightWritten, by simp [spelled, rightSpelled]⟩
  | conditional first second third ih ihThen ihElse =>
      obtain ⟨tokens, written, spelled⟩ := ih.tighten 8
      obtain ⟨thenTokens, thenWritten, thenSpelled⟩ := ihThen
      obtain ⟨elseTokens, elseWritten, elseSpelled⟩ := ihElse
      exact ⟨_, .conditional written thenWritten elseWritten,
        by simp [spelled, thenSpelled, elseSpelled]⟩
  | assign token assignable first second ih ihValue =>
      obtain ⟨tokens, written, spelled⟩ := ih.tighten 0
      obtain ⟨valueTokens, valueWritten, valueSpelled⟩ := ihValue
      exact ⟨_, .assign token written valueWritten, by simp [spelled, valueSpelled]⟩
  | @update step before target assignable inner ih =>
      cases before with
      | false =>
          obtain ⟨tokens, written, spelled⟩ := ih.tighten 0
          exact ⟨_, .updateAfter (by decide) step written, by simpa using spelled⟩
      | true =>
          obtain ⟨tokens, written, spelled⟩ := ih.tighten 2
          exact ⟨_, .updateBefore (by decide) step written, by simpa using spelled⟩
  | @arrow params body valid inner ih =>
      obtain ⟨tokens, written, spelled⟩ := ih
      have names : Spellable (commas (params.map fun param => [.ident param])) := by
        apply spellable_separated
        rw [List.forall_mem_map]
        exact fun param member => spellable_singleton (.ident (valid param member).1)
      exact ⟨_, .arrow (.several params) written, by simpa using ⟨names, spelled⟩⟩

/-- There is something to print for every well-formed program. -/
theorem WellFormedProgram.printed {expr : Expr} (wellFormed : WellFormedProgram expr) :
    ∃ text, Printed expr text := by
  obtain ⟨tokens, written, spelled⟩ : ∃ tokens, WrittenProgram expr tokens ∧ Spellable tokens := by
    cases wellFormed with
    | expression whole =>
        obtain ⟨tokens, written, spelled⟩ := whole.writable
        exact ⟨tokens, .expression written, spelled⟩
    | statements several each =>
        obtain ⟨all, rfl, written, spelled⟩ := exists_items fun one member =>
          (each one member).writable
        exact ⟨_, .statements written, spelled _⟩
  obtain ⟨words, spelled⟩ := spelled.words
  exact ⟨String.ofList (Lexeme.spaced words), tokens, words, written, spelled, by simp⟩

end Expr

end LiveMarkup
