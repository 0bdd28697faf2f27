import LiveMarkup.Proofs.Expr.Cutting
import LiveMarkup.Proofs.Expr.Dividing
import LiveMarkup.Proofs.Expr.Recognition

/-!
# Semicolons compose programs

A semicolon belongs to no other token, so a text is cut in front of it as it is at its end.  It also
ends every statement.  So two programs with a semicolon between them are a program: it has the
statements of the first and then those of the second, and it does what these do one after the other.
-/

namespace LiveMarkup

namespace Token

/-- Whether a text is at its end or goes on with a semicolon. -/
def Sealed (rest : List Char) : Prop := ∀ c ∈ rest.head?, c = ';'

theorem sealed_nil : Sealed [] := by simp [Sealed]

theorem sealed_semicolon (rest : List Char) : Sealed (';' :: rest) := by simp [Sealed]

variable {text rest after more : List Char}

theorem Sealed.stops {kind : Char → Bool} (isSealed : Sealed more) (other : kind ';' = false) :
    Stops kind more := by
  intro c member
  rw [isSealed c member]
  exact other

/-! ## One token -/

theorem takeWhile_append_of_stops {kind : Char → Bool} (text : List Char)
    (stops : Stops kind more) : (text ++ more).takeWhile kind = text.takeWhile kind := by
  induction text with
  | nil => exact stops.takeWhile
  | cons c text ih => rw [List.cons_append, List.takeWhile_cons, List.takeWhile_cons, ih]

theorem dropWhile_append_of_stops {kind : Char → Bool} (text : List Char)
    (stops : Stops kind more) : (text ++ more).dropWhile kind = text.dropWhile kind ++ more := by
  induction text with
  | nil => exact stops.dropWhile
  | cons c text ih =>
      rw [List.cons_append, List.dropWhile_cons, List.dropWhile_cons, ih]
      split <;> rfl

theorem exponentPart_sealed (text : List Char) (isSealed : Sealed more) :
    exponentPart (text ++ more) = exponentPart text := by
  have stops : Stops Char.isDigit more := isSealed.stops (by decide)
  have digits (front : List Char) := takeWhile_append_of_stops front stops
  cases text with
  | nil =>
      cases more with
      | nil => rfl
      | cons c more =>
          obtain rfl := isSealed c rfl
          rfl
  | cons mark rest =>
      by_cases isMark : mark = 'e' ∨ mark = 'E'
      · cases rest with
        | nil =>
            cases more with
            | nil => rfl
            | cons c more =>
                obtain rfl := isSealed c rfl
                simp [exponentPart, isMark]
        | cons c rest =>
            by_cases plus : c = '+'
            · subst plus
              simp [exponentPart, isMark, digits]
            by_cases minus : c = '-'
            · subst minus
              simp [exponentPart, isMark, digits]
            have run := digits (c :: rest)
            rw [List.cons_append] at run
            simp [exponentPart, isMark, plus, minus, run]
      · rw [List.cons_append, exponentPart_of_not_mark isMark, exponentPart_of_not_mark isMark]

theorem numberPart_sealed (text : List Char) (isSealed : Sealed more) :
    numberPart (text ++ more) = numberPart text := by
  have stops : Stops inNumber more := isSealed.stops (by decide)
  rw [numberPart, takeWhile_append_of_stops text stops, dropWhile_append_of_stops text stops,
    exponentPart_sealed _ isSealed, numberPart]

/-- A semicolon is in no operator but the one that it is. -/
theorem ne_semicolon_of_mem_spelling {p : Punct} (other : p ≠ .semicolon) :
    ∀ c ∈ p.spelling, c ≠ ';' := by
  have all : p.spelling.all (fun c => c != ';') = true := by
    cases p <;> first | decide | exact absurd rfl other
  simpa using all

theorem operator?_sealed (c : Char) (rest : List Char) (isSealed : Sealed more) :
    operator? (c :: (rest ++ more)) = operator? (c :: rest) := by
  simp only [operator?]
  congr 1
  funext p
  by_cases same : p = .semicolon
  · subst same
    rfl
  · rw [← List.cons_append]
    apply isPrefixOf_append_of_apart
    intro d member head
    exact ne_semicolon_of_mem_spelling same d member (isSealed d head)

/-- A semicolon is no digit, so whether one comes next is the same without it. -/
theorem head_sealed (rest : List Char) (isSealed : Sealed more) :
    (rest ++ more).head?.any Char.isDigit = rest.head?.any Char.isDigit := by
  cases rest with
  | cons d rest => rfl
  | nil =>
      cases more with
      | nil => rfl
      | cons d more =>
          obtain rfl := isSealed d rfl
          rfl

/-- What is scanned as a token is scanned as the same token in front of a semicolon. -/
theorem scan_sealed {offset : Nat} {c : Char} {token : Token} (isSealed : Sealed more)
    (reads : scan offset c rest = .ok (token, after)) (other : Nat) :
    scan other c (rest ++ more) = .ok (token, after ++ more) := by
  have number := numberPart_sealed (c :: rest) isSealed
  have inside : Stops continuesIdent more := isSealed.stops (by decide)
  simp only [scan] at reads ⊢
  rw [head_sealed rest isSealed]
  split at reads
  next numeric =>
    rw [if_pos numeric]
    split at reads
    next value said =>
      cases reads
      have short := (numberPart_begins (c :: rest)).length_le
      rw [List.cons_append] at number
      rw [number, said, ← List.cons_append, List.drop_append_of_le_length short]
    next => cases reads
  next numeric =>
  rw [if_neg numeric]
  split at reads
  next starts =>
    cases reads
    rw [if_pos starts, takeWhile_append_of_stops rest inside, dropWhile_append_of_stops rest inside]
  next starts =>
  rw [if_neg starts]
  split at reads
  next quote =>
    rw [if_pos quote]
    split at reads
    next said behind read =>
      cases reads
      obtain ⟨body, rfl, again⟩ := readString_append read
      rw [List.append_assoc, List.cons_append, again]
    next => cases reads
  next quote =>
    rw [if_neg quote]
    rw [operator?_sealed c rest isSealed]
    split at reads
    next p found =>
      cases reads
      have short := (begins_of_operator? found).length_le
      rw [← List.cons_append, List.drop_append_of_le_length short]
    next => cases reads

end Token

namespace Lexeme

open Token (Sealed sealed_nil sealed_semicolon scan_sealed)

/-! ## Rows of tokens -/

/-- A text in front of a semicolon, or at the end, is read as its own tokens, and then what stands
behind it, wherever that is. -/
theorem ofTextFrom_sealed {fuel offset : Nat} {text more : List Char} {lexemes : List Lexeme}
    {tokens : List Token} (enough : text.length ≤ fuel)
    (reads : ofTextFrom fuel offset text = .ok lexemes) (isSealed : Sealed more)
    (behind : ∀ fuel offset, more.length ≤ fuel →
      ∃ others, ofTextFrom fuel offset more = .ok others ∧ others.map Lexeme.token = tokens)
    {room : Nat} (large : (text ++ more).length ≤ room) (other : Nat) :
    ∃ whole, ofTextFrom room other (text ++ more) = .ok whole ∧
      whole.map Lexeme.token = lexemes.map Lexeme.token ++ tokens := by
  induction fuel generalizing offset text lexemes room other with
  | zero =>
      obtain rfl := List.length_eq_zero_iff.mp (Nat.le_zero.mp enough)
      cases reads
      exact behind room other large
  | succ fuel ih =>
      cases text with
      | nil =>
          cases reads
          exact behind room other large
      | cons c rest =>
          have short : rest.length ≤ fuel := Nat.le_of_succ_le_succ enough
          rw [List.cons_append, List.length_cons] at large
          obtain ⟨room, rfl⟩ := Nat.exists_eq_add_of_le' (Nat.le_trans (Nat.le_add_left 1 _) large)
          have large := Nat.le_of_succ_le_succ large
          rw [ofTextFrom] at reads
          rw [List.cons_append, ofTextFrom]
          split at reads
          next blank =>
            rw [if_pos blank]
            exact ih short reads large _
          next visible =>
            rw [if_neg visible]
            split at reads
            next => cases reads
            next token after scanned =>
              have shorter : after.length ≤ rest.length :=
                Token.length_le_of_scan (by simpa using visible) scanned
              rw [scan_sealed isSealed scanned other]
              split at reads
              next => cases reads
              next others later =>
                cases reads
                rw [List.length_append] at large
                have fits : (after ++ more).length ≤ room := by
                  rw [List.length_append]
                  omega
                obtain ⟨whole, read, same⟩ := ih (Nat.le_trans shorter short) later fits
                  (other + bytesBefore (c :: (rest ++ more)) (after ++ more))
                refine ⟨⟨token, other⟩ :: whole, ?_, ?_⟩
                · simp only [read]
                · simp [same]

/-- What is read as tokens is read as the same tokens wherever it stands. -/
theorem ofTextFrom_anywhere {text : List Char} {lexemes : List Lexeme}
    (reads : ofText text = .ok lexemes) {room : Nat} (large : text.length ≤ room) (offset : Nat) :
    ∃ others, ofTextFrom room offset text = .ok others ∧
      others.map Lexeme.token = lexemes.map Lexeme.token := by
  have nothing (fuel offset : Nat) (_ : ([] : List Char).length ≤ fuel) :
      ∃ others, ofTextFrom fuel offset [] = .ok others ∧ others.map Lexeme.token = [] :=
    ⟨[], ofTextFrom_nil fuel offset, rfl⟩
  rw [← List.append_nil text] at large
  have alone := ofTextFrom_sealed (Nat.le_refl _) reads sealed_nil nothing large offset
  simpa using alone

/-- Two texts with a semicolon between them are read as the tokens of the first, a semicolon and the
tokens of the second. -/
theorem ofText_semicolon {first second : List Char} {lexemes others : List Lexeme}
    (readsFirst : ofText first = .ok lexemes) (readsSecond : ofText second = .ok others) :
    ∃ whole, ofText (first ++ ';' :: second) = .ok whole ∧
      whole.map Lexeme.token =
        lexemes.map Lexeme.token ++ .punct .semicolon :: others.map Lexeme.token := by
  apply ofTextFrom_sealed (Nat.le_refl _) readsFirst (sealed_semicolon second)
  · intro fuel offset enough
    obtain ⟨fuel, rfl⟩ := Nat.exists_eq_add_of_le' (Nat.le_trans (Nat.le_add_left 1 _) enough)
    obtain ⟨moved, reads, same⟩ := ofTextFrom_anywhere readsSecond
      (Nat.le_of_succ_le_succ enough) (offset + bytesBefore (';' :: second) second)
    refine ⟨⟨.punct .semicolon, offset⟩ :: moved, ?_, ?_⟩
    · have scanned : Token.scan offset ';' second = .ok (.punct .semicolon, second) := rfl
      rw [ofTextFrom, if_neg (by decide), scanned]
      simp only [reads]
    · rw [List.map_cons, same]
  · exact Nat.le_refl _

end Lexeme

namespace Expr

/-! ## Statements -/

/-- Statements, a semicolon and more statements are the former and then the latter. -/
theorem Statements.append {first second : List Expr} {row more : List Token}
    (before : Statements first row) (behind : Statements second more) :
    Statements (first ++ second) (row ++ .punct .semicolon :: more) := by
  induction before with
  | nil => exact .skip behind
  | skip others ih => exact .skip ih
  | last phrase => exact .more phrase behind
  | more phrase rest ih =>
      rw [List.append_assoc, List.cons_append, List.cons_append]
      exact .more phrase ih

variable {σ : Type} (call : Caller σ) (scope : Scope) (bindings : Bindings)

/-- An expression does what its statements do one after another, and has the value of the last. -/
theorem evalWith_eq_statements (expr : Expr) :
    evalWith call scope bindings expr = do
      let values ← evalItems call scope bindings expr.statements
      return values.getLast?.getD .undefined := by
  cases expr with
  | sequence all => rw [evalWith, statements]
  | _ => simp [statements, evalItems]

theorem evalItems_append (items others : List Expr) :
    evalItems call scope bindings (items ++ others) = do
      let values ← evalItems call scope bindings items
      let more ← evalItems call scope bindings others
      return values ++ more := by
  induction items with
  | nil => simp [evalItems]
  | cons item rest ih => simp [evalItems, ih]

/-- More statements behind an expression are evaluated after it, and if there are any, they give the
value. -/
theorem evalWith_append {whole first last : Expr}
    (joined : whole.statements = first.statements ++ last.statements) :
    evalWith call scope bindings whole = (do
      let value ← evalWith call scope bindings first
      if last.statements.isEmpty then return value
      else evalWith call scope bindings last) := by
  rw [evalWith_eq_statements call scope bindings whole, joined, evalItems_append,
    evalWith_eq_statements call scope bindings first,
    evalWith_eq_statements call scope bindings last]
  cases last.statements with
  | nil => simp [evalItems]
  | cons statement rest => simp [evalItems, List.getLast?_cons]

/-- Two texts that are programs are a program with a semicolon between them. -/
theorem parse_semicolon {p q : String} {first last : Expr} (parsed : parse p = .ok first)
    (parsedLast : parse q = .ok last) :
    ∃ whole, parse (p ++ ";" ++ q) = .ok whole ∧
      whole.statements = first.statements ++ last.statements := by
  obtain ⟨lexemes, lexed, read⟩ := parse_eq_ok_iff.mp parsed
  obtain ⟨others, lexedLast, readLast⟩ := parse_eq_ok_iff.mp parsedLast
  obtain ⟨all, statements, rfl⟩ := ofTokens_eq_ok_iff.mp read
  obtain ⟨more, statementsLast, rfl⟩ := ofTokens_eq_ok_iff.mp readLast
  obtain ⟨joined, lexedJoined, tokens⟩ := Lexeme.ofText_semicolon lexed lexedLast
  have behind := statements.append statementsLast
  refine ⟨Parser.joinStatements (all ++ more), parse_eq_ok_iff.mpr ⟨joined, ?_, ?_⟩, ?_⟩
  · simpa using lexedJoined
  · exact ofTokens_eq_ok_iff.mpr ⟨all ++ more, tokens ▸ behind, rfl⟩
  · rw [statements_joinStatements behind.not_sequence,
      statements_joinStatements statements.not_sequence,
      statements_joinStatements statementsLast.not_sequence]

theorem evaluate_of_parse {σ : Type} {source : String} {expr : Expr}
    (parsed : parse source = .ok expr) (scope : Scope) (bindings : Bindings) :
    (evaluate source scope bindings : TaskM σ Value) = eval scope bindings expr := by
  rw [evaluate, parsed]
  rfl

/-- Semicolons compose programs.  Two texts that are programs are a program with a semicolon between
them, which has the statements of the first and then those of the second.  Whatever the
surroundings, evaluating it is evaluating the first and then the second, with the value of the first
if the second has no statements.  So in every state a fault of the first is the outcome, in the
state in which the first failed; otherwise the second goes on where the first ended, and its outcome
and its state are those of the whole. -/
theorem semicolons_compose {p q : String} {first last : Expr} (parsed : parse p = .ok first)
    (parsedLast : parse q = .ok last) :
    (∃ whole, parse (p ++ ";" ++ q) = .ok whole ∧
      whole.statements = first.statements ++ last.statements) ∧
    ∀ (σ : Type) (scope : Scope) (bindings : Bindings),
      (evaluate (p ++ ";" ++ q) scope bindings : TaskM σ Value) = (do
        let value ← evaluate p scope bindings
        if last.statements.isEmpty then return value else evaluate q scope bindings) ∧
      ∀ (frames : List Frame) (world : World σ),
        (∀ fault after, (evaluate p scope bindings).Leads frames world (.error fault) after →
          (evaluate (p ++ ";" ++ q) scope bindings).Leads frames world (.error fault) after) ∧
        ∀ value between outcome after,
          (evaluate p scope bindings).Leads frames world (.ok value) between →
          (evaluate q scope bindings).Leads frames between outcome after →
          (evaluate (p ++ ";" ++ q) scope bindings).Leads frames world
            (if last.statements.isEmpty then .ok value else outcome) after := by
  obtain ⟨whole, parsedWhole, joined⟩ := parse_semicolon parsed parsedLast
  refine ⟨⟨whole, parsedWhole, joined⟩, fun σ scope bindings => ?_⟩
  have composed : (evaluate (p ++ ";" ++ q) scope bindings : TaskM σ Value) = (do
      let value ← evaluate p scope bindings
      if last.statements.isEmpty then return value else evaluate q scope bindings) := by
    rw [evaluate_of_parse parsedWhole, evaluate_of_parse parsed, evaluate_of_parse parsedLast]
    exact evalWith_append _ scope bindings joined
  refine ⟨composed, fun frames world => ⟨fun fault after fails => ?_, ?_⟩⟩
  · rw [composed]
    exact fails.bind_error
  · intro value between outcome after leads leadsLast
    rw [composed]
    apply leads.bind
    split
    next none =>
      have nothing : (evaluate q scope bindings : TaskM σ Value) = pure .undefined := by
        rw [evaluate_of_parse parsedLast, eval, evalWith_eq_statements,
          List.isEmpty_iff.mp none, evalItems]
        rfl
      rw [nothing] at leadsLast
      have ends := TaskM.Leads.ofExcept (.ok Value.undefined) frames between
      obtain ⟨-, rfl⟩ := ends.unique leadsLast
      exact .ofExcept (.ok value) frames after
    next => exact leadsLast

theorem callThenFunction_compose :
    parse "push(x)" = .ok (.call (.ident "push") [.ident "x"]) ∧
      parse "; x => x ;" = .ok (.arrow ["x"] (.ident "x")) ∧
      ∃ whole, parse ("push(x)" ++ ";" ++ "; x => x ;") = .ok whole ∧
        whole.statements = [.call (.ident "push") [.ident "x"], .arrow ["x"] (.ident "x")] := by
  have lexed : Lexeme.ofText "push(x)".toList = .ok [⟨.ident "push", 0⟩, ⟨.punct .leftParen, 4⟩,
      ⟨.ident "x", 5⟩, ⟨.punct .rightParen, 6⟩] := rfl
  have lexedLast : Lexeme.ofText "; x => x ;".toList = .ok [⟨.punct .semicolon, 0⟩, ⟨.ident "x", 2⟩,
      ⟨.punct .arrow, 4⟩, ⟨.ident "x", 7⟩, ⟨.punct .semicolon, 9⟩] := rfl
  have parsed : parse "push(x)" = .ok (.call (.ident "push") [.ident "x"]) :=
    parse_eq_ok_iff.mpr ⟨_, lexed, rfl⟩
  have parsedLast : parse "; x => x ;" = .ok (.arrow ["x"] (.ident "x")) :=
    parse_eq_ok_iff.mpr ⟨_, lexedLast, rfl⟩
  exact ⟨parsed, parsedLast, (semicolons_compose parsed parsedLast).1⟩

end Expr

end LiveMarkup
