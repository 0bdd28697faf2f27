import LiveMarkup.Proofs.Expr.Grammar
import LiveMarkup.Proofs.Expr.Recognition

/-!
# Names of constants as variables

`true`, `false`, `null` and `undefined` are names of constants: alone they stand for their values,
and no arrow function has them as parameters.  Only a name that stands alone as an entry of an
object is taken for a variable whatever it says.  Which names do so is seen from the tokens, by the
brackets that are open.
-/

namespace LiveMarkup

open LiveMarkup.Parser (Item isKeyword headPunct commas joins?)

/-- Whether a token opens or closes a bracket or separates what stands in one. -/
def Punct.nests : Punct → Bool
  | .leftParen | .leftBracket | .leftBrace | .rightParen | .rightBracket | .rightBrace | .comma =>
      true
  | _ => false

namespace Token

/-- The names that stand alone as entries of objects, given the brackets that are open, innermost
first, and whether an entry of an object may begin here.  An entry begins behind an opening brace
and behind a comma for which the innermost bracket is a brace; it is no name alone if a colon
follows. -/
def loneNames : List Punct → Bool → List Token → List String
  | _, _, [] => []
  | opened, begins, .ident name :: rest =>
      if begins = true ∧ headPunct rest ≠ some .colon then name :: loneNames opened false rest
      else loneNames opened false rest
  | opened, _, .punct p :: rest =>
      match p with
      | .leftParen | .leftBracket => loneNames (p :: opened) false rest
      | .leftBrace => loneNames (p :: opened) true rest
      | .rightParen | .rightBracket | .rightBrace => loneNames opened.tail false rest
      | .comma => loneNames opened (decide (opened.head? = some .leftBrace)) rest
      | _ => loneNames opened false rest
  | opened, _, _ :: rest => loneNames opened false rest

variable {opened : List Punct} {begins : Bool} {rest : List Token}

@[simp]
theorem loneNames_operator {p : Punct} (plain : p.nests = false) :
    loneNames opened begins (.punct p :: rest) = loneNames opened false rest := by
  cases p <;> first | rfl | cases plain

@[simp]
theorem loneNames_name (name : String) :
    loneNames opened false (.ident name :: rest) = loneNames opened false rest := by
  simp [loneNames]

/-- The names in the head of an arrow function are no entries of an object. -/
theorem loneNames_parameters {p : Punct} (other : p ≠ .leftBrace) (params : List String) :
    loneNames (p :: opened) false (commas (params.map fun param => [.ident param]) ++ rest) =
      loneNames (p :: opened) false rest := by
  induction params with
  | nil => rfl
  | cons param params ih =>
      cases params with
      | nil => simp
      | cons next params =>
          rw [List.map_cons, List.map_cons, commas, Parser.separated_cons_cons]
          rw [List.map_cons, commas] at ih
          simp [loneNames, other, ih]

end Token

namespace Expr

open Token (loneNames)

/-! ## What occurs in an expression -/

/-- What occurs in an expression is the expression or occurs in one of its parts. -/
theorem occurs_iff {whole inner : Expr} :
    whole.Occurs inner ↔ inner = whole ∨ ∃ part ∈ whole.parts, part.Occurs inner := by
  constructor
  · intro occurs
    induction occurs with
    | itself => exact .inl rfl
    | part stands direct ih =>
        rcases ih with rfl | ⟨part, member, occurs⟩
        · exact .inr ⟨_, direct, .itself⟩
        · exact .inr ⟨part, member, .part occurs direct⟩
  · rintro (rfl | ⟨part, member, occurs⟩)
    · exact .itself
    · induction occurs with
      | itself => exact .part .itself member
      | part stands direct ih => exact .part ih direct

/-- What occurs in an expression and is not all of it occurs in one of its parts. -/
theorem occurs_inside {whole inner : Expr} (other : inner ≠ whole) :
    whole.Occurs inner ↔ ∃ part ∈ whole.parts, part.Occurs inner := by
  rw [occurs_iff]
  exact or_iff_right other

theorem occurs_one {whole part inner : Expr} (only : whole.parts = [part]) (other : inner ≠ whole) :
    whole.Occurs inner ↔ part.Occurs inner := by
  simp [occurs_inside other, only]

theorem occurs_two {whole left right inner : Expr} (both : whole.parts = [left, right])
    (other : inner ≠ whole) : whole.Occurs inner ↔ left.Occurs inner ∨ right.Occurs inner := by
  simp [occurs_inside other, both]

theorem occurs_joined {level : Nat} {p : Punct} {join : Expr → Expr → Expr}
    (found : joins? level p = some join) {left right inner : Expr}
    (binary_ : ∀ op, inner ≠ binary op left right)
    (logical_ : ∀ op, inner ≠ logical op left right) :
    (join left right).Occurs inner ↔ left.Occurs inner ∨ right.Occurs inner := by
  rcases binary_or_logical found with ⟨op, rfl⟩ | ⟨op, rfl⟩
  · exact occurs_two rfl (binary_ op)
  · exact occurs_two rfl (logical_ op)

/-- The name of a constant stands for it, and any other name for a variable. -/
theorem named_cases (name : String) :
    (isKeyword name = true ∧ ∃ value, Parser.named name = .literal value) ∨
      isKeyword name = false ∧ Parser.named name = .ident name := by
  unfold Parser.named isKeyword
  split
  next same => exact .inl ⟨by simp [same], _, rfl⟩
  split
  next same => exact .inl ⟨by simp [same], _, rfl⟩
  split
  next same => exact .inl ⟨by simp [same], _, rfl⟩
  split
  next same => exact .inl ⟨by simp [same], _, rfl⟩
  next => exact .inr ⟨by simp [*], rfl⟩

/-! ## Parameters -/

/-- No parameter is the name of a constant. -/
theorem Phrase.parameters {level : Nat} {expr : Expr} {row : List Token}
    (phrase : Phrase level expr row) {params : List String} {body : Expr}
    (occurs : expr.Occurs (.arrow params body)) : ∀ param ∈ params, isKeyword param = false := by
  induction phrase with
  | number level value => simp [occurs_inside, parts] at occurs
  | string level text => simp [occurs_inside, parts] at occurs
  | name level name =>
      rcases named_cases name with ⟨-, value, same⟩ | ⟨-, same⟩
      · simp [same, occurs_inside, parts] at occurs
      · simp [same, occurs_inside, parts] at occurs
  | parens level inner ih => exact ih occurs
  | array level listed each ih =>
      obtain ⟨part, member, occurs⟩ := (occurs_inside (by simp)).mp occurs
      obtain ⟨item, here, rfl⟩ := List.mem_map.mp member
      exact ih item here occurs
  | object level listed each ih =>
      obtain ⟨part, member, occurs⟩ := (occurs_inside (by simp)).mp occurs
      simp only [parts, List.map_map, List.mem_map] at member
      obtain ⟨field, here, rfl⟩ := member
      cases field with
      | alone name => simp [Field.item, occurs_inside, parts] at occurs
      | keyed token key keys value row => exact ih token key keys value row here occurs
  | member level inner property ih => exact ih ((occurs_one rfl (by simp)).mp occurs)
  | index level inner at_ ih ihAt =>
      exact ((occurs_two rfl (by simp)).mp occurs).elim ih ihAt
  | call level inner listed each ih ihEach =>
      obtain ⟨part, member, inside⟩ := (occurs_inside (by simp)).mp occurs
      rcases List.mem_cons.mp member with rfl | member
      · exact ih inside
      · obtain ⟨item, here, rfl⟩ := List.mem_map.mp member
        exact ihEach item here inside
  | updateAfter loose step assignable inner ih => exact ih ((occurs_one rfl (by simp)).mp occurs)
  | updateBefore loose step assignable inner ih => exact ih ((occurs_one rfl (by simp)).mp occurs)
  | unary loose op inner ih => exact ih ((occurs_one rfl (by simp)).mp occurs)
  | join found loose leftPhrase rightPhrase ih ihRight =>
      exact ((occurs_joined found (by simp) (by simp)).mp occurs).elim ih ihRight
  | conditional testPhrase consequentPhrase alternatePhrase ih ihThen ihElse =>
      obtain ⟨part, member, inside⟩ := (occurs_inside (by simp)).mp occurs
      simp only [parts, List.mem_cons, List.not_mem_nil, or_false] at member
      rcases member with rfl | rfl | rfl
      · exact ih inside
      · exact ihThen inside
      · exact ihElse inside
  | assign found assignable targetPhrase valuePhrase ih ihValue =>
      exact ((occurs_two rfl (by simp)).mp occurs).elim ih ihValue
  | arrow written valid phrase ih =>
      rcases occurs_iff.mp occurs with same | ⟨part, member, inside⟩
      · cases same
        exact valid
      · obtain rfl := List.mem_singleton.mp member
        exact ih inside

/-! ## Variables -/

/-- Whether the names of constants among the names that stand alone in a row of tokens are those
that occur as variables in an expression. -/
def Tracks (expr : Expr) (row : List Token) : Prop :=
  ∀ name, isKeyword name = true → ∀ (opened : List Punct) (rest : List Token),
    name ∈ loneNames opened false (row ++ rest) ↔
      expr.Occurs (.ident name) ∨ name ∈ loneNames opened false rest

theorem nests_of_joins? {level : Nat} {p : Punct} {join : Expr → Expr → Expr}
    (found : joins? level p = some join) : p.nests = false := by
  unfold joins? at found
  split at found <;> cases p <;> first | rfl | contradiction

theorem nests_of_assignOp? {p : Punct} {op : AssignOp} (found : Parser.assignOp? p = some op) :
    p.nests = false := by
  cases p <;> first | rfl | contradiction

/-- Items in parentheses or square brackets are no entries. -/
theorem tracks_listed {items : List (Item Expr)} {row : List Token} (listed : Listed items row)
    (each : ∀ item ∈ items, Tracks item.1 item.2) {bracket : Punct} (other : bracket ≠ .leftBrace)
    {name : String} (keyword : isKeyword name = true) (opened : List Punct) (rest : List Token) :
    name ∈ loneNames (bracket :: opened) false (row ++ rest) ↔
      (∃ part ∈ items.map Prod.fst, part.Occurs (.ident name)) ∨
        name ∈ loneNames (bracket :: opened) false rest := by
  induction listed with
  | nil => simp
  | last item =>
      rw [each item List.mem_cons_self name keyword]
      simp
  | cons item others ih =>
      obtain ⟨here, later⟩ := List.forall_mem_cons.mp each
      rw [List.append_assoc, here name keyword, List.cons_append]
      simp only [loneNames, List.head?_cons, Option.some.injEq, other, decide_false, ih later,
        List.map_cons, List.exists_mem_cons_iff, or_assoc]

/-- A field gives its key to the names that stand alone if it has no value of its own. -/
theorem tracks_field (field : Field)
    (value : ∀ token key keys value row, field = .keyed token key keys value row →
      Tracks value row) {name : String} (keyword : isKeyword name = true) (opened : List Punct)
    {rest : List Token} (ends : headPunct rest ≠ some .colon) :
    name ∈ loneNames opened true (field.item.2 ++ rest) ↔
      field.item.1.2.Occurs (.ident name) ∨ name ∈ loneNames opened false rest := by
  cases field with
  | alone key =>
      have same : (ident key).Occurs (.ident name) ↔ name = key := by
        rw [occurs_iff]
        simp [parts]
      simp [Field.item, loneNames, ends, same]
  | keyed token key keys expr row =>
      have tracks := value token key keys expr row rfl name keyword opened rest
      cases token with
      | punct p => cases keys
      | _ => simpa [Field.item, loneNames, headPunct] using tracks

/-- The names that stand alone in an object and in its values are found up to its closing brace. -/
theorem tracks_fields {items : List (Item (String × Expr))} {row : List Token}
    (listed : Listed items row) {name : String} {opened : List Punct}
    (each : ∀ item ∈ items, ∀ rest, headPunct rest ≠ some .colon →
      (name ∈ loneNames (.leftBrace :: opened) true (item.2 ++ rest) ↔
        item.1.2.Occurs (.ident name) ∨ name ∈ loneNames (.leftBrace :: opened) false rest))
    (rest : List Token) :
    name ∈ loneNames (.leftBrace :: opened) true (row ++ .punct .rightBrace :: rest) ↔
      (∃ part ∈ (items.map Prod.fst).map Prod.snd, part.Occurs (.ident name)) ∨
        name ∈ loneNames opened false rest := by
  induction listed with
  | nil => simp [loneNames]
  | last item =>
      rw [each item List.mem_cons_self _ (by simp [headPunct])]
      simp [loneNames]
  | cons item others ih =>
      obtain ⟨here, later⟩ := List.forall_mem_cons.mp each
      rw [List.append_assoc, here _ (by simp [headPunct])]
      simp only [List.cons_append, loneNames, List.head?_cons, decide_true, ih later,
        List.map_cons, List.exists_mem_cons_iff, or_assoc]

/-- Among the names that stand alone in a phrase, the names of constants are those that occur in it
as variables. -/
theorem Phrase.tracks {level : Nat} {expr : Expr} {row : List Token}
    (phrase : Phrase level expr row) : Tracks expr row := by
  induction phrase with
  | number level value =>
      intro name keyword opened rest
      simp [occurs_inside, parts, loneNames]
  | string level text =>
      intro name keyword opened rest
      simp [occurs_inside, parts, loneNames]
  | name level own =>
      intro name keyword opened rest
      have absent : ¬(Parser.named own).Occurs (.ident name) := by
        rcases named_cases own with ⟨-, value, same⟩ | ⟨variable_, same⟩
        · simp [same, occurs_inside, parts]
        · have other : name ≠ own := by
            rintro rfl
            rw [keyword] at variable_
            cases variable_
          simp [same, occurs_inside, parts, other]
      simp [absent]
  | parens level inner ih =>
      intro name keyword opened rest
      have tracks := ih name keyword (.leftParen :: opened) (.punct .rightParen :: rest)
      simpa [loneNames] using tracks
  | array level listed each ih =>
      intro name keyword opened rest
      have tracks := tracks_listed listed ih (show Punct.leftBracket ≠ .leftBrace by decide) keyword
        opened (.punct .rightBracket :: rest)
      simpa [loneNames, occurs_inside, parts] using tracks
  | object level listed each ih =>
      intro name keyword opened rest
      have tracks := tracks_fields listed
        (List.forall_mem_map.mpr fun field member rest ends =>
          tracks_field field (fun token key keys value row same =>
            ih token key keys value row (same ▸ member)) keyword (.leftBrace :: opened) ends) rest
      rw [occurs_inside (by simp)]
      simpa [loneNames, parts] using tracks
  | member level inner property ih =>
      intro name keyword opened rest
      have tracks := ih name keyword opened (.punct .dot :: .ident property :: rest)
      rw [occurs_one rfl (by simp)]
      simpa [loneNames] using tracks
  | index level inner at_ ih ihAt =>
      intro name keyword opened rest
      rw [occurs_two rfl (by simp), List.append_assoc, ih name keyword, or_assoc]
      have tracks := ihAt name keyword (.leftBracket :: opened) (.punct .rightBracket :: rest)
      simpa [loneNames] using or_congr_right tracks
  | call level inner listed each ih ihEach =>
      intro name keyword opened rest
      rw [occurs_inside (by simp), List.append_assoc, ih name keyword]
      have tracks := tracks_listed listed ihEach (show Punct.leftParen ≠ .leftBrace by decide)
        keyword opened (.punct .rightParen :: rest)
      simpa [loneNames, parts, or_assoc] using or_congr_right tracks
  | updateAfter loose step assignable inner ih =>
      intro name keyword opened rest
      rw [occurs_one rfl (by simp), List.append_assoc, ih name keyword]
      cases step <;> simp [loneNames, Step.punct]
  | updateBefore loose step assignable inner ih =>
      intro name keyword opened rest
      rw [occurs_one rfl (by simp), ← ih name keyword]
      cases step <;> simp [loneNames, Step.punct]
  | unary loose op inner ih =>
      intro name keyword opened rest
      rw [occurs_one rfl (by simp), ← ih name keyword]
      cases op <;> simp [loneNames, UnaryOp.punct]
  | join found loose leftPhrase rightPhrase ih ihRight =>
      intro name keyword opened rest
      rw [occurs_joined found (by simp) (by simp), List.append_assoc, ih name keyword, or_assoc,
        List.cons_append, Token.loneNames_operator (nests_of_joins? found), ihRight name keyword]
  | conditional testPhrase consequentPhrase alternatePhrase ih ihThen ihElse =>
      intro name keyword opened rest
      rw [occurs_inside (by simp), List.append_assoc, ih name keyword]
      simp [loneNames, parts, ihThen name keyword, ihElse name keyword, or_assoc]
  | assign found assignable targetPhrase valuePhrase ih ihValue =>
      intro name keyword opened rest
      rw [occurs_two rfl (by simp), List.append_assoc, ih name keyword, or_assoc,
        List.cons_append, Token.loneNames_operator (nests_of_assignOp? found), ihValue name keyword]
  | @arrow params head written valid body row phrase ih =>
      intro name keyword opened rest
      rw [occurs_one rfl (by simp), ← ih name keyword]
      cases written with
      | single param => simp [loneNames]
      | several params =>
          simp [loneNames, Token.loneNames_parameters (show Punct.leftParen ≠ .leftBrace by decide)]

/-! ## Programs -/

theorem Statements.tracks {all : List Expr} {row : List Token} (statements : Statements all row)
    {name : String} (keyword : isKeyword name = true) :
    name ∈ loneNames [] false row ↔ ∃ statement ∈ all, statement.Occurs (.ident name) := by
  induction statements with
  | nil => simp [loneNames]
  | skip others ih => simpa [loneNames] using ih
  | last phrase => simpa [loneNames] using phrase.tracks name keyword [] []
  | more phrase rest ih =>
      rw [phrase.tracks name keyword, List.exists_mem_cons_iff, ← ih]
      simp [loneNames]

theorem Statements.parameters {all : List Expr} {row : List Token} (statements : Statements all row)
    {params : List String} {body : Expr} :
    ∀ statement ∈ all, statement.Occurs (.arrow params body) →
      ∀ param ∈ params, isKeyword param = false := by
  induction statements with
  | nil => exact fun _ member => nomatch member
  | skip others ih => exact ih
  | last phrase => exact List.forall_mem_singleton.mpr phrase.parameters
  | more phrase rest ih => exact List.forall_mem_cons.mpr ⟨phrase.parameters, ih⟩

/-- What occurs in a program and is no row of statements occurs in one of its statements. -/
theorem occurs_joinStatements {all : List Expr} {inner : Expr}
    (other : ∀ statements, inner ≠ sequence statements) :
    (Parser.joinStatements all).Occurs inner ↔ ∃ statement ∈ all, statement.Occurs inner := by
  unfold Parser.joinStatements
  split
  next => simp
  next => exact occurs_inside (other all)

/-- In every program that is read, no parameter is the name of a constant, and no variable is if and
only if no name of a constant stands alone as an entry of an object. -/
theorem keywords_are_no_variables_iff {source : String} {program : Expr}
    (parsed : parse source = .ok program) :
    (∀ params body, program.Occurs (.arrow params body) →
      ∀ param ∈ params, isKeyword param = false) ∧
    ∃ lexemes, Lexeme.ofText source.toList = .ok lexemes ∧
      ((∀ name, program.Occurs (.ident name) → isKeyword name = false) ↔
        ∀ name ∈ loneNames [] false (lexemes.map Lexeme.token), isKeyword name = false) := by
  obtain ⟨lexemes, lexed, read⟩ := parse_eq_ok_iff.mp parsed
  obtain ⟨all, statements, rfl⟩ := ofTokens_eq_ok_iff.mp read
  constructor
  · intro params body occurs
    obtain ⟨statement, member, inside⟩ := (occurs_joinStatements (by simp)).mp occurs
    exact statements.parameters statement member inside
  · refine ⟨lexemes, lexed, forall_congr' fun name => ?_⟩
    rw [occurs_joinStatements (by simp)]
    cases keyword : isKeyword name with
    | false => simp
    | true => rw [statements.tracks keyword]

/-- The object `true: x, y`, in braces. -/
theorem keyed_true_is_no_variable :
    parse "\x7btrue: x, y\x7d" = .ok (.object [("true", .ident "x"), ("y", .ident "y")]) ∧
      ∀ name, (object [("true", .ident "x"), ("y", .ident "y")]).Occurs (.ident name) →
        isKeyword name = false := by
  have lexed : Lexeme.ofText "\x7btrue: x, y\x7d".toList = .ok [⟨.punct .leftBrace, 0⟩,
      ⟨.ident "true", 1⟩, ⟨.punct .colon, 5⟩, ⟨.ident "x", 7⟩, ⟨.punct .comma, 8⟩, ⟨.ident "y", 10⟩,
      ⟨.punct .rightBrace, 11⟩] := rfl
  have parsed : parse "\x7btrue: x, y\x7d" =
      .ok (.object [("true", .ident "x"), ("y", .ident "y")]) :=
    parse_eq_ok_iff.mpr ⟨_, lexed, rfl⟩
  obtain ⟨-, lexemes, read, iff⟩ := keywords_are_no_variables_iff parsed
  obtain rfl := Except.ok.inj (lexed.symm.trans read)
  exact ⟨parsed, iff.mpr (by decide)⟩

/-- Alone in braces, `true` is a variable of that name. -/
theorem lone_true_is_variable :
    parse "\x7btrue\x7d" = .ok (.object [("true", .ident "true")]) ∧
      (object [("true", .ident "true")]).Occurs (.ident "true") ∧ isKeyword "true" = true := by
  have lexed : Lexeme.ofText "\x7btrue\x7d".toList = .ok [⟨.punct .leftBrace, 0⟩,
      ⟨.ident "true", 1⟩, ⟨.punct .rightBrace, 5⟩] := rfl
  refine ⟨parse_eq_ok_iff.mpr ⟨_, lexed, rfl⟩, ?_, by decide⟩
  exact .part .itself (by simp [parts])

end Expr

end LiveMarkup
