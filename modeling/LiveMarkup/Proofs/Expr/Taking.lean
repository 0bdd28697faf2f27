import LiveMarkup.Expr.Parser

/-!
# What readers take

A reader takes a row of tokens if it reads exactly these, wherever they stand, and leaves whatever
comes behind them.  How far a reader goes depends on what comes next, so there is a condition on
that: an expression must not be followed by something that continues it.
-/

namespace LiveMarkup

namespace Parser

variable {α β : Type}

/-- The punctuation that a row of tokens begins with. -/
def headPunct : List Token → Option Punct
  | .punct p :: _ => some p
  | _ => none

/-- Whether a reader takes exactly some tokens and yields a result, given what comes next. -/
def Takes (reader : Parser α) (tokens : List Token) (result : α) (behind : List Token → Prop) :
    Prop :=
  ∀ lexemes rest : List Lexeme, lexemes.map Lexeme.token = tokens →
    behind (rest.map Lexeme.token) → reader (lexemes ++ rest) = .ok (result, rest)

/-- Nothing is asked of what comes next. -/
abbrev Anything (_ : List Token) : Prop := True

namespace Takes

variable {tokens more : List Token} {behind before : List Token → Prop} {result : β} {a : α}

theorem weaken {reader : Parser α} (takes : Takes reader tokens a before)
    (fits : ∀ rest, behind rest → before rest) : Takes reader tokens a behind :=
  fun lexemes rest split holds => takes lexemes rest split (fits _ holds)

theorem pure (a : α) : Takes (Pure.pure a) [] a behind := by
  intro lexemes rest split holds
  rw [List.map_eq_nil_iff.mp split]
  rfl

theorem bind {reader : Parser α} {later : α → Parser β} (first : Takes reader tokens a before)
    (second : Takes (later a) more result behind)
    (fits : ∀ rest, behind rest → before (more ++ rest)) :
    Takes (reader >>= later) (tokens ++ more) result behind := by
  intro lexemes rest split holds
  obtain ⟨front, back, rfl, rfl, rfl⟩ := List.map_eq_append_iff.mp split
  have start : reader (front ++ (back ++ rest)) = .ok (a, back ++ rest) := by
    apply first front (back ++ rest) rfl
    rw [List.map_append]
    exact fits _ holds
  change ((reader (front ++ back ++ rest)).bind fun read => later read.1 read.2) = _
  rw [List.append_assoc, start]
  exact second back rest rfl holds

/-- A reader may look at what comes next without taking it. -/
theorem thenNothing {reader : Parser α} {later : α → Parser β}
    (first : Takes reader tokens a before) (second : Takes (later a) [] result behind)
    (fits : ∀ rest, behind rest → before rest) : Takes (reader >>= later) tokens result behind := by
  rw [← List.append_nil tokens]
  exact first.bind second fits

theorem yield {reader : Parser α} {make : α → β} (first : Takes reader tokens a behind) :
    Takes (do return make (← reader)) tokens (make a) behind :=
  first.thenNothing (pure (make a)) fun _ holds => holds

/-- What comes next may also decide. -/
theorem peek {later : Option Punct → Parser β} (seen : Option Punct → Prop)
    (sees : ∀ rest, behind rest → seen (headPunct (tokens ++ rest)))
    (each : ∀ head, seen head → Takes (later head) tokens result behind) :
    Takes (peekPunct >>= later) tokens result behind := by
  intro lexemes rest split holds
  subst split
  have head : peekPunct (lexemes ++ rest) =
      .ok (headPunct ((lexemes ++ rest).map Lexeme.token), lexemes ++ rest) := by
    unfold peekPunct headPunct
    cases lexemes ++ rest with
    | nil => rfl
    | cons lexeme others =>
        obtain ⟨token, offset⟩ := lexeme
        cases token <;> rfl
  change ((peekPunct (lexemes ++ rest)).bind fun read => later read.1 read.2) = _
  rw [head, List.map_append]
  exact each _ (sees _ holds) lexemes rest rfl holds

theorem remaining {later : Nat → Parser β}
    (each : ∀ count, tokens.length ≤ count → Takes (later count) tokens result behind) :
    Takes (Parser.remaining >>= later) tokens result behind := by
  intro lexemes rest split holds
  apply each (lexemes ++ rest).length _ lexemes rest split holds
  rw [← split, List.length_map, List.length_append]
  omega

/-- At the end of a text the number of tokens that are left is known. -/
theorem remainingAtEnd {later : Nat → Parser β}
    (second : Takes (later tokens.length) tokens result (· = [])) :
    Takes (Parser.remaining >>= later) tokens result (· = []) := by
  intro lexemes rest split last
  have count : (lexemes ++ rest).length = tokens.length := by
    rw [List.map_eq_nil_iff.mp last, List.append_nil, ← split, List.length_map]
  change later (lexemes ++ rest).length (lexemes ++ rest) = _
  rw [count]
  exact second lexemes rest split last

theorem advance {later : Unit → Parser β} {token : Token}
    (second : Takes (later ()) tokens result behind) :
    Takes (Parser.advance >>= later) (token :: tokens) result behind := by
  have first : Takes Parser.advance [token] () Anything := by
    intro lexemes rest split _
    obtain ⟨lexeme, rfl, rfl⟩ := List.map_eq_singleton_iff.mp split
    rfl
  exact first.bind second fun _ _ => trivial

theorem next {later : Option Lexeme → Parser β} {token : Token}
    (each : ∀ offset, Takes (later (some ⟨token, offset⟩)) tokens result behind) :
    Takes (Parser.next >>= later) (token :: tokens) result behind := by
  intro lexemes rest split holds
  obtain ⟨⟨token, offset⟩, others, rfl, rfl, rfl⟩ := List.map_eq_cons_iff.mp split
  exact each offset others rest rfl holds

theorem eat {later : Bool → Parser β} {p : Punct}
    (second : Takes (later true) tokens result behind) :
    Takes (Parser.eat p >>= later) (.punct p :: tokens) result behind := by
  have first : Takes (Parser.eat p) [.punct p] true Anything := by
    intro lexemes rest split _
    obtain ⟨⟨token, offset⟩, rfl, rfl⟩ := List.map_eq_singleton_iff.mp split
    simp [Parser.eat]
  exact first.bind second fun _ _ => trivial

theorem skip {later : Bool → Parser β} {p : Punct}
    (misses : ∀ rest, behind rest → headPunct (tokens ++ rest) ≠ some p)
    (second : Takes (later false) tokens result behind) :
    Takes (Parser.eat p >>= later) tokens result behind := by
  have first : Takes (Parser.eat p) [] false fun rest => headPunct rest ≠ some p := by
    intro lexemes rest split other
    rw [List.map_eq_nil_iff.mp split]
    match rest with
    | [] => rfl
    | ⟨.number value, offset⟩ :: _ => rfl
    | ⟨.string text, offset⟩ :: _ => rfl
    | ⟨.ident name, offset⟩ :: _ => rfl
    | ⟨.punct q, offset⟩ :: _ =>
        have differs : q ≠ p := fun same => other (same ▸ rfl)
        simp [Parser.eat, differs]
  exact first.bind second misses

theorem expect {later : Unit → Parser β} {p : Punct} (expected : Expectation)
    (second : Takes (later ()) tokens result behind) :
    Takes (Parser.expect p expected >>= later) (.punct p :: tokens) result behind := by
  have first : Takes (Parser.expect p expected) [.punct p] () Anything := eat (pure ())
  exact first.bind second fun _ _ => trivial

end Takes

/-! ## Lists -/

/-- Rows of tokens with a token between them. -/
def separated (p : Punct) (rows : List (List Token)) : List Token := [.punct p].intercalate rows

/-- Rows of tokens with commas between them. -/
abbrev commas (rows : List (List Token)) : List Token := separated .comma rows

section Separated

variable (p : Punct)

@[simp]
theorem separated_nil : separated p [] = [] := rfl

@[simp]
theorem separated_singleton (row : List Token) : separated p [row] = row := by
  simp [separated]

@[simp]
theorem separated_cons_cons (row next : List Token) (rest : List (List Token)) :
    separated p (row :: next :: rest) = row ++ .punct p :: separated p (next :: rest) := by
  simp [separated]

end Separated

/-- An item of a list with the tokens it is written as. -/
abbrev Item (α : Type) : Type := α × List Token

end Parser

end LiveMarkup
