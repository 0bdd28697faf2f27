import LiveMarkup.Proofs.Expr.Printing

/-!
# How expressions begin

A reader decides by the first tokens what it reads.  An expression does not begin with a closing
token, and where it has to be tight it does not begin with an operator.  Only an arrow function
begins with the head of one, which is seen only behind its parameters.
-/

namespace LiveMarkup

open LiveMarkup.Parser (headPunct arrowHead? arrowNames)

/-- Whether punctuation closes or separates expressions. -/
def Punct.closes : Punct → Bool
  | .rightParen | .rightBracket | .rightBrace | .comma | .semicolon => true
  | _ => false

/-- Whether punctuation is an operator before its operand. -/
def Punct.leads : Punct → Bool
  | .bang | .minus | .plus | .plusPlus | .minusMinus => true
  | _ => false

/-- Whether no head of an arrow function begins a row of tokens. -/
def NoHead (tokens : List Token) : Prop :=
  ∀ lexemes : List Lexeme, lexemes.map Lexeme.token = tokens → arrowHead? lexemes = none

/-- How something begins that may be as loose as a level. -/
structure Front (level : Nat) (tokens : List Token) : Prop where
  /-- There is a token. -/
  filled : tokens ≠ []
  /-- It does not close anything. -/
  opens : ∀ p, headPunct tokens = some p → p.closes = false
  /-- An operator before its operand is too loose for some places. -/
  plain : level ≤ 1 → ∀ p, headPunct tokens = some p → p.leads = false
  /-- A name at the beginning is not one of a list of names. -/
  name : ∀ name token rest, tokens = .ident name :: token :: rest →
    token ≠ .punct .comma ∧ token ≠ .punct .rightParen
  /-- What is tighter than an arrow function does not begin like one. -/
  noHead : level ≤ 8 → ∀ rest, headPunct rest ≠ some .arrow → NoHead (tokens ++ rest)

variable {level : Nat} {tokens rest : List Token}

/-! ## Heads -/

theorem noHead_value {token : Token} (name : ∀ text, token ≠ .ident text)
    (punct : ∀ p, token ≠ .punct p) : NoHead (token :: rest) := by
  intro lexemes split
  obtain ⟨⟨token, offset⟩, others, rfl, rfl, -⟩ := List.map_eq_cons_iff.mp split
  cases token with
  | ident text => exact absurd rfl (name text)
  | punct p => exact absurd rfl (punct p)
  | _ => rfl

theorem noHead_punct {p : Punct} (other : p ≠ .leftParen) : NoHead (.punct p :: rest) := by
  intro lexemes split
  obtain ⟨⟨token, offset⟩, others, rfl, rfl, -⟩ := List.map_eq_cons_iff.mp split
  cases p <;> first | rfl | exact absurd rfl other

theorem noHead_ident (name : String) (ends : headPunct rest ≠ some .arrow) :
    NoHead (.ident name :: rest) := by
  intro lexemes split
  obtain ⟨⟨token, offset⟩, others, rfl, rfl, rfl⟩ := List.map_eq_cons_iff.mp split
  match others with
  | [] => rfl
  | ⟨.number _, _⟩ :: _ | ⟨.string _, _⟩ :: _ | ⟨.ident _, _⟩ :: _ => rfl
  | ⟨.punct p, _⟩ :: _ => cases p <;> first | rfl | exact absurd rfl ends

/-- Names are the parameters of an arrow function only if there is a comma or the end of its head
behind the first one. -/
theorem arrowNames_eq_none
    (apart : ∀ name token more, tokens = .ident name :: token :: more →
      token ≠ .punct .comma ∧ (token = .punct .rightParen → headPunct more ≠ some .arrow))
    {lexemes : List Lexeme} (split : lexemes.map Lexeme.token = tokens) :
    arrowNames lexemes = none := by
  match lexemes with
  | [] => rfl
  | ⟨.number _, _⟩ :: _ | ⟨.string _, _⟩ :: _ | ⟨.punct _, _⟩ :: _ => rfl
  | [⟨.ident _, _⟩] => rfl
  | ⟨.ident _, _⟩ :: ⟨.number _, _⟩ :: _ | ⟨.ident _, _⟩ :: ⟨.string _, _⟩ :: _
  | ⟨.ident _, _⟩ :: ⟨.ident _, _⟩ :: _ => rfl
  | ⟨.ident name, _⟩ :: ⟨.punct p, _⟩ :: others =>
      obtain ⟨comma, ends⟩ := apart name (.punct p) (others.map Lexeme.token) split.symm
      cases p with
      | comma => exact absurd rfl comma
      | rightParen =>
          have ends := ends rfl
          match others with
          | [] => rfl
          | ⟨.number _, _⟩ :: _ | ⟨.string _, _⟩ :: _ | ⟨.ident _, _⟩ :: _ => rfl
          | ⟨.punct p, _⟩ :: _ => cases p <;> first | rfl | exact absurd rfl ends
      | _ => rfl

theorem headPunct_append {front : List Token} (filled : front ≠ []) (rest : List Token) :
    headPunct (front ++ rest) = headPunct front := by
  cases front with
  | nil => exact absurd rfl filled
  | cons token front => cases token <;> rfl

/-- What stands in parentheses is not the parameters of an arrow function, unless an arrow is behind
them. -/
theorem noHead_parens {inner : List Token} (front : Front 9 inner)
    (ends : headPunct rest ≠ some .arrow) :
    NoHead (.punct .leftParen :: (inner ++ .punct .rightParen :: rest)) := by
  intro lexemes split
  obtain ⟨⟨token, offset⟩, others, rfl, rfl, behind⟩ := List.map_eq_cons_iff.mp split
  have names : arrowNames others = none := by
    apply arrowNames_eq_none _ behind
    intro name token more begins
    cases inner with
    | nil => exact absurd rfl front.filled
    | cons first inner =>
        obtain ⟨rfl, later⟩ := List.cons.inj begins
        cases inner with
        | nil =>
            obtain ⟨rfl, rfl⟩ := List.cons.inj later
            exact ⟨by simp, fun _ => ends⟩
        | cons second inner =>
            obtain ⟨rfl, -⟩ := List.cons.inj later
            obtain ⟨comma, paren⟩ := front.name name second inner rfl
            exact ⟨comma, fun same => absurd same paren⟩
  have notClosed : headPunct (others.map Lexeme.token) ≠ some .rightParen := by
    rw [behind, headPunct_append front.filled]
    intro closed
    exact absurd (front.opens _ closed) (by decide)
  match others with
  | [] => rfl
  | ⟨.number _, _⟩ :: _ | ⟨.string _, _⟩ :: _ | ⟨.ident _, _⟩ :: _ => exact names
  | ⟨.punct p, _⟩ :: _ => cases p <;> first | exact names | exact absurd rfl notClosed

/-! ## Beginnings -/

/-- A token that no name is and that opens nothing begins something alone. -/
theorem front_of_punct {p : Punct} (opens : p.closes = false) (plain : level ≤ 1 → p.leads = false)
    (other : p ≠ .leftParen) (tokens : List Token) : Front level (.punct p :: tokens) where
  filled := by simp
  opens _ same := Option.some.inj same ▸ opens
  plain tight _ same := Option.some.inj same ▸ plain tight
  name _ _ _ same := by simp at same
  noHead _ _ _ := noHead_punct other

theorem front_of_token {token : Token} (word : ∀ p, token ≠ .punct p) : Front level [token] := by
  have none : headPunct [token] = none := by
    cases token with
    | punct p => exact absurd rfl (word p)
    | _ => rfl
  constructor
  case filled => simp
  case opens => simp [none]
  case plain => simp [none]
  case name => simp
  case noHead =>
    intro _ rest ends
    cases token with
    | number value => exact noHead_value (by simp) (by simp)
    | string text => exact noHead_value (by simp) (by simp)
    | ident name => exact noHead_ident name ends
    | punct p => exact absurd rfl (word p)

/-- Parentheses begin alike whatever stands in them. -/
theorem front_of_parens {inner : List Token} (front : Front 9 inner) :
    Front level (.punct .leftParen :: (inner ++ [.punct .rightParen])) where
  filled := by simp
  opens _ same := Option.some.inj same ▸ rfl
  plain _ _ same := Option.some.inj same ▸ rfl
  name _ _ _ same := by simp at same
  noHead _ rest ends := by
    simpa using noHead_parens front ends

/-- An operator behind something does not change how it begins. -/
theorem Front.extend {inner : Nat} {first : List Token} (front : Front inner first) {p : Punct}
    (tight : inner ≤ 8) (looser : level ≤ 1 → inner ≤ 1)
    (other : p ≠ .comma ∧ p ≠ .rightParen ∧ p ≠ .arrow) (second : List Token) :
    Front level (first ++ .punct p :: second) where
  filled := by simp
  opens q same := by
    rw [headPunct_append front.filled] at same
    exact front.opens q same
  plain low q same := by
    rw [headPunct_append front.filled] at same
    exact front.plain (looser low) q same
  name name token rest same := by
    cases first with
    | nil => exact absurd rfl front.filled
    | cons head first =>
        obtain ⟨rfl, later⟩ := List.cons.inj same
        cases first with
        | nil =>
            obtain ⟨rfl, -⟩ := List.cons.inj later
            simp [other]
        | cons next first =>
            obtain ⟨rfl, -⟩ := List.cons.inj later
            exact front.name name next first rfl
  noHead _ rest _ := by
    rw [List.append_assoc]
    apply front.noHead tight
    simpa [headPunct] using other.2.2

end LiveMarkup
