import LiveMarkup.Proofs.Expr.Front

/-!
# Reading one level after another

An expression ends where nothing behind it continues it.  What continues it depends on the level at
which it is read.  A level begins with an expression of the tighter level before it and goes on as
long as operators of its own come; so what is read at a level is also read at the looser ones, and
an operand with an operator behind it is the beginning of what the operator makes of it.
-/

namespace LiveMarkup

namespace Parser

/-- The level at which punctuation behind an expression continues it. -/
def binds : Punct → Option Nat
  | .dot | .leftBracket | .leftParen => some 0
  | .plusPlus | .minusMinus => some 1
  | .star | .slash | .percent => some 3
  | .plus | .minus => some 4
  | .less | .lessEqual | .greater | .greaterEqual => some 5
  | .equal | .notEqual | .strictEqual | .strictNotEqual => some 6
  | .andAnd => some 7
  | .orOr => some 8
  | .question | .arrow | .assign | .plusAssign | .minusAssign | .starAssign | .slashAssign => some 9
  | _ => none

/-- Whether nothing continues an expression that is read at a level. -/
def Follows (level : Nat) (rest : List Token) : Prop :=
  ∀ p bound, headPunct rest = some p → binds p = some bound → level < bound

theorem Follows.mono {level tighter : Nat} {rest : List Token} (follows : Follows level rest)
    (le : tighter ≤ level) : Follows tighter rest :=
  fun p bound head binds => Nat.lt_of_le_of_lt le (follows p bound head binds)

theorem follows_looser {level bound : Nat} {p : Punct} (continues : binds p = some bound)
    (looser : level < bound) (rest : List Token) : Follows level (.punct p :: rest) := by
  intro q other head binds
  obtain rfl := Option.some.inj head
  obtain rfl := Option.some.inj (continues.symm.trans binds)
  exact looser

theorem follows_free {level : Nat} {p : Punct} (free : binds p = none) (rest : List Token) :
    Follows level (.punct p :: rest) := by
  intro q bound head binds
  obtain rfl := Option.some.inj head
  rw [free] at binds
  contradiction

theorem Follows.ne {level bound : Nat} {rest : List Token} (follows : Follows level rest)
    {p : Punct} (continues : binds p = some bound) (le : bound ≤ level) :
    headPunct rest ≠ some p :=
  fun head => absurd (follows p bound head continues) (Nat.not_lt.mpr le)

/-- The operators of a level between operands. -/
def joins? : Nat → Punct → Option (Expr → Expr → Expr)
  | 3 => productOp?
  | 4 => sumOp?
  | 5 => orderOp?
  | 6 => equalityOp?
  | 7 => andOp?
  | 8 => orOp?
  | _ => fun _ => none

theorem binds_of_joins? {level : Nat} {p : Punct} {join : Expr → Expr → Expr}
    (found : joins? level p = some join) : binds p = some level := by
  unfold joins? at found
  split at found <;> cases p <;> first | rfl | contradiction

/-- The reader of a level. -/
def level (whole : Parser Expr) : Nat → Parser Expr
  | 0 => callOrMember whole
  | 1 => postfixUpdate whole
  | 2 => operand whole
  | n + 3 => leftAssociative (level whole (n + 2)) (joins? (n + 3))

variable {whole : Parser Expr} {tokens : List Token} {expr : Expr}

/-- Whether the reader of a level begins with an expression and goes on behind it, where members,
calls and operators of the level may come. -/
def Opens (whole : Parser Expr) (tokens : List Token) (expr : Expr) : Nat → Prop
  | 0 => ∀ lexemes rest, lexemes.map Lexeme.token = tokens →
      ∃ fuel, rest.length ≤ fuel ∧
        callOrMember whole (lexemes ++ rest) = accesses whole fuel expr rest
  | 1 => Takes (postfixUpdate whole) tokens expr (Follows 1)
  | 2 => ∀ fuel, tokens.length ≤ fuel → Takes (unary whole fuel) tokens expr (Follows 2)
  | n + 3 => ∀ lexemes rest, lexemes.map Lexeme.token = tokens →
      Follows (n + 2) (rest.map Lexeme.token) →
      ∃ fuel, rest.length ≤ fuel ∧ level whole (n + 3) (lexemes ++ rest) =
        chain (level whole (n + 2)) (joins? (n + 3)) fuel expr rest

/-! ## Ends -/

theorem accesses_stop {rest : List Lexeme} (follows : Follows 0 (rest.map Lexeme.token))
    (fuel : Nat) (base : Expr) : accesses whole fuel base rest = .ok (base, rest) := by
  cases fuel with
  | zero => rfl
  | succ fuel =>
      match rest with
      | [] => rfl
      | ⟨.number _, _⟩ :: _ | ⟨.string _, _⟩ :: _ | ⟨.ident _, _⟩ :: _ => rfl
      | ⟨.punct p, _⟩ :: _ =>
          cases p with
          | dot => exact absurd rfl (follows.ne (p := .dot) rfl (Nat.le_refl _))
          | leftBracket => exact absurd rfl (follows.ne rfl (Nat.le_refl _))
          | leftParen => exact absurd rfl (follows.ne rfl (Nat.le_refl _))
          | _ => rfl

theorem chain_stop {n fuel : Nat} {reader : Parser Expr} :
    Takes (chain reader (joins? n) fuel expr) [] expr (Follows n) := by
  cases fuel with
  | zero => exact .pure expr
  | succ fuel =>
      apply Takes.peek fun head => head.bind (joins? n) = none
      · intro rest follows
        cases head : headPunct rest with
        | none => simp [head]
        | some p =>
            cases found : joins? n p with
            | none => simp [head, found]
            | some join => exact absurd head (follows.ne (binds_of_joins? found) (Nat.le_refl _))
      · intro head none
        rw [none]
        exact .pure expr

/-- What a level begins with is read at that level, if nothing continues it. -/
theorem Opens.takes {n : Nat} (opens : Opens whole tokens expr n) :
    Takes (level whole n) tokens expr (Follows n) := by
  match n with
  | 0 =>
      intro lexemes rest split follows
      obtain ⟨fuel, -, begins⟩ := opens lexemes rest split
      rw [level, begins]
      exact accesses_stop follows fuel expr
  | 1 => exact opens
  | 2 => exact .remaining opens
  | n + 3 =>
      intro lexemes rest split follows
      obtain ⟨fuel, -, begins⟩ := opens lexemes rest split (follows.mono (Nat.le_succ _))
      rw [begins]
      exact chain_stop [] rest rfl follows

/-! ## Looser levels -/

theorem takes_postfixUpdate (opens : Opens whole tokens expr 0) :
    Takes (postfixUpdate whole) tokens expr (Follows 1) := by
  apply opens.takes.thenNothing
  · apply Takes.peek fun head => head ≠ some .plusPlus ∧ head ≠ some .minusMinus
    · exact fun rest follows => ⟨follows.ne rfl (Nat.le_refl _), follows.ne rfl (Nat.le_refl _)⟩
    · intro head other
      split
      · exact absurd rfl other.1
      · exact absurd rfl other.2
      · exact .pure expr
  · exact fun rest follows => follows.mono (Nat.zero_le _)

theorem takes_unary (takes : Takes (postfixUpdate whole) tokens expr (Follows 1))
    (plain : ∀ rest p, headPunct (tokens ++ rest) = some p → p.leads = false) (fuel : Nat) :
    Takes (unary whole fuel) tokens expr (Follows 2) := by
  have here : Takes (postfixUpdate whole) tokens expr (Follows 2) :=
    takes.weaken fun rest follows => follows.mono (Nat.le_succ _)
  cases fuel with
  | zero => exact here
  | succ fuel =>
      apply Takes.peek fun head => ∀ p, head = some p → p.leads = false
      · exact fun rest _ => plain rest
      · intro head plain
        split
        · exact absurd (plain _ rfl) (by decide)
        · exact absurd (plain _ rfl) (by decide)
        · exact absurd (plain _ rfl) (by decide)
        · exact absurd (plain _ rfl) (by decide)
        · exact absurd (plain _ rfl) (by decide)
        · exact here

theorem opens_chain {n : Nat} (takes : Takes (level whole (n + 2)) tokens expr (Follows (n + 2))) :
    Opens whole tokens expr (n + 3) := by
  intro lexemes rest split follows
  refine ⟨rest.length, Nat.le_refl _, ?_⟩
  have first := takes lexemes rest split follows
  change ((level whole (n + 2) (lexemes ++ rest)).bind fun read =>
    (remaining read.2).bind fun count =>
      chain (level whole (n + 2)) (joins? (n + 3)) count.1 read.1 count.2) = _
  rw [first]
  rfl

/-- What is read at a level is also read at the next looser one.  Where operators may stand before
their operand, it must not begin with one. -/
theorem Opens.climb {n : Nat} (opens : Opens whole tokens expr n)
    (plain : n ≤ 1 → ∀ rest p, headPunct (tokens ++ rest) = some p → p.leads = false) :
    Opens whole tokens expr (n + 1) := by
  match n with
  | 0 => exact takes_postfixUpdate opens
  | 1 => exact fun fuel _ => takes_unary opens (plain (Nat.le_refl _)) fuel
  | n + 2 => exact opens_chain opens.takes

theorem Opens.loosen {own n : Nat} (opens : Opens whole tokens expr own) (front : Front own tokens)
    (le : own ≤ n) : Opens whole tokens expr n := by
  induction n, le using Nat.le_induction with
  | base => exact opens
  | succ n le ih =>
      apply ih.climb
      intro tight rest p head
      rw [headPunct_append front.filled] at head
      exact front.plain (Nat.le_trans le tight) p head

/-! ## Operators between operands -/

theorem chain_step {reader : Parser Expr} {ops : Punct → Option (Expr → Expr → Expr)} {p : Punct}
    {join : Expr → Expr → Expr} (found : ops p = some join) (fuel offset : Nat) (left : Expr)
    (rest : List Lexeme) :
    chain reader ops (fuel + 1) left (⟨.punct p, offset⟩ :: rest) =
      (reader rest).bind fun read => chain reader ops fuel (join left read.1) read.2 := by
  have joined : (some p).bind ops = some join := found
  simp only [chain, peekPunct, bind, StateT.bind, Except.bind, joined]
  rfl

/-- An operator joins the operand before it and the tighter one behind it. -/
theorem Opens.join {n : Nat} {p : Punct} {join : Expr → Expr → Expr}
    (found : joins? (n + 3) p = some join) {left right : Expr} {first second : List Token}
    (opensLeft : Opens whole first left (n + 3)) (opensRight : Opens whole second right (n + 2)) :
    Opens whole (first ++ .punct p :: second) (join left right) (n + 3) := by
  intro lexemes rest split follows
  obtain ⟨front, others, rfl, rfl, later⟩ := List.map_eq_append_iff.mp split
  obtain ⟨⟨token, offset⟩, back, rfl, rfl, rfl⟩ := List.map_eq_cons_iff.mp later
  have behind : Follows (n + 2) ((⟨.punct p, offset⟩ :: (back ++ rest)).map Lexeme.token) :=
    follows_looser (binds_of_joins? found) (Nat.lt_succ_self _) _
  obtain ⟨fuel, enough, begins⟩ := opensLeft front _ rfl behind
  obtain ⟨fuel, rfl⟩ := Nat.exists_eq_add_of_le' (Nat.le_trans (Nat.le_add_left 1 _) enough)
  have operand := opensRight.takes back rest rfl follows
  refine ⟨fuel, ?_, ?_⟩
  · simp only [List.length_cons, List.length_append] at enough
    omega
  · rw [List.append_assoc, List.cons_append, begins, chain_step found, operand]
    rfl

/-! ## Members and calls -/

theorem opens_primary (takes : Takes (primary whole) tokens expr Anything) :
    Opens whole tokens expr 0 := by
  intro lexemes rest split
  refine ⟨rest.length, Nat.le_refl _, ?_⟩
  have first := takes lexemes rest split trivial
  change ((primary whole (lexemes ++ rest)).bind fun read =>
    (remaining read.2).bind fun count => accesses whole count.1 read.1 count.2) = _
  rw [first]
  rfl

/-- What stands behind an expression makes a greater one of it. -/
theorem Opens.extend {made : Expr} {more : List Token} (opens : Opens whole tokens expr 0)
    (step : ∀ lexemes rest fuel, lexemes.map Lexeme.token = more →
      accesses whole (fuel + 1) expr (lexemes ++ rest) = accesses whole fuel made rest)
    (filled : more ≠ []) : Opens whole (tokens ++ more) made 0 := by
  intro lexemes rest split
  obtain ⟨front, back, rfl, rfl, rfl⟩ := List.map_eq_append_iff.mp split
  obtain ⟨fuel, enough, begins⟩ := opens front (back ++ rest) rfl
  have some : 0 < back.length := by simpa [List.length_pos_iff] using filled
  rw [List.length_append] at enough
  obtain ⟨fuel, rfl⟩ := Nat.exists_eq_add_of_le' (by omega : 1 ≤ fuel)
  refine ⟨fuel, by omega, ?_⟩
  rw [List.append_assoc, begins, step back rest fuel rfl]

theorem opens_member (opens : Opens whole tokens expr 0) (property : String) :
    Opens whole (tokens ++ [.punct .dot, .ident property]) (.member expr property) 0 := by
  apply opens.extend
  · intro lexemes rest fuel split
    obtain ⟨⟨token, offset⟩, others, rfl, rfl, later⟩ := List.map_eq_cons_iff.mp split
    obtain ⟨⟨token, offset⟩, rfl, rfl⟩ := List.map_eq_singleton_iff.mp later
    rfl
  · simp

theorem opens_index (opens : Opens whole tokens expr 0) {place : Expr} {placeTokens : List Token}
    (takes : Takes whole placeTokens place (Follows 9)) :
    Opens whole (tokens ++ .punct .leftBracket :: (placeTokens ++ [.punct .rightBracket]))
      (.index expr place) 0 := by
  apply opens.extend
  · intro lexemes rest fuel split
    obtain ⟨⟨token, offset⟩, others, rfl, rfl, later⟩ := List.map_eq_cons_iff.mp split
    obtain ⟨front, last, rfl, inside, closing⟩ := List.map_eq_append_iff.mp later
    obtain ⟨⟨token, offset⟩, rfl, rfl⟩ := List.map_eq_singleton_iff.mp closing
    have closed : Follows 9 ((⟨.punct .rightBracket, offset⟩ :: rest).map Lexeme.token) :=
      follows_free rfl _
    have read := takes front (⟨.punct .rightBracket, offset⟩ :: rest) inside closed
    change ((whole (front ++ [_] ++ rest)).bind fun read =>
      (expect .rightBracket .closingBracket read.2).bind fun shut =>
        accesses whole fuel (.index expr read.1) shut.2) = _
    rw [List.append_assoc, List.singleton_append, read]
    rfl
  · simp

theorem opens_call (opens : Opens whole tokens expr 0) {args : List Expr}
    {argsTokens : List Token}
    (takes : Takes (list .rightParen whole) (argsTokens ++ [.punct .rightParen]) args Anything) :
    Opens whole (tokens ++ .punct .leftParen :: (argsTokens ++ [.punct .rightParen]))
      (.call expr args) 0 := by
  apply opens.extend
  · intro lexemes rest fuel split
    obtain ⟨⟨token, offset⟩, others, rfl, rfl, later⟩ := List.map_eq_cons_iff.mp split
    have read := takes others rest later trivial
    change ((list .rightParen whole (others ++ rest)).bind fun read =>
      accesses whole fuel (.call expr read.1) read.2) = _
    rw [read]
    rfl
  · simp

end Parser

end LiveMarkup
