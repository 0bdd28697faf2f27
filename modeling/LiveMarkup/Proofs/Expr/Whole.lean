import LiveMarkup.Proofs.Expr.Level

/-!
# Reading whole expressions

Heads of arrow functions, choices and assignments are read above all operators.  What is read at its
own level is read at every looser one and as a whole, as long as the bound on the nesting leaves room
for its tokens.
-/

namespace LiveMarkup

open LiveMarkup.Parser (commas separated_cons_cons headPunct Takes Anything Follows Opens)

namespace Parser

variable {whole : Parser Expr} {tokens rest : List Token} {expr : Expr}

/-! ## Whole assignments -/

theorem Takes.noHead {later : Option (List String) → Parser Expr} {behind : List Token → Prop}
    (misses : ∀ rest, behind rest → NoHead (tokens ++ rest))
    (second : Takes (later none) tokens expr behind) :
    Takes (arrowHead >>= later) tokens expr behind := by
  intro lexemes rest split holds
  have missed : arrowHead? (lexemes ++ rest) = none := by
    apply misses _ holds
    rw [List.map_append, split]
  have head : arrowHead (lexemes ++ rest) = .ok (none, lexemes ++ rest) := by
    rw [arrowHead, missed]
  change ((arrowHead (lexemes ++ rest)).bind fun read => later read.1 read.2) = _
  rw [head]
  exact second lexemes rest split holds

theorem arrowNames_of_commas {param : String} {params : List String}
    (valid : ∀ name ∈ param :: params, isKeyword name = false) {lexemes : List Lexeme}
    (split : lexemes.map Lexeme.token = commas ((param :: params).map fun name => [.ident name]) ++
      [.punct .rightParen, .punct .arrow]) (rest : List Lexeme) :
    arrowNames (lexemes ++ rest) = some (param :: params, rest) := by
  have keyword : isKeyword param = false := valid param List.mem_cons_self
  induction params generalizing param lexemes with
  | nil =>
      obtain ⟨⟨token, offset⟩, others, rfl, rfl, later⟩ := List.map_eq_cons_iff.mp split
      obtain ⟨⟨token, offset⟩, others, rfl, rfl, last⟩ := List.map_eq_cons_iff.mp later
      obtain ⟨⟨token, offset⟩, rfl, rfl⟩ := List.map_eq_singleton_iff.mp last
      simp [arrowNames, keyword]
  | cons next params ih =>
      rw [List.map_cons, List.map_cons, commas, separated_cons_cons] at split
      obtain ⟨⟨token, offset⟩, others, rfl, rfl, later⟩ := List.map_eq_cons_iff.mp split
      obtain ⟨⟨token, offset⟩, others, rfl, rfl, behind⟩ := List.map_eq_cons_iff.mp later
      have othersValid : ∀ name ∈ next :: params, isKeyword name = false :=
        fun name member => valid name (List.mem_cons_of_mem param member)
      have read := ih othersValid behind (othersValid next List.mem_cons_self)
      simp [arrowNames, keyword, read]

/-- The head of an arrow function is read if its parameters are no keywords. -/
theorem arrowHead?_of_head {params : List String} {head : List Token}
    (written : Expr.Head params head) (valid : ∀ param ∈ params, isKeyword param = false)
    {lexemes : List Lexeme} (split : lexemes.map Lexeme.token = head) (rest : List Lexeme) :
    arrowHead? (lexemes ++ rest) = some (params, rest) := by
  cases written with
  | single param =>
      obtain ⟨⟨token, offset⟩, others, rfl, rfl, later⟩ := List.map_eq_cons_iff.mp split
      obtain ⟨⟨token, offset⟩, rfl, rfl⟩ := List.map_eq_singleton_iff.mp later
      simp [arrowHead?, valid]
  | several params =>
      obtain ⟨⟨token, offset⟩, others, rfl, rfl, later⟩ := List.map_eq_cons_iff.mp split
      cases params with
      | nil =>
          obtain ⟨⟨token, offset⟩, others, rfl, rfl, last⟩ := List.map_eq_cons_iff.mp later
          obtain ⟨⟨token, offset⟩, rfl, rfl⟩ := List.map_eq_singleton_iff.mp last
          rfl
      | cons param params =>
          have names := arrowNames_of_commas valid later rest
          have first : ∃ offset more, others = ⟨.ident param, offset⟩ :: more := by
            cases params with
            | nil =>
                obtain ⟨⟨token, offset⟩, more, rfl, rfl, -⟩ := List.map_eq_cons_iff.mp later
                exact ⟨offset, more, rfl⟩
            | cons next params =>
                rw [List.map_cons, List.map_cons, commas, separated_cons_cons] at later
                obtain ⟨⟨token, offset⟩, more, rfl, rfl, -⟩ := List.map_eq_cons_iff.mp later
                exact ⟨offset, more, rfl⟩
          obtain ⟨offset, more, rfl⟩ := first
          exact names

theorem Takes.head {params : List String} {head : List Token} (written : Expr.Head params head)
    (valid : ∀ param ∈ params, isKeyword param = false)
    {later : Option (List String) → Parser Expr} {behind : List Token → Prop}
    (second : Takes (later (some params)) tokens expr behind) :
    Takes (arrowHead >>= later) (head ++ tokens) expr behind := by
  have first : Takes arrowHead head (some params) Anything := by
    intro lexemes rest split _
    rw [arrowHead, arrowHead?_of_head written valid split rest]
  exact first.bind second fun _ _ => trivial

/-- What binds tighter than a conditional is read where a conditional may stand. -/
theorem takes_conditional (opens : Opens whole tokens expr 8) :
    Takes (conditional whole) tokens expr
      fun rest => Follows 8 rest ∧ headPunct rest ≠ some .question := by
  have test : Takes (disjunction whole) tokens expr (Follows 8) := opens.takes
  apply test.thenNothing
  · apply Takes.skip
    · exact fun rest ends => ends.2
    · exact .pure expr
  · exact fun rest ends => ends.1

theorem takes_choice {test consequent alternate : Expr} {first second third : List Token}
    (opens : Opens whole first test 8) (takesThen : Takes whole second consequent (Follows 9))
    (takesElse : Takes whole third alternate (Follows 9)) :
    Takes (conditional whole) (first ++ .punct .question :: (second ++ .punct .colon :: third))
      (.conditional test consequent alternate) (Follows 9) := by
  have start : Takes (disjunction whole) first test (Follows 8) := opens.takes
  apply start.bind
  · apply Takes.eat
    apply takesThen.bind
    · exact .expect _ takesElse.yield
    · exact fun rest _ => follows_free rfl _
  · exact fun rest _ => follows_looser rfl (Nat.lt_succ_self 8) _

theorem binds_of_assignOp? {p : Punct} {op : AssignOp} (found : assignOp? p = some op) :
    binds p = some 9 := by
  cases p <;> first | rfl | contradiction

/-- What is read where a conditional may stand is read as a whole. -/
theorem takes_assignment {depth : Nat}
    (takes : Takes (conditional (assignment depth)) tokens expr (Follows 9))
    (noHead : ∀ rest, headPunct rest ≠ some .arrow → NoHead (tokens ++ rest)) :
    Takes (assignment (depth + 1)) tokens expr (Follows 9) := by
  rw [assignment]
  apply Takes.noHead
  · exact fun rest follows => noHead rest (follows.ne rfl (Nat.le_refl _))
  apply takes.thenNothing
  · apply Takes.peek fun head => head.bind assignOp? = none
    · intro rest follows
      cases head : headPunct rest with
      | none => simp [head]
      | some p =>
          cases found : assignOp? p with
          | none => simp [head, found]
          | some op => exact absurd head (follows.ne (binds_of_assignOp? found) (Nat.le_refl _))
    · intro head none
      rw [none]
      exact .pure expr
  · exact fun rest follows => follows

/-- An assignment is read if its target is no arrow function and can be assigned to. -/
theorem takes_assign {depth : Nat} {p : Punct} {op : AssignOp} (found : assignOp? p = some op)
    {target value : Expr} {first second : List Token} (assignable : target.isAssignable = true)
    (opens : Opens (assignment depth) first target 8)
    (takes : Takes (assignment depth) second value (Follows 9))
    (noHead : ∀ rest, headPunct rest ≠ some .arrow → NoHead (first ++ rest)) :
    Takes (assignment (depth + 1)) (first ++ .punct p :: second) (.assign op target value)
      (Follows 9) := by
  have binds := binds_of_assignOp? found
  rw [assignment]
  apply Takes.noHead
  · intro rest _
    rw [List.append_assoc]
    apply noHead
    intro arrow
    obtain rfl : p = .arrow := Option.some.inj arrow
    contradiction
  apply (takes_conditional opens).bind
  · apply Takes.peek fun head => head = some p
    · exact fun _ _ => rfl
    · intro head same
      have joined : head.bind assignOp? = some op := by rw [same]; exact found
      rw [joined]
      simp only [assignable, if_true]
      exact .advance takes.yield
  · intro rest _
    constructor
    · exact follows_looser binds (Nat.lt_succ_self 8) _
    · intro question
      obtain rfl : p = .question := Option.some.inj question
      contradiction

/-! ## Updates and operators before an operand -/

theorem takes_update {target : Expr} (assignable : target.isAssignable = true) (step : Step)
    (before : Bool) {behind : List Token → Prop} :
    Takes (update step before target) [] (.update step before target) behind := by
  rw [update, if_pos assignable]
  exact .pure _

theorem takes_updateAfter {target : Expr} (opens : Opens whole tokens target 0)
    (assignable : target.isAssignable = true) (step : Step) :
    Takes (postfixUpdate whole) (tokens ++ [.punct step.punct]) (.update step false target)
      (Follows 1) := by
  apply opens.takes.bind
  · apply Takes.peek fun head => head = some step.punct
    · exact fun _ _ => rfl
    · rintro head rfl
      cases step with
      | up => exact .advance (takes_update assignable .up false)
      | down => exact .advance (takes_update assignable .down false)
  · intro rest _
    cases step with
    | up => exact follows_looser rfl Nat.one_pos _
    | down => exact follows_looser rfl Nat.one_pos _

theorem opens_updateBefore {target : Expr} (opens : Opens whole tokens target 2)
    (assignable : target.isAssignable = true) (step : Step) :
    Opens whole (.punct step.punct :: tokens) (.update step true target) 2 := by
  intro fuel room
  obtain ⟨fuel, rfl⟩ := Nat.exists_eq_add_of_le' (Nat.le_trans (Nat.le_add_left 1 _) room)
  have operand := opens fuel (Nat.le_of_succ_le_succ room)
  apply Takes.peek fun head => head = some step.punct
  · exact fun _ _ => rfl
  · rintro head rfl
    cases step with
    | up =>
        apply Takes.advance
        exact operand.thenNothing (takes_update assignable .up true) fun _ holds => holds
    | down =>
        apply Takes.advance
        exact operand.thenNothing (takes_update assignable .down true) fun _ holds => holds

theorem opens_unary (opens : Opens whole tokens expr 2) (op : UnaryOp) :
    Opens whole (.punct op.punct :: tokens) (.unary op expr) 2 := by
  intro fuel room
  obtain ⟨fuel, rfl⟩ := Nat.exists_eq_add_of_le' (Nat.le_trans (Nat.le_add_left 1 _) room)
  have operand := opens fuel (Nat.le_of_succ_le_succ room)
  apply Takes.peek fun head => head = some op.punct
  · exact fun _ _ => rfl
  · rintro head rfl
    cases op with
    | not => exact .advance operand.yield
    | neg => exact .advance operand.yield
    | plus => exact .advance operand.yield

end Parser

namespace Expr

/-- How a row of tokens is read as an expression: at its level and every looser one, and as a whole,
with a bound on the nesting that leaves room for its tokens. -/
structure Reads (level : Nat) (expr : Expr) (tokens : List Token) : Prop where
  /-- It begins what is read at its level and at the looser ones. -/
  opens : ∀ depth, tokens.length ≤ depth + 1 → ∀ n, level ≤ n → n ≤ 8 →
    Opens (Parser.assignment depth) tokens expr n
  /-- It is read as a whole. -/
  whole : ∀ depth, tokens.length ≤ depth → Takes (Parser.assignment depth) tokens expr (Follows 9)

variable {level : Nat} {expr : Expr} {tokens : List Token}

/-- What is read at its own level is read at every looser one. -/
theorem reads_of_opens {own : Nat} (front : Front own tokens) (tight : own ≤ 8) (le : own ≤ level)
    (opens : ∀ depth, tokens.length ≤ depth + 1 → Opens (Parser.assignment depth) tokens expr own) :
    Reads level expr tokens := by
  have looser (depth : Nat) (room : tokens.length ≤ depth + 1) (n : Nat) (loose : own ≤ n) :
      Opens (Parser.assignment depth) tokens expr n := (opens depth room).loosen front loose
  constructor
  · intro depth room n loose _
    exact looser depth room n (Nat.le_trans le loose)
  · intro depth room
    have some : 0 < tokens.length := List.length_pos_iff.mpr front.filled
    obtain ⟨depth, rfl⟩ := Nat.exists_eq_add_of_le' (Nat.lt_of_lt_of_le some room)
    apply Parser.takes_assignment
    · apply (Parser.takes_conditional (looser depth room 8 tight)).weaken
      exact fun rest follows => ⟨follows.mono (Nat.le_succ _), follows.ne rfl (Nat.le_refl _)⟩
    · exact front.noHead tight

/-- What stands by itself is read at every level. -/
theorem reads_of_primary (front : Front 0 tokens)
    (takes : ∀ depth, tokens.length ≤ depth + 1 →
      Takes (Parser.primary (Parser.assignment depth)) tokens expr Anything) :
    Reads level expr tokens :=
  reads_of_opens front (Nat.zero_le _) (Nat.zero_le _) fun depth room =>
    Parser.opens_primary (takes depth room)

theorem Reads.own (reads : Reads level expr tokens) (tight : level ≤ 8) (depth : Nat)
    (room : tokens.length ≤ depth + 1) : Opens (Parser.assignment depth) tokens expr level :=
  reads.opens depth room level (Nat.le_refl _) tight

/-- An operator between operands is read if its operands are. -/
theorem reads_of_join {n : Nat} {p : Punct} {join : Expr → Expr → Expr} {left right : Expr}
    {first second : List Token} (found : Parser.joins? (n + 3) p = some join)
    (front : Front (n + 3) (first ++ .punct p :: second)) (tight : n ≤ 5) (le : n + 3 ≤ level)
    (readsLeft : Reads (n + 3) left first) (readsRight : Reads (n + 2) right second) :
    Reads level (join left right) (first ++ .punct p :: second) := by
  apply reads_of_opens front (by omega) le
  intro depth room
  simp only [List.length_append, List.length_cons] at room
  apply Opens.join found
  · exact readsLeft.own (by omega) depth (by omega)
  · exact readsRight.own (by omega) depth (by omega)

/-- What may only stand alone is read if it is read as a whole. -/
theorem reads_of_whole
    (whole : ∀ depth, tokens.length ≤ depth →
      Takes (Parser.assignment depth) tokens expr (Follows 9)) : Reads 9 expr tokens :=
  ⟨fun _ _ _ loose tight => absurd (Nat.le_trans loose tight) (by decide), whole⟩

theorem Head.length_pos {params : List String} {head : List Token} (written : Head params head) :
    0 < head.length := by
  cases written <;> simp

end Expr

end LiveMarkup
