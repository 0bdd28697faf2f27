import LiveMarkup.Directive.Repeat
import LiveMarkup.Expr.Evaluation
import LiveMarkup.Proofs.Expr.Composition
import LiveMarkup.Proofs.Expr.Keyword

/-!
# Loop variables as expressions

A loop variable may be a name over the letters and numbers of every script, and it may be the name
of a constant.  An expression has names over the letters and digits of ASCII only, and the names of
the constants stand for these.  So the variable of a repeat directive can be used in an expression
if and only if it is an ASCII name and no name of a constant.
-/

namespace LiveMarkup

open LiveMarkup.Parser (isKeyword)
open LiveMarkup.Token (startsIdent continuesIdent)

/-! ## Characters -/

namespace CharRanges

variable {ranges others : CharRanges} {c : Char}

theorem contains_iff :
    ranges.contains c = true ↔ ∃ range ∈ ranges, range.1 ≤ c.toNat ∧ c.toNat ≤ range.2 := by
  simp [contains]

/-- A character below all ranges is in none of them. -/
theorem not_contains_of_below (bound : Nat) (above : ∀ range ∈ ranges, bound ≤ range.1)
    (below : c.toNat < bound) : ranges.contains c = false := by
  rw [Bool.eq_false_iff, ne_eq, contains_iff]
  rintro ⟨range, member, low, -⟩
  have high := above range member
  omega

/-- Two sets have no character in common if their ranges have none. -/
theorem not_contains_of_apart
    (apart : (ranges.all fun range => others.all fun other =>
      decide (range.2 < other.1 ∨ other.2 < range.1)) = true)
    (member : ranges.contains c = true) : others.contains c = false := by
  simp only [List.all_eq_true, decide_eq_true_eq] at apart
  obtain ⟨range, here, low, high⟩ := contains_iff.mp member
  rw [Bool.eq_false_iff, ne_eq, contains_iff]
  rintro ⟨other, there, lowest, highest⟩
  have gap := apart range here other there
  omega

end CharRanges

namespace Directive

variable {c : Char}

theorem isAlpha_iff :
    c.isAlpha = true ↔ 65 ≤ c.toNat ∧ c.toNat ≤ 90 ∨ 97 ≤ c.toNat ∧ c.toNat ≤ 122 := by
  have split : c.isAlpha = (decide ('A'.val ≤ c.val ∧ c.val ≤ 'Z'.val) ||
      (decide ('a'.val ≤ c.val) && decide (c.val ≤ 'z'.val))) := rfl
  simp only [split, Bool.or_eq_true, Bool.and_eq_true, decide_eq_true_eq, UInt32.le_iff_toNat_le]
  exact Iff.rfl

theorem isDigit_iff : c.isDigit = true ↔ 48 ≤ c.toNat ∧ c.toNat ≤ 57 := by
  simp only [Char.isDigit, Bool.and_eq_true, decide_eq_true_eq, UInt32.le_iff_toNat_le, ge_iff_le]
  exact Iff.rfl

/-- Below 128 the letters are those of ASCII. -/
theorem isLetter_of_ascii (ascii : c.toNat < 128) : isLetter c = c.isAlpha := by
  have rest : CharRanges.contains (alphabeticRanges.drop 2) c = false :=
    CharRanges.not_contains_of_below 128 (by decide +kernel) ascii
  have split : isLetter c =
      (decide (0x41 ≤ c.toNat) && decide (c.toNat ≤ 0x5a) ||
        (decide (0x61 ≤ c.toNat) && decide (c.toNat ≤ 0x7a) ||
          CharRanges.contains (alphabeticRanges.drop 2) c)) := rfl
  rw [Bool.eq_iff_iff, isAlpha_iff, split, rest]
  simp

/-- Below 128 the numbers are the digits. -/
theorem isLetterOrNumber_of_ascii (ascii : c.toNat < 128) :
    isLetterOrNumber c = c.isAlphanum := by
  have rest : CharRanges.contains (numberRanges.drop 1) c = false :=
    CharRanges.not_contains_of_below 128 (by decide +kernel) ascii
  have split : numberRanges.contains c =
      (decide (0x30 ≤ c.toNat) && decide (c.toNat ≤ 0x39) ||
        CharRanges.contains (numberRanges.drop 1) c) := rfl
  have digit : numberRanges.contains c = c.isDigit := by
    rw [Bool.eq_iff_iff, isDigit_iff, split, rest]
    simp
  rw [isLetterOrNumber, isLetter_of_ascii ascii, digit, Char.isAlphanum]

/-- No letter and no number is blank. -/
theorem isBlank_of_isLetterOrNumber (word : isLetterOrNumber c = true) : isBlank c = false := by
  rcases (Bool.or_eq_true _ _).mp word with letter | number
  · exact CharRanges.not_contains_of_apart (by decide +kernel) letter
  · exact CharRanges.not_contains_of_apart (by decide +kernel) number

/-- Below 128 names are the same in both. -/
theorem variable_of_ascii (ascii : c.toNat < 128) :
    startsVariable c = startsIdent c ∧ continuesVariable c = continuesIdent c := by
  rw [startsVariable, startsIdent, continuesVariable, continuesIdent, isLetter_of_ascii ascii,
    isLetterOrNumber_of_ascii ascii]
  exact ⟨rfl, rfl⟩

theorem continuesVariable_of_starts (starts : startsVariable c = true) :
    continuesVariable c = true := by
  simp only [startsVariable, continuesVariable, isLetterOrNumber, Bool.or_eq_true] at starts ⊢
  exact starts.imp_left fun either => either.imp_left .inl

/-- From 128 on, a character of a variable is not blank. -/
theorem isBlank_of_continuesVariable (continues : continuesVariable c = true) :
    isBlank c = false := by
  simp only [continuesVariable, Bool.or_eq_true, beq_iff_eq] at continues
  rcases continues with (word | rfl) | rfl
  · exact isBlank_of_isLetterOrNumber word
  · decide
  · decide

/-! ## Beyond ASCII -/

theorem spelling_begins_ascii (p : Punct) :
    ∃ d tail, p.spelling = d :: tail ∧ d.toNat < 128 := by
  cases p <;> exact ⟨_, _, rfl, by decide⟩

theorem ne_of_foreign (foreign : 128 ≤ c.toNat) {d : Char} (ascii : d.toNat < 128) : c ≠ d := by
  rintro rfl
  omega

/-- No token begins with a character beyond ASCII. -/
theorem scan_foreign (foreign : 128 ≤ c.toNat) (offset : Nat) (rest : List Char) :
    Token.scan offset c rest = .error (.unexpectedChar c offset) := by
  have digit : c.isDigit = false := by
    rw [Bool.eq_false_iff, ne_eq, isDigit_iff]
    omega
  have letter : c.isAlpha = false := by
    rw [Bool.eq_false_iff, ne_eq, isAlpha_iff]
    omega
  have other {d : Char} (ascii : d.toNat < 128) : c ≠ d := ne_of_foreign foreign ascii
  have starts : startsIdent c = false := by
    simp [startsIdent, letter, other (d := '_') (by decide), other (d := '$') (by decide)]
  have none : Token.operator? (c :: rest) = none := by
    rw [Token.operator?, List.find?_eq_none]
    intro p _ begins
    obtain ⟨d, tail, spelled, ascii⟩ := spelling_begins_ascii p
    rw [spelled] at begins
    exact other ascii (List.cons_prefix_cons.mp (List.isPrefixOf_iff_prefix.mp begins)).1.symm
  simp [Token.scan, digit, starts, none, other (d := '.') (by decide), other (d := '"') (by decide),
    other (d := '\'') (by decide)]

theorem not_continuesIdent_of_foreign (foreign : 128 ≤ c.toNat) : continuesIdent c = false := by
  have word : c.isAlphanum = false := by
    rw [Bool.eq_false_iff, ne_eq, Char.isAlphanum, Bool.or_eq_true, isAlpha_iff, isDigit_iff]
    omega
  have underscore : c ≠ '_' := ne_of_foreign foreign (by decide)
  have dollar : c ≠ '$' := ne_of_foreign foreign (by decide)
  simp [continuesIdent, word, underscore, dollar]

/-- A character of a variable beyond ASCII ends the reading with a fault. -/
theorem ofTextFrom_foreign (foreign : 128 ≤ c.toNat) (continues : continuesVariable c = true)
    (fuel offset : Nat) (rest : List Char) :
    Lexeme.ofTextFrom (fuel + 1) offset (c :: rest) = .error (.unexpectedChar c offset) := by
  rw [Lexeme.ofTextFrom, isBlank_of_continuesVariable continues, scan_foreign foreign]
  rfl

/-! ## Variables -/

/-- Whether a text is the name of a variable is seen from its characters. -/
theorem isVariable_iff {name : List Char} :
    isVariable name = true ↔
      ∃ c rest, name = c :: rest ∧ startsVariable c = true ∧
        ∀ other ∈ rest, continuesVariable other = true := by
  cases name with
  | nil => simp [isVariable]
  | cons c rest => simp [isVariable]

/-- A variable over ASCII is read as what its name stands for. -/
theorem parse_of_ascii {name : String} (variable_ : isVariable name.toList = true)
    (ascii : ∀ c ∈ name.toList, c.toNat < 128) :
    Expr.parse name = .ok (Parser.named name) := by
  obtain ⟨c, rest, same, starts, continues⟩ := isVariable_iff.mp variable_
  rw [same, List.forall_mem_cons] at ascii
  have valid : Token.IsName name := by
    refine ⟨c, rest, same, ?_, fun other member => ?_⟩
    · rw [← (variable_of_ascii ascii.1).1]
      exact starts
    · rw [← (variable_of_ascii (ascii.2 other member)).2]
      exact continues other member
  obtain ⟨lexemes, lexed, tokens⟩ := Lexeme.ofText_spaced (.cons (.ident valid) .nil)
  rw [Lexeme.spaced_singleton] at lexed
  refine Expr.parse_eq_ok_iff.mpr ⟨lexemes, lexed, Expr.ofTokens_eq_ok_iff.mpr ?_⟩
  exact ⟨[Parser.named name], tokens ▸ .last (.name 9 name), rfl⟩

/-- A text that is not over ASCII has a first character beyond that. -/
theorem exists_foreign {text : List Char} (foreign : ¬∀ c ∈ text, c.toNat < 128) :
    ∃ front c rest, text = front ++ c :: rest ∧ (∀ other ∈ front, other.toNat < 128) ∧
      128 ≤ c.toNat := by
  induction text with
  | nil => simp at foreign
  | cons first text ih =>
      by_cases ascii : first.toNat < 128
      · rw [List.forall_mem_cons, not_and] at foreign
        obtain ⟨front, c, rest, rfl, low, high⟩ := ih (foreign ascii)
        exact ⟨first :: front, c, rest, rfl, List.forall_mem_cons.mpr ⟨ascii, low⟩, high⟩
      · exact ⟨[], first, text, rfl, by simp, Nat.not_lt.mp ascii⟩

/-- The reading of a variable ends with a fault at its first character beyond ASCII; what stands in
front of that is a name. -/
theorem ofText_foreign {front rest : List Char}
    (variable_ : isVariable (front ++ c :: rest) = true)
    (low : ∀ other ∈ front, other.toNat < 128) (high : 128 ≤ c.toNat) :
    Lexeme.ofText (front ++ c :: rest) = .error (.unexpectedChar c (byteSize front)) := by
  obtain ⟨first, others, same, starts, continues⟩ := isVariable_iff.mp variable_
  have all : ∀ other ∈ front ++ c :: rest, continuesVariable other = true := by
    rw [same, List.forall_mem_cons]
    exact ⟨continuesVariable_of_starts starts, continues⟩
  have here := all c (by simp)
  cases front with
  | nil => exact ofTextFrom_foreign high here _ _ _
  | cons d front =>
      obtain ⟨rfl, -⟩ := List.cons.inj same
      obtain ⟨asciiFirst, asciiFront⟩ := List.forall_mem_cons.mp low
      rw [(variable_of_ascii asciiFirst).1] at starts
      have inside : ∀ other ∈ front, continuesIdent other = true := by
        intro other member
        rw [← (variable_of_ascii (asciiFront other member)).2]
        exact all other (by simp [member])
      have stops : Stops continuesIdent (c :: rest) :=
        stops_cons.mpr (not_continuesIdent_of_foreign high)
      have visible : isBlank d = false := Token.isBlank_of_startsIdent starts
      have before : bytesBefore (d :: (front ++ c :: rest)) (c :: rest) = byteSize (d :: front) :=
        bytesBefore_append (d :: front) (c :: rest)
      obtain ⟨fuel, room⟩ : ∃ fuel, (front ++ c :: rest).length = fuel + 1 :=
        ⟨front.length + rest.length, by simp [Nat.add_assoc]⟩
      rw [Lexeme.ofText, List.cons_append, List.length_cons, room, Lexeme.ofTextFrom,
        if_neg (by simp [visible]), Token.scan_name starts inside stops]
      simp only [before, ofTextFrom_foreign high here, Nat.zero_add]

/-- A variable that is not over ASCII is refused at its first character beyond that. -/
theorem parse_of_foreign {name : String} (variable_ : isVariable name.toList = true)
    (foreign : ¬∀ c ∈ name.toList, c.toNat < 128) :
    ∃ front c rest, name.toList = front ++ c :: rest ∧ (∀ other ∈ front, other.toNat < 128) ∧
      128 ≤ c.toNat ∧ Expr.parse name = .error (.unexpectedChar c (byteSize front)) := by
  obtain ⟨front, c, rest, split, low, high⟩ := exists_foreign foreign
  refine ⟨front, c, rest, split, low, high, ?_⟩
  rw [split] at variable_
  change (Lexeme.ofText name.toList).bind Expr.ofTokens = _
  rw [split, ofText_foreign variable_ low high]
  rfl

theorem isVariable_of_splitRepeat {expression name source : String}
    (accepted : splitRepeat expression = .ok (name, source)) : isVariable name.toList = true := by
  unfold splitRepeat at accepted
  split at accepted
  next => cases accepted
  next before after found =>
    dsimp only at accepted
    split at accepted
    next holds =>
      cases accepted
      simpa using ((Bool.and_eq_true _ _).mp holds).1
    next => cases accepted

/-- The variable of a repeat directive, as an expression, is the variable of that name and has the
item as its value where the directive binds it, if and only if it has no character beyond ASCII and
is no name of a constant. -/
theorem loop_variable_usable_iff {expression name source : String}
    (accepted : splitRepeat expression = .ok (name, source)) :
    (Expr.parse name = .ok (.ident name) ∧
      ∀ (σ : Type) (scope : Scope) (bindings : Bindings) (item : Value),
        (evaluate name scope (bindings.insert name item) : TaskM σ Value) = pure item) ↔
      (∀ c ∈ name.toList, c.toNat < 128) ∧ isKeyword name = false := by
  have variable_ := isVariable_of_splitRepeat accepted
  constructor
  · rintro ⟨parsed, -⟩
    have ascii : ∀ c ∈ name.toList, c.toNat < 128 := by
      by_contra foreign
      obtain ⟨_, _, _, -, -, -, refused⟩ := parse_of_foreign variable_ foreign
      rw [refused] at parsed
      cases parsed
    refine ⟨ascii, ?_⟩
    have stands := Except.ok.inj ((parse_of_ascii variable_ ascii).symm.trans parsed)
    rcases Expr.named_cases name with ⟨-, value, literal⟩ | ⟨free, -⟩
    · rw [literal] at stands
      cases stands
    · exact free
  · rintro ⟨ascii, free⟩
    have stands : Parser.named name = .ident name := by
      rcases Expr.named_cases name with ⟨keyword, -⟩ | ⟨-, same⟩
      · rw [free] at keyword
        cases keyword
      · exact same
    have parsed := parse_of_ascii variable_ ascii
    rw [stands] at parsed
    refine ⟨parsed, fun σ scope bindings item => ?_⟩
    rw [Expr.evaluate_of_parse parsed, Expr.eval, Expr.evalWith, Expr.lookup, Assoc.get?_insert,
      if_pos rfl]

theorem entry_usable :
    splitRepeat "entry in xs" = .ok ("entry", "xs") ∧
      Expr.parse "entry" = .ok (.ident "entry") := by
  have accepted : splitRepeat "entry in xs" = .ok ("entry", "xs") := rfl
  have ascii : ∀ c ∈ "entry".toList, c.toNat < 128 := by simp
  exact ⟨accepted, ((loop_variable_usable_iff accepted).mpr ⟨ascii, rfl⟩).1⟩

/-- A letter beyond ASCII is a loop variable and no expression, and the name of a constant is a loop
variable and stands for the constant. -/
theorem foreign_letter_unusable :
    splitRepeat "é in xs" = .ok ("é", "xs") ∧ Expr.parse "é" = .error (.unexpectedChar 'é' 0) ∧
      splitRepeat "true in xs" = .ok ("true", "xs") ∧
      Expr.parse "true" = .ok (.literal (.bool true)) := by
  have lexed : Lexeme.ofText "true".toList = .ok [⟨.ident "true", 0⟩] := rfl
  exact ⟨rfl, rfl, rfl, Expr.parse_eq_ok_iff.mpr ⟨_, lexed, rfl⟩⟩

end Directive

end LiveMarkup
