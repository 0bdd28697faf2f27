import LiveMarkup.Expr.Token.Lexer
import LiveMarkup.Proofs.Text.Span
import Mathlib.Data.List.TakeWhile

/-!
# Spelling tokens

Every token but some numbers can be written: names and operators as they are, strings between either
kind of quote, and numbers as any text that is read as them.  Tokens that are written with blanks
between them are read as the same tokens.
-/

namespace LiveMarkup

namespace Token

/-- Whether a text is an identifier. -/
def IsName (name : String) : Prop :=
  ∃ c rest, name.toList = c :: rest ∧ startsIdent c = true ∧
    ∀ other ∈ rest, continuesIdent other = true

theorem isName_iff {name : String} :
    IsName name ↔ name.toList.head?.any startsIdent = true ∧
      name.toList.tail.all continuesIdent = true := by
  unfold IsName
  cases name.toList with
  | nil => simp
  | cons c rest => simp

instance : DecidablePred IsName := fun _ => decidable_of_iff _ isName_iff.symm

/-- A character of a string, with a backslash before the quote and before a backslash. -/
def escapeIn (quote c : Char) : List Char := if c = quote ∨ c = '\\' then ['\\', c] else [c]

/-- A string between quotes. -/
def quoted (quote : Char) (text : String) : List Char :=
  quote :: (text.toList.flatMap (escapeIn quote) ++ [quote])

/-- Whether a token may be written as a text. -/
inductive Spelled : Token → List Char → Prop
  /-- A number is written as a text that is read as it. -/
  | number {value : Float} {c : Char} {rest : List Char}
      (reads : scan 0 c rest = .ok (.number value, [])) : Spelled (.number value) (c :: rest)
  /-- A string is written between either kind of quote. -/
  | string {quote : Char} (mark : quote = '"' ∨ quote = '\'') (text : String) :
      Spelled (.string text) (quoted quote text)
  /-- A name is written as it is. -/
  | ident {name : String} (valid : IsName name) : Spelled (.ident name) name.toList
  /-- Punctuation is written as it is. -/
  | punct (p : Punct) : Spelled (.punct p) p.spelling

/-! ## What ends a token -/

/-- Whether a text is at its end or goes on with a space. -/
def Ended (rest : List Char) : Prop := ∀ c ∈ rest.head?, c = ' '

theorem ended_nil : Ended [] := by simp [Ended]

theorem ended_space (rest : List Char) : Ended (' ' :: rest) := by simp [Ended]

/-- Whether a text is at its end or goes on with a blank character. -/
def Parted (rest : List Char) : Prop := ∀ c ∈ rest.head?, isBlank c = true

theorem parted_nil : Parted [] := by simp [Parted]

variable {rest after : List Char}

theorem Ended.parted (ended : Ended after) : Parted after := by
  intro c member
  rw [ended c member]
  decide

theorem Parted.stops {kind : Char → Bool} (parted : Parted after)
    (visible : ∀ c, kind c = true → isBlank c = false) : Stops kind after := by
  intro c member
  by_contra holds
  have blank := parted c member
  rw [visible c (by simpa using holds)] at blank
  exact Bool.false_ne_true blank

/-! ## Kinds of characters -/

theorem isBlank_of_visible {c : Char} (low : '!'.val ≤ c.val) (high : c.val ≤ '~'.val) :
    isBlank c = false := by
  have low : 33 ≤ c.toNat := low
  have high : c.toNat ≤ 126 := high
  simp [isBlank, CharRanges.contains, blankRanges]
  omega

theorem isBlank_of_isDigit {c : Char} (digit : c.isDigit = true) : isBlank c = false := by
  obtain ⟨low, high⟩ := (Bool.and_eq_true _ _).mp digit
  apply isBlank_of_visible
  · exact Nat.le_trans (by decide) (of_decide_eq_true low)
  · exact Nat.le_trans (of_decide_eq_true high) (by decide)

theorem isBlank_of_isAlpha {c : Char} (letter : c.isAlpha = true) : isBlank c = false := by
  rcases (Bool.or_eq_true _ _).mp letter with upper | lower
  · have between : 'A'.val ≤ c.val ∧ c.val ≤ 'Z'.val := of_decide_eq_true upper
    apply isBlank_of_visible
    · exact Nat.le_trans (by decide) between.1
    · exact Nat.le_trans between.2 (by decide)
  · obtain ⟨low, high⟩ := (Bool.and_eq_true _ _).mp lower
    apply isBlank_of_visible
    · exact Nat.le_trans (by decide) (of_decide_eq_true low)
    · exact Nat.le_trans (of_decide_eq_true high) (by decide)

theorem isBlank_of_startsIdent {c : Char} (starts : startsIdent c = true) :
    isBlank c = false := by
  simp only [startsIdent, Bool.or_eq_true, beq_iff_eq] at starts
  rcases starts with (letter | rfl) | rfl
  · exact isBlank_of_isAlpha letter
  · decide
  · decide

theorem isBlank_of_continuesIdent {c : Char} (continues : continuesIdent c = true) :
    isBlank c = false := by
  simp only [continuesIdent, Char.isAlphanum, Bool.or_eq_true, beq_iff_eq] at continues
  rcases continues with ((letter | digit) | rfl) | rfl
  · exact isBlank_of_isAlpha letter
  · exact isBlank_of_isDigit digit
  · decide
  · decide

theorem isBlank_of_inNumber {c : Char} (inside : inNumber c = true) : isBlank c = false := by
  simp only [inNumber, Bool.or_eq_true, beq_iff_eq] at inside
  rcases inside with digit | rfl
  · exact isBlank_of_isDigit digit
  · decide

/-- A name does not begin like a number. -/
theorem not_isDigit_of_startsIdent {c : Char} (starts : startsIdent c = true) :
    ¬c.isDigit = true ∧ c ≠ '.' := by
  simp only [startsIdent, Bool.or_eq_true, beq_iff_eq] at starts
  rcases starts with (letter | rfl) | rfl
  · have above : 'A'.val ≤ c.val := by
      rcases (Bool.or_eq_true _ _).mp letter with upper | lower
      · have between : 'A'.val ≤ c.val ∧ c.val ≤ 'Z'.val := of_decide_eq_true upper
        exact between.1
      · have low := ((Bool.and_eq_true _ _).mp lower).1
        exact Nat.le_trans (by decide) (of_decide_eq_true low)
    constructor
    · intro digit
      have high := of_decide_eq_true ((Bool.and_eq_true _ _).mp digit).2
      exact absurd (Nat.le_trans above high) (by decide)
    · rintro rfl
      exact absurd above (by decide)
  · decide
  · decide

/-! ## Numbers -/

/-- Exponents: nothing, or a mark, a sign or none, and at least one digit. -/
inductive IsExponent : List Char → Prop
  | none : IsExponent []
  | power {mark : Char} {sign digits : List Char} (isMark : mark = 'e' ∨ mark = 'E')
      (isSign : sign = [] ∨ sign = ['+'] ∨ sign = ['-']) (filled : digits ≠ [])
      (all : ∀ c ∈ digits, c.isDigit = true) : IsExponent (mark :: (sign ++ digits))

theorem exponentPart_of_not_mark {mark : Char} (isMark : ¬(mark = 'e' ∨ mark = 'E'))
    (text : List Char) : exponentPart (mark :: text) = [] := by
  simp [exponentPart, isMark]

/-- Behind its mark an exponent has a sign or none, and then its digits. -/
theorem exponentPart_mark {mark : Char} (isMark : mark = 'e' ∨ mark = 'E') (text : List Char) :
    ∃ sign digits, text = sign ++ digits ∧ (sign = [] ∨ sign = ['+'] ∨ sign = ['-']) ∧
      exponentPart (mark :: text) =
        if (digits.takeWhile Char.isDigit).isEmpty then []
        else mark :: (sign ++ digits.takeWhile Char.isDigit) := by
  cases text with
  | nil => exact ⟨[], [], rfl, .inl rfl, by simp [exponentPart]⟩
  | cons c digits =>
      by_cases plus : c = '+'
      · subst plus
        exact ⟨['+'], digits, rfl, .inr (.inl rfl), by simp [exponentPart, isMark]⟩
      by_cases minus : c = '-'
      · subst minus
        exact ⟨['-'], digits, rfl, .inr (.inr rfl), by simp [exponentPart, isMark]⟩
      exact ⟨[], c :: digits, rfl, .inl rfl, by simp [exponentPart, isMark, plus, minus]⟩

/-- What is read as the exponent at the beginning of a text is an exponent. -/
theorem exponentPart_spec (text : List Char) :
    exponentPart text <+: text ∧ IsExponent (exponentPart text) := by
  cases text with
  | nil => exact ⟨List.prefix_rfl, .none⟩
  | cons mark rest =>
      by_cases isMark : mark = 'e' ∨ mark = 'E'
      · obtain ⟨sign, digits, rfl, isSign, reads⟩ := exponentPart_mark isMark rest
        rw [reads]
        split
        next => exact ⟨List.nil_prefix, .none⟩
        next filled =>
          constructor
          · simpa using List.takeWhile_prefix Char.isDigit
          · exact .power isMark isSign (by simpa using filled) fun c => List.mem_takeWhile_imp
      · rw [exponentPart_of_not_mark isMark]
        exact ⟨List.nil_prefix, .none⟩

/-- An exponent in front of a blank is read to its end. -/
theorem IsExponent.exponentPart_append {text : List Char} (exponent : IsExponent text)
    (parted : Parted after) : exponentPart (text ++ after) = text := by
  cases exponent with
  | none =>
      cases after with
      | nil => rfl
      | cons c rest =>
          apply exponentPart_of_not_mark
          have blank := parted c rfl
          rintro (rfl | rfl) <;> exact absurd blank (by decide)
  | @power mark sign digits isMark isSign filled all =>
      have stops : Stops Char.isDigit after := parted.stops fun _ => isBlank_of_isDigit
      have run : (digits ++ after).takeWhile Char.isDigit = digits := takeWhile_run all stops
      obtain ⟨d, digits, rfl⟩ := List.exists_cons_of_ne_nil filled
      have unsigned : d ≠ '+' ∧ d ≠ '-' := by
        constructor <;> rintro rfl <;> exact absurd (all _ List.mem_cons_self) (by decide)
      rw [List.cons_append] at run
      rcases isSign with rfl | rfl | rfl <;> simp [exponentPart, isMark, unsigned, run]

/-- What is read as the number at the beginning of a text stands there. -/
theorem numberPart_begins (text : List Char) : numberPart text <+: text := by
  have split : text.takeWhile inNumber ++ text.dropWhile inNumber = text :=
    List.takeWhile_append_dropWhile
  have begins := (exponentPart_spec (text.dropWhile inNumber)).1
  calc numberPart text <+: text.takeWhile inNumber ++ text.dropWhile inNumber :=
        (List.prefix_append_right_inj _).mpr begins
    _ = text := split

/-- What was read as a number is read as the same number in front of any blank. -/
theorem numberPart_append (text : List Char) (parted : Parted after) :
    numberPart (numberPart text ++ after) = numberPart text := by
  have exponent := (exponentPart_spec (text.dropWhile inNumber)).2
  have inside : ∀ c ∈ text.takeWhile inNumber, inNumber c = true :=
    fun c member => List.mem_takeWhile_imp member
  have stops : Stops inNumber (exponentPart (text.dropWhile inNumber) ++ after) := by
    generalize exponentPart (text.dropWhile inNumber) = part at exponent
    cases exponent with
    | none => exact parted.stops fun _ => isBlank_of_inNumber
    | power isMark => rcases isMark with rfl | rfl <;> exact stops_cons.mpr (by decide)
  calc numberPart (numberPart text ++ after)
      = numberPart (text.takeWhile inNumber ++
          (exponentPart (text.dropWhile inNumber) ++ after)) := by
        rw [← List.append_assoc]
        rfl
    _ = text.takeWhile inNumber ++ exponentPart (text.dropWhile inNumber) := by
        rw [numberPart, takeWhile_run inside stops, dropWhile_run inside stops,
          exponent.exponentPart_append parted]

/-- A number has no blanks. -/
theorem isBlank_of_mem_numberPart {text : List Char} {c : Char} (member : c ∈ numberPart text) :
    isBlank c = false := by
  rcases List.mem_append.mp member with front | power
  · exact isBlank_of_inNumber (List.mem_takeWhile_imp front)
  have exponent := (exponentPart_spec (text.dropWhile inNumber)).2
  generalize exponentPart (text.dropWhile inNumber) = part at exponent power
  cases exponent with
  | none => simp at power
  | power isMark isSign filled all =>
      rcases List.mem_cons.mp power with rfl | power
      · rcases isMark with rfl | rfl <;> decide
      rcases List.mem_append.mp power with sign | digit
      · rcases isSign with rfl | rfl | rfl
        · simp at sign
        · rw [List.mem_singleton.mp sign]
          decide
        · rw [List.mem_singleton.mp sign]
          decide
      · exact isBlank_of_isDigit (all c digit)

/-! ## Strings -/

theorem readString_quote (quote : Char) (rest : List Char) :
    readString quote (quote :: rest) = some ([], rest) := by
  unfold readString
  simp

theorem readString_slash {quote : Char} (slash : '\\' ≠ quote) (c : Char) (rest : List Char) :
    readString quote ('\\' :: c :: rest) =
      (readString quote rest).map fun read => (unescape c :: read.1, read.2) := by
  rw [readString.eq_def]
  simp [slash]

theorem readString_plain {quote c : Char} (plain : ¬(c = quote ∨ c = '\\')) (rest : List Char) :
    readString quote (c :: rest) =
      (readString quote rest).map fun read => (c :: read.1, read.2) := by
  rw [readString.eq_def]
  simp [not_or.mp plain]

/-- Reading a string undoes what writing does to it. -/
theorem readString_escaped {quote : Char} (mark : quote = '"' ∨ quote = '\'')
    (text after : List Char) :
    readString quote (text.flatMap (escapeIn quote) ++ quote :: after) = some (text, after) := by
  have slash : '\\' ≠ quote := by rcases mark with rfl | rfl <;> decide
  have kept : unescape quote = quote := by rcases mark with rfl | rfl <;> rfl
  induction text with
  | nil => exact readString_quote quote after
  | cons c text ih =>
      rw [List.flatMap_cons, List.append_assoc, escapeIn]
      split
      next special =>
        have same : unescape c = c := by
          rcases special with rfl | rfl
          · exact kept
          · rfl
        change readString quote ('\\' :: c :: (text.flatMap (escapeIn quote) ++ quote :: after)) = _
        rw [readString_slash slash, ih, same]
        rfl
      next plain =>
        change readString quote (c :: (text.flatMap (escapeIn quote) ++ quote :: after)) = _
        rw [readString_plain plain, ih]
        rfl

/-! ## Operators -/

/-- A word does not reach into what stands behind a text and begins with none of its characters. -/
theorem isPrefixOf_append_of_apart {word text : List Char} (apart : ∀ c ∈ word, c ∉ after.head?) :
    word.isPrefixOf (text ++ after) = word.isPrefixOf text := by
  induction word generalizing text with
  | nil => rfl
  | cons c word ih =>
      obtain ⟨here, apart⟩ := List.forall_mem_cons.mp apart
      cases text with
      | nil =>
          cases after with
          | nil => rfl
          | cons other after =>
              have differ : c ≠ other := by
                rintro rfl
                exact here rfl
              simp [List.isPrefixOf, differ]
      | cons other text => rw [List.cons_append, List.isPrefixOf, List.isPrefixOf, ih apart]

/-- A word without blanks does not reach into the blanks behind a text. -/
theorem isPrefixOf_append {word text : List Char} (visible : ∀ c ∈ word, isBlank c = false)
    (parted : Parted after) : word.isPrefixOf (text ++ after) = word.isPrefixOf text := by
  apply isPrefixOf_append_of_apart
  intro c member head
  have blank := parted c head
  rw [visible c member] at blank
  cases blank

theorem visible_spelling (p : Punct) : ∀ c ∈ p.spelling, isBlank c = false := by
  have all : p.spelling.all (fun c => !isBlank c) = true := by cases p <;> decide
  simpa using all

/-- Every operator is found where it stands alone: none that comes before it in the table begins
it. -/
theorem operator?_spelling (p : Punct) : operator? p.spelling = some p := by
  cases p <;> decide

theorem operator?_append (p : Punct) (parted : Parted after) :
    operator? (p.spelling ++ after) = some p := by
  rw [← operator?_spelling p]
  simp only [operator?]
  congr 1
  funext other
  exact isPrefixOf_append (visible_spelling other) parted

theorem spelling_begins (p : Punct) :
    ∃ c tail, p.spelling = c :: tail ∧ c.isDigit = false ∧ (c = '.' → tail = []) ∧
      startsIdent c = false ∧ c ≠ '"' ∧ c ≠ '\'' := by
  cases p <;> exact ⟨_, _, rfl, by decide⟩

/-! ## One token -/

/-- A number is read as that number in front of any blank. -/
theorem scan_number {c : Char} {value : Float} {offset : Nat}
    (reads : scan offset c rest = .ok (.number value, after)) :
    ∃ tail, rest = tail ++ after ∧ (∀ other ∈ c :: tail, isBlank other = false) ∧
      ∀ offset later, Parted later →
        scan offset c (tail ++ later) = .ok (.number value, later) := by
  simp only [scan] at reads
  split at reads
  case isFalse =>
    split at reads
    · simp at reads
    split at reads
    · split at reads <;> simp at reads
    · split at reads <;> simp at reads
  case isTrue begins =>
    split at reads
    case h_2 => simp at reads
    case h_1 found said =>
      simp only [Except.ok.injEq, Prod.mk.injEq, number.injEq] at reads
      obtain ⟨rfl, dropped⟩ := reads
      simp only [Bool.or_eq_true, Bool.and_eq_true, beq_iff_eq] at begins
      -- the number goes on behind a point at its beginning
      obtain ⟨tail, part, pointed⟩ : ∃ tail, numberPart (c :: rest) = c :: tail ∧
          (c.isDigit = true ∨ c = '.' ∧ tail.head?.any Char.isDigit = true) := by
        rcases begins with digit | ⟨rfl, digit⟩
        · refine ⟨numberPart rest, ?_, .inl digit⟩
          simp [numberPart, inNumber, digit]
        · cases rest with
          | nil => simp at digit
          | cons other rest =>
              have digit : other.isDigit = true := by simpa using digit
              refine ⟨numberPart (other :: rest), ?_, .inr ⟨rfl, ?_⟩⟩
              · simp [numberPart, inNumber, digit]
              · simp [numberPart, inNumber, digit]
      have whole : c :: rest = c :: tail ++ after := by
        rw [← dropped, ← part]
        exact (List.prefix_iff_eq_append.mp (numberPart_begins _)).symm
      refine ⟨tail, (List.cons.inj whole).2, fun other member => ?_, fun offset later parted => ?_⟩
      · exact isBlank_of_mem_numberPart (part ▸ member)
      · have again : numberPart (c :: (tail ++ later)) = c :: tail := by
          simpa [part] using numberPart_append (c :: rest) parted
        have numeric :
            (c.isDigit || (c == '.' && (tail ++ later).head?.any Char.isDigit)) = true := by
          simp only [Bool.or_eq_true, Bool.and_eq_true, beq_iff_eq]
          apply pointed.imp_right
          rintro ⟨point, digit⟩
          cases tail with
          | nil => simp at digit
          | cons other tail => exact ⟨point, digit⟩
        rw [part] at said
        simp only [scan, numeric, if_true, again, said]
        simp

/-- A name is read up to the first character that no name goes on with. -/
theorem scan_name {c : Char} (starts : startsIdent c = true)
    (inside : ∀ other ∈ rest, continuesIdent other = true) (stops : Stops continuesIdent after)
    (offset : Nat) :
    scan offset c (rest ++ after) = .ok (.ident (String.ofList (c :: rest)), after) := by
  obtain ⟨digit, point⟩ := not_isDigit_of_startsIdent starts
  simp [scan, digit, point, starts, takeWhile_run inside stops, dropWhile_run inside stops]

theorem scan_ident {c : Char} (starts : startsIdent c = true)
    (inside : ∀ other ∈ rest, continuesIdent other = true) (parted : Parted after)
    (offset : Nat) :
    scan offset c (rest ++ after) = .ok (.ident (String.ofList (c :: rest)), after) :=
  scan_name starts inside (parted.stops fun _ => isBlank_of_continuesIdent) offset

theorem scan_string {quote : Char} (mark : quote = '"' ∨ quote = '\'') {said : List Char}
    (read : readString quote rest = some (said, after)) (offset : Nat) :
    scan offset quote rest = .ok (.string (String.ofList said), after) := by
  rcases mark with rfl | rfl <;> simp [scan, read, startsIdent]

theorem scan_punct (p : Punct) (parted : Parted after) :
    ∃ c tail, p.spelling = c :: tail ∧
      ∀ offset, scan offset c (tail ++ after) = .ok (.punct p, after) := by
  obtain ⟨c, tail, spelled, digit, point, starts, double, single⟩ := spelling_begins p
  refine ⟨c, tail, spelled, fun offset => ?_⟩
  have found := operator?_append p parted
  rw [spelled, List.cons_append] at found
  -- no digit behind a point comes from the blanks behind it
  have pointed : c = '.' → (tail ++ after).head?.any Char.isDigit = false := by
    intro isPoint
    have stops : Stops Char.isDigit after := parted.stops fun _ => isBlank_of_isDigit
    rw [point isPoint, List.nil_append]
    cases after with
    | nil => rfl
    | cons other after => simpa using stops_cons.mp stops
  simp only [scan]
  rw [if_neg (by simpa [digit] using pointed), if_neg (by simp [starts]),
    if_neg (by simp [double, single]), found]
  simp [spelled]

/-- What a token is written as is read as that token, up to its end or the next blank. -/
theorem Spelled.scan {token : Token} {word : List Char} (spelled : Spelled token word)
    (parted : Parted after) (offset : Nat) :
    ∃ c rest, word = c :: rest ∧ isBlank c = false ∧
      Token.scan offset c (rest ++ after) = .ok (token, after) := by
  cases spelled with
  | @number value c rest reads =>
      obtain ⟨tail, split, visible, again⟩ := scan_number reads
      obtain rfl : rest = tail := by simpa using split
      exact ⟨c, rest, rfl, visible c List.mem_cons_self, again offset after parted⟩
  | @string quote mark text =>
      refine ⟨quote, _, rfl, ?_, ?_⟩
      · rcases mark with rfl | rfl <;> decide
      · have read := readString_escaped mark text.toList after
        simpa using scan_string mark read offset
  | @ident name valid =>
      obtain ⟨c, rest, same, starts, inside⟩ := valid
      refine ⟨c, rest, same, isBlank_of_startsIdent starts, ?_⟩
      rw [scan_ident starts inside parted, ← same, String.ofList_toList]
  | punct p =>
      obtain ⟨c, tail, spelled, reads⟩ := scan_punct p parted
      have visible := visible_spelling p c (spelled ▸ List.mem_cons_self)
      exact ⟨c, tail, spelled, visible, reads offset⟩

end Token

/-! ## Rows of tokens -/

namespace Lexeme

open Token (Spelled Ended ended_nil ended_space)

/-- Words with single spaces between them. -/
def spaced (words : List (List Char)) : List Char := [' '].intercalate words

@[simp]
theorem spaced_nil : spaced [] = [] := rfl

@[simp]
theorem spaced_singleton (word : List Char) : spaced [word] = word := by simp [spaced]

@[simp]
theorem spaced_cons_cons (word next : List Char) (words : List (List Char)) :
    spaced (word :: next :: words) = word ++ ' ' :: spaced (next :: words) := by
  simp [spaced]

theorem ofTextFrom_nil (fuel offset : Nat) : ofTextFrom fuel offset [] = .ok [] := by
  cases fuel <;> rfl

/-- Words with spaces between them are read as the tokens that they spell. -/
theorem ofTextFrom_spaced {tokens : List Token} {words : List (List Char)}
    (spelled : List.Forall₂ Spelled tokens words) {fuel : Nat}
    (enough : (spaced words).length ≤ fuel) (offset : Nat) :
    ∃ lexemes, ofTextFrom fuel offset (spaced words) = .ok lexemes ∧
      lexemes.map Lexeme.token = tokens := by
  induction spelled generalizing fuel offset with
  | nil => exact ⟨[], ofTextFrom_nil fuel offset, rfl⟩
  | @cons token word tokens words here others ih =>
      -- a word is at the end of the text or has a space behind it
      obtain ⟨after, split, ended, later⟩ : ∃ after, spaced (word :: words) = word ++ after ∧
          Ended after ∧ ∀ fuel offset, after.length ≤ fuel → ∃ lexemes,
            ofTextFrom fuel offset after = .ok lexemes ∧ lexemes.map Lexeme.token = tokens := by
        cases others with
        | nil => exact ⟨[], by simp, ended_nil, fun fuel offset _ => ⟨[], ofTextFrom_nil _ _, rfl⟩⟩
        | @cons _ next _ words _ _ =>
            refine ⟨' ' :: spaced (next :: words), by simp, ended_space _, ?_⟩
            intro fuel offset room
            obtain ⟨fuel, rfl⟩ := Nat.exists_eq_add_of_le' (Nat.le_trans (Nat.le_add_left 1 _) room)
            exact ih (Nat.le_of_succ_le_succ room) _
      obtain ⟨c, rest, rfl, visible, read⟩ := here.scan ended.parted offset
      rw [split] at enough ⊢
      rw [List.cons_append] at enough ⊢
      obtain ⟨fuel, rfl⟩ := Nat.exists_eq_add_of_le' (Nat.le_trans (Nat.le_add_left 1 _) enough)
      have room : after.length ≤ fuel := by
        simp only [List.length_cons, List.length_append] at enough
        omega
      obtain ⟨lexemes, reads, same⟩ :=
        later fuel (offset + bytesBefore (c :: (rest ++ after)) after) room
      refine ⟨⟨token, offset⟩ :: lexemes, ?_, ?_⟩
      · rw [ofTextFrom, visible]
        simp [read, reads]
      · simp [same]

/-- What is written as words with spaces between them is read as the tokens that they spell. -/
theorem ofText_spaced {tokens : List Token} {words : List (List Char)}
    (spelled : List.Forall₂ Spelled tokens words) :
    ∃ lexemes, ofText (spaced words) = .ok lexemes ∧ lexemes.map Lexeme.token = tokens :=
  ofTextFrom_spaced spelled (Nat.le_refl _) 0

end Lexeme

end LiveMarkup
