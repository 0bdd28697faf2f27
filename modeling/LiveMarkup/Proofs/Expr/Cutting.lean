import LiveMarkup.Proofs.Expr.Spelling

/-!
# Where a text is cut into tokens

A text that is read as tokens is a row of words, one for each token, with blanks between them.  Each
word is read as its token wherever it stands in front of a blank, so the row may be laid out anew:
with other blanks around the words it is read as the same tokens.
-/

namespace LiveMarkup

/-! ## Lengths in bytes -/

@[simp]
theorem byteSize_nil : byteSize [] = 0 := rfl

theorem byteSize_append (front rest : List Char) :
    byteSize (front ++ rest) = byteSize front + byteSize rest := by
  have shift : ∀ (text : List Char) (size : Nat),
      text.foldl (fun size c => size + c.utf8Size) size = size + byteSize text := by
    intro text
    induction text with
    | nil => simp
    | cons c text ih =>
        intro size
        rw [byteSize, List.foldl_cons, List.foldl_cons, ih, ih]
        omega
  rw [byteSize, List.foldl_append, shift]
  rfl

theorem byteSize_cons (c : Char) (text : List Char) :
    byteSize (c :: text) = c.utf8Size + byteSize text := by
  rw [← List.singleton_append, byteSize_append]
  simp [byteSize]

/-- A text that is not empty has bytes. -/
theorem byteSize_pos {text : List Char} (filled : text ≠ []) : 0 < byteSize text := by
  obtain ⟨c, rest, rfl⟩ := List.exists_cons_of_ne_nil filled
  rw [byteSize_cons]
  exact Nat.add_pos_left c.utf8Size_pos _

@[simp]
theorem bytesBefore_append (front rest : List Char) :
    bytesBefore (front ++ rest) rest = byteSize front := by
  simp [bytesBefore]

namespace Token

variable {rest after : List Char}

/-! ## Strings -/

/-- What a string says does not hang on what stands behind its closing quote. -/
theorem readString_append {quote : Char} {said : List Char}
    (reads : readString quote rest = some (said, after)) :
    ∃ body, rest = body ++ quote :: after ∧
      ∀ later, readString quote (body ++ quote :: later) = some (said, later) := by
  fun_induction readString quote rest generalizing said with
  | case1 => cases reads
  | case2 rest =>
      cases reads
      exact ⟨[], rfl, fun later => readString_quote quote later⟩
  | case3 => cases reads
  | case4 escaped rest slash ih =>
      obtain ⟨⟨inner, behind⟩, read, same⟩ := Option.map_eq_some_iff.mp reads
      cases same
      obtain ⟨body, rfl, again⟩ := ih read
      refine ⟨'\\' :: escaped :: body, rfl, fun later => ?_⟩
      rw [List.cons_append, List.cons_append, readString_slash slash, again]
      rfl
  | case5 c rest other plain ih =>
      obtain ⟨⟨inner, behind⟩, read, same⟩ := Option.map_eq_some_iff.mp reads
      cases same
      obtain ⟨body, rfl, again⟩ := ih read
      refine ⟨c :: body, rfl, fun later => ?_⟩
      rw [List.cons_append, readString_plain (not_or.mpr ⟨other, plain⟩), again]
      rfl

/-! ## One token -/

/-- Whether a text is read as a token wherever it stands in front of a blank or at the end. -/
def Reads (word : List Char) (token : Token) : Prop :=
  ∃ c tail, word = c :: tail ∧ isBlank c = false ∧ ∀ offset after, Parted after →
    scan offset c (tail ++ after) = .ok (token, after)

/-- Whether a text is not empty and has no blank at its ends. -/
def Trimmed (word : List Char) : Prop :=
  word ≠ [] ∧ (∀ c ∈ word.head?, isBlank c = false) ∧ ∀ c ∈ word.getLast?, isBlank c = false

theorem trimmed_of_visible {c : Char} {tail : List Char}
    (visible : ∀ other ∈ c :: tail, isBlank other = false) : Trimmed (c :: tail) :=
  ⟨List.cons_ne_nil _ _, fun other head => visible other (List.mem_of_mem_head? head),
    fun other last => visible other (List.mem_of_mem_getLast? last)⟩

theorem reads_name {c : Char} {run : List Char} (visible : isBlank c = false)
    (starts : startsIdent c = true) (inside : ∀ other ∈ run, continuesIdent other = true) :
    Trimmed (c :: run) ∧ Reads (c :: run) (.ident (String.ofList (c :: run))) := by
  refine ⟨trimmed_of_visible ?_, c, run, rfl, visible, fun offset later parted => ?_⟩
  · exact List.forall_mem_cons.mpr
      ⟨visible, fun other member => isBlank_of_continuesIdent (inside other member)⟩
  · exact scan_ident starts inside parted offset

theorem reads_quoted {quote : Char} {body said : List Char} (visible : isBlank quote = false)
    (mark : quote = '"' ∨ quote = '\'')
    (read : ∀ later, readString quote (body ++ quote :: later) = some (said, later)) :
    Trimmed (quote :: (body ++ [quote])) ∧
      Reads (quote :: (body ++ [quote])) (.string (String.ofList said)) := by
  refine ⟨⟨List.cons_ne_nil _ _, ?_, ?_⟩, quote, _, rfl, visible, fun offset later _ => ?_⟩
  · rintro other ⟨⟩
    exact visible
  · intro other last
    rw [← List.cons_append, List.getLast?_concat] at last
    cases last
    exact visible
  · rw [List.append_assoc]
    exact scan_string mark (read later) offset

theorem reads_spelling (p : Punct) : Trimmed p.spelling ∧ Reads p.spelling (.punct p) := by
  obtain ⟨c, tail, spelled, -⟩ := spelling_begins p
  have inside := visible_spelling p
  rw [spelled] at inside ⊢
  refine ⟨trimmed_of_visible inside, c, tail, rfl, inside c List.mem_cons_self, ?_⟩
  intro offset later parted
  obtain ⟨d, other, again, scans⟩ := scan_punct p parted
  obtain ⟨rfl, rfl⟩ := List.cons.inj (spelled.symm.trans again)
  exact scans offset

theorem begins_of_operator? {text : List Char} {p : Punct} (found : operator? text = some p) :
    p.spelling <+: text := by
  have holds := List.find?_some found
  exact List.isPrefixOf_iff_prefix.mp holds

/-- What is scanned as a token is a word that is read as that token in front of any blank. -/
theorem scan_cut {offset : Nat} {c : Char} {token : Token} (visible : isBlank c = false)
    (reads : scan offset c rest = .ok (token, after)) :
    ∃ word, c :: rest = word ++ after ∧ Trimmed word ∧ Reads word token := by
  have scanned := reads
  simp only [scan] at reads
  split at reads
  case isTrue =>
    split at reads
    case h_2 => cases reads
    case h_1 value said =>
      simp only [Except.ok.injEq, Prod.mk.injEq] at reads
      obtain ⟨rfl, -⟩ := reads
      obtain ⟨tail, rfl, inside, again⟩ := scan_number scanned
      exact ⟨c :: tail, rfl, trimmed_of_visible inside, c, tail, rfl, visible, again⟩
  case isFalse notNumber =>
  split at reads
  case isTrue starts =>
    cases reads
    refine ⟨c :: rest.takeWhile continuesIdent, ?_, reads_name visible starts ?_⟩
    · rw [List.cons_append, List.takeWhile_append_dropWhile]
    · exact fun other => List.mem_takeWhile_imp
  case isFalse =>
  split at reads
  case isTrue quote =>
    split at reads
    case h_2 => cases reads
    case h_1 said behind read =>
      cases reads
      have mark : c = '"' ∨ c = '\'' := by simpa using quote
      obtain ⟨body, rfl, again⟩ := readString_append read
      exact ⟨c :: (body ++ [c]), by simp, reads_quoted visible mark again⟩
  case isFalse =>
    split at reads
    case h_2 => cases reads
    case h_1 p found =>
      cases reads
      have split := List.prefix_iff_eq_append.mp (begins_of_operator? found)
      exact ⟨p.spelling, split.symm, reads_spelling p⟩

/-- A token takes at least its first character. -/
theorem length_le_of_scan {offset : Nat} {c : Char} {token : Token} (visible : isBlank c = false)
    (reads : scan offset c rest = .ok (token, after)) : after.length ≤ rest.length := by
  obtain ⟨word, split, trimmed, -⟩ := scan_cut visible reads
  have total := congrArg List.length split
  have filled := List.length_pos_iff.mpr trimmed.1
  simp only [List.length_cons, List.length_append] at total
  omega

end Token

namespace Lexeme

open Token (Parted Reads Trimmed parted_nil)

/-! ## Rows of words -/

/-- A word that is read as a token, and the gap in front of it. -/
structure Cut where
  /-- What stands between the word before and this one. -/
  gap : List Char
  /-- The text of the token. -/
  word : List Char
  /-- The token. -/
  token : Token

/-- Words with the gaps in front of them, and what stands behind the last of them. -/
def written : List Cut → List Char → List Char
  | [], last => last
  | cut :: cuts, last => cut.gap ++ (cut.word ++ written cuts last)

/-- The tokens of a row of words, each with the number of bytes in front of its word. -/
def placed : Nat → List Cut → List Lexeme
  | _, [] => []
  | offset, cut :: cuts =>
      ⟨cut.token, offset + byteSize cut.gap⟩ ::
        placed (offset + byteSize cut.gap + byteSize cut.word) cuts

/-- Whether two words are the same and read as the same token, whatever gaps are before them. -/
def SameWord (cut other : Cut) : Prop := other.word = cut.word ∧ other.token = cut.token

theorem tokens_placed (offset : Nat) (cuts : List Cut) :
    (placed offset cuts).map Lexeme.token = cuts.map Cut.token := by
  induction cuts generalizing offset with
  | nil => rfl
  | cons cut cuts ih => rw [placed, List.map_cons, List.map_cons, ih]

theorem offset_le_of_mem_placed {offset : Nat} {cuts : List Cut} {lexeme : Lexeme}
    (member : lexeme ∈ placed offset cuts) : offset ≤ lexeme.offset := by
  induction cuts generalizing offset with
  | nil => cases member
  | cons cut cuts ih =>
      rcases List.mem_cons.mp member with rfl | later
      · exact Nat.le_add_right _ _
      · have behind := ih later
        omega

/-- Words that are not empty begin one behind the other. -/
theorem placed_increasing {cuts : List Cut} (filled : ∀ cut ∈ cuts, cut.word ≠ [])
    (offset : Nat) : (placed offset cuts).Pairwise fun one other => one.offset < other.offset := by
  induction cuts generalizing offset with
  | nil => exact .nil
  | cons cut cuts ih =>
      obtain ⟨here, later⟩ := List.forall_mem_cons.mp filled
      refine .cons (fun lexeme member => ?_) (ih later _)
      have behind := offset_le_of_mem_placed member
      have wide := byteSize_pos here
      change offset + byteSize cut.gap < lexeme.offset
      omega

/-! ## Reading a row -/

/-- Blanks are passed. -/
theorem ofTextFrom_gap {gap : List Char} (blank : isBlankText gap = true) (fuel offset : Nat)
    (rest : List Char) :
    ofTextFrom (gap.length + fuel) offset (gap ++ rest) =
      ofTextFrom fuel (offset + byteSize gap) rest := by
  induction gap generalizing offset with
  | nil => simp
  | cons c gap ih =>
      simp only [isBlankText, List.all_cons, Bool.and_eq_true] at blank
      rw [List.length_cons, Nat.add_right_comm, List.cons_append, ofTextFrom, if_pos blank.1,
        ih blank.2, byteSize_cons, Nat.add_assoc]

/-- A word is read as its token, and then what is behind it. -/
theorem ofTextFrom_word {word after : List Char} {token : Token} (reads : Reads word token)
    (parted : Parted after) (fuel offset : Nat) :
    ofTextFrom (fuel + 1) offset (word ++ after) =
      (ofTextFrom fuel (offset + byteSize word) after).map (⟨token, offset⟩ :: ·) := by
  obtain ⟨c, tail, rfl, visible, scans⟩ := reads
  have before : bytesBefore (c :: (tail ++ after)) after = byteSize (c :: tail) :=
    bytesBefore_append (c :: tail) after
  rw [List.cons_append, ofTextFrom, if_neg (by simp [visible]), scans offset after parted]
  simp only [before]
  cases ofTextFrom fuel (offset + byteSize (c :: tail)) after <;> rfl

theorem parted_written {cuts : List Cut} {last : List Char}
    (blank : ∀ cut ∈ cuts, isBlankText cut.gap = true) (apart : ∀ cut ∈ cuts, cut.gap ≠ [])
    (ends : isBlankText last = true) : Parted (written cuts last) := by
  have first {text : List Char} (all : isBlankText text = true) : Parted text :=
    fun c member => List.all_eq_true.mp all c (List.mem_of_mem_head? member)
  cases cuts with
  | nil => exact first ends
  | cons cut cuts =>
      intro c member
      rw [written, List.head?_append_of_ne_nil _ (apart cut List.mem_cons_self)] at member
      exact first (blank cut List.mem_cons_self) c member

/-- A row of words with blanks between them is read as the tokens of the words. -/
theorem ofTextFrom_written {cuts : List Cut} {last : List Char}
    (reads : ∀ cut ∈ cuts, Reads cut.word cut.token)
    (blank : ∀ cut ∈ cuts, isBlankText cut.gap = true)
    (apart : ∀ cut ∈ cuts.tail, cut.gap ≠ []) (ends : isBlankText last = true) {fuel : Nat}
    (enough : (written cuts last).length ≤ fuel) (offset : Nat) :
    ofTextFrom fuel offset (written cuts last) = .ok (placed offset cuts) := by
  induction cuts generalizing fuel offset with
  | nil =>
      obtain ⟨fuel, rfl⟩ := Nat.exists_eq_add_of_le enough
      have passed := ofTextFrom_gap ends fuel offset []
      rw [List.append_nil, ofTextFrom_nil] at passed
      exact passed
  | cons cut cuts ih =>
      obtain ⟨here, reads⟩ := List.forall_mem_cons.mp reads
      obtain ⟨gap, blank⟩ := List.forall_mem_cons.mp blank
      have parted := parted_written blank apart ends
      have filled : 0 < cut.word.length := by
        obtain ⟨c, tail, same, -⟩ := here
        simp [same]
      simp only [written, List.length_append] at enough
      obtain ⟨fuel, rfl⟩ : ∃ more, fuel = cut.gap.length + (more + 1) :=
        ⟨fuel - cut.gap.length - 1, by omega⟩
      have later := ih reads blank (fun other member => apart other (List.mem_of_mem_tail member))
        (show (written cuts last).length ≤ fuel by omega)
        (offset + byteSize cut.gap + byteSize cut.word)
      rw [written, ofTextFrom_gap gap, ofTextFrom_word here parted, later]
      rfl

/-- A word alone is read as its token. -/
theorem ofText_word {word : List Char} {token : Token} (reads : Reads word token) :
    ofText word = .ok [⟨token, 0⟩] := by
  obtain ⟨c, tail, rfl, -⟩ := id reads
  have read := ofTextFrom_word reads parted_nil tail.length 0
  rw [List.append_nil, ofTextFrom_nil] at read
  exact read

/-- A text that is read as tokens is a row of words with blanks between them, each read as its token
in front of any blank. -/
theorem cut_of_ofTextFrom {fuel offset : Nat} {text : List Char} {lexemes : List Lexeme}
    (enough : text.length ≤ fuel) (reads : ofTextFrom fuel offset text = .ok lexemes) :
    ∃ cuts last, text = written cuts last ∧ lexemes = placed offset cuts ∧
      isBlankText last = true ∧
      ∀ cut ∈ cuts, isBlankText cut.gap = true ∧ Trimmed cut.word ∧ Reads cut.word cut.token := by
  induction fuel generalizing offset text lexemes with
  | zero =>
      obtain rfl := List.length_eq_zero_iff.mp (Nat.le_zero.mp enough)
      cases reads
      exact ⟨[], [], rfl, rfl, rfl, by simp⟩
  | succ fuel ih =>
      cases text with
      | nil =>
          cases reads
          exact ⟨[], [], rfl, rfl, rfl, by simp⟩
      | cons c rest =>
          have room : rest.length ≤ fuel := Nat.le_of_succ_le_succ enough
          rw [ofTextFrom] at reads
          split at reads
          case isTrue blank =>
            -- the blank goes to the gap that follows
            obtain ⟨cuts, last, rfl, rfl, ends, sound⟩ := ih room reads
            cases cuts with
            | nil =>
                refine ⟨[], c :: last, rfl, rfl, ?_, by simp⟩
                simpa [isBlankText, blank] using ends
            | cons cut cuts =>
                obtain ⟨⟨gap, here⟩, sound⟩ := List.forall_mem_cons.mp sound
                refine ⟨{ cut with gap := c :: cut.gap } :: cuts, last, rfl, ?_, ends, ?_⟩
                · simp only [placed, byteSize_cons, Nat.add_assoc]
                · refine List.forall_mem_cons.mpr ⟨⟨?_, here⟩, sound⟩
                  simpa [isBlankText, blank] using gap
          case isFalse visible =>
            have visible : isBlank c = false := by simpa using visible
            split at reads
            case h_1 => cases reads
            case h_2 token after scanned =>
              obtain ⟨word, split, trimmed, alone⟩ := Token.scan_cut visible scanned
              have shorter := Nat.le_trans (Token.length_le_of_scan visible scanned) room
              rw [split, bytesBefore_append] at reads
              split at reads
              case h_1 => cases reads
              case h_2 others later =>
                cases reads
                obtain ⟨cuts, last, rfl, rfl, ends, sound⟩ := ih shorter later
                refine ⟨⟨[], word, token⟩ :: cuts, last, split, ?_, ends, ?_⟩
                · simp [placed]
                · exact List.forall_mem_cons.mpr ⟨⟨rfl, trimmed, alone⟩, sound⟩

/-! ## Laying out anew -/

/-- The cuts of a text: words without blanks at their ends, each of which is read as its token when
it stands alone, and only blanks in between and around them. -/
structure CutsInto (text : List Char) (cuts : List Cut) (last : List Char) : Prop where
  /-- Nothing of the text is lost. -/
  whole : text = written cuts last
  /-- Blanks stand in front of the words. -/
  gaps : ∀ cut ∈ cuts, isBlankText cut.gap = true
  /-- Blanks stand behind the last word. -/
  ends : isBlankText last = true
  /-- No blank of a gap is taken for a part of a word. -/
  trimmed : ∀ cut ∈ cuts, Trimmed cut.word
  /-- A word alone is its token. -/
  alone : ∀ cut ∈ cuts, ofText cut.word = .ok [⟨cut.token, 0⟩]

/-- The same words in the same order with other gaps: blanks around the row, and at least one blank
between two words. -/
structure Relaid (cuts relaid : List Cut) (last : List Char) : Prop where
  /-- The words stay. -/
  same : List.Forall₂ SameWord cuts relaid
  /-- Blanks stand in front of the words. -/
  gaps : ∀ cut ∈ relaid, isBlankText cut.gap = true
  /-- No two words touch. -/
  apart : ∀ cut ∈ relaid.tail, cut.gap ≠ []
  /-- Blanks stand behind the last word. -/
  ends : isBlankText last = true

theorem Relaid.reads {cuts relaid : List Cut} {last : List Char} (anew : Relaid cuts relaid last)
    (reads : ∀ cut ∈ cuts, Reads cut.word cut.token) :
    ofText (written relaid last) = .ok (placed 0 relaid) := by
  have words : ∀ cut ∈ relaid, Reads cut.word cut.token := by
    have same := anew.same
    clear anew
    induction same with
    | nil => simp
    | cons here _ ih =>
        obtain ⟨first, later⟩ := List.forall_mem_cons.mp reads
        refine List.forall_mem_cons.mpr ⟨?_, ih later⟩
        rw [here.1, here.2]
        exact first
  exact ofTextFrom_written words anew.gaps anew.apart anew.ends (Nat.le_refl _) 0

theorem Relaid.tokens {cuts relaid : List Cut} {last : List Char}
    (anew : Relaid cuts relaid last) : relaid.map Cut.token = cuts.map Cut.token := by
  have same := anew.same
  clear anew
  induction same with
  | nil => rfl
  | cons here _ ih => rw [List.map_cons, List.map_cons, here.2, ih]

/-- Tokens do not hang on how a text is laid out.  A text that is read as tokens is cut into words,
one for each token, with blanks between them; the tokens begin where their words do, one behind the
other, and each word alone is read as its token.  With any other blanks between the words and around
them the text is read as the same tokens. -/
theorem tokens_independent_of_layout {text : List Char} {lexemes : List Lexeme}
    (reads : ofText text = .ok lexemes) :
    lexemes.Pairwise (fun one other => one.offset < other.offset) ∧
      ∃ cuts last, CutsInto text cuts last ∧ lexemes = placed 0 cuts ∧
        ∀ relaid ending, Relaid cuts relaid ending →
          ofText (written relaid ending) = .ok (placed 0 relaid) ∧
            (placed 0 relaid).map Lexeme.token = lexemes.map Lexeme.token := by
  obtain ⟨cuts, last, rfl, rfl, ends, sound⟩ := cut_of_ofTextFrom (Nat.le_refl _) reads
  have words : ∀ cut ∈ cuts, Reads cut.word cut.token := fun cut member => (sound cut member).2.2
  have cut : CutsInto (written cuts last) cuts last := {
    whole := rfl
    gaps := fun cut member => (sound cut member).1
    ends
    trimmed := fun cut member => (sound cut member).2.1
    alone := fun cut member => ofText_word (words cut member) }
  refine ⟨placed_increasing (fun cut member => (sound cut member).2.1.1) 0, cuts, last, cut, rfl,
    fun relaid ending anew => ⟨anew.reads words, ?_⟩⟩
  rw [tokens_placed, tokens_placed, anew.tokens]

/-- Longer and shorter tokens that touch: a number in front of a bare exponent mark, a string with
its own quote and a wide character inside, an operator that begins another, and a point that begins
a number. -/
def touching : List Char :=
  ['2', 'e', '+', '=', '\'', '1', ' ', '\\', '\'', ' ', 'é', '\'', '=', '=', '=', '.', '5']

theorem touching_independent_of_layout :
    ofText touching = .ok [⟨.number (Decimal.toFloat ⟨2, 0⟩), 0⟩, ⟨.ident "e", 1⟩,
      ⟨.punct .plusAssign, 2⟩, ⟨.string "1 ' é", 4⟩, ⟨.punct .strictEqual, 13⟩,
      ⟨.number (Decimal.toFloat ⟨5, -1⟩), 16⟩] ∧
      ∃ cuts last, CutsInto touching cuts last ∧
        ∀ relaid ending, Relaid cuts relaid ending →
          ofText (written relaid ending) = .ok (placed 0 relaid) ∧
            (placed 0 relaid).map Lexeme.token = [.number (Decimal.toFloat ⟨2, 0⟩), .ident "e",
              .punct .plusAssign, .string "1 ' é", .punct .strictEqual,
              .number (Decimal.toFloat ⟨5, -1⟩)] := by
  have reads : ofText touching = .ok [⟨.number (Decimal.toFloat ⟨2, 0⟩), 0⟩, ⟨.ident "e", 1⟩,
      ⟨.punct .plusAssign, 2⟩, ⟨.string "1 ' é", 4⟩, ⟨.punct .strictEqual, 13⟩,
      ⟨.number (Decimal.toFloat ⟨5, -1⟩), 16⟩] := rfl
  obtain ⟨-, cuts, last, cut, -, anew⟩ := tokens_independent_of_layout reads
  exact ⟨reads, cuts, last, cut, anew⟩

end Lexeme

end LiveMarkup
