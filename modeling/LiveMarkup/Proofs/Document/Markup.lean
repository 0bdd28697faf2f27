import LiveMarkup.Document.Piece
import LiveMarkup.Document.Tree
import LiveMarkup.Proofs.Text.Span
import Mathlib.Algebra.BigOperators.Group.List.Basic
import Mathlib.Data.List.Chain

/-!
# Writing and reading pieces of markup

A piece that was read can be written: its tag and the names of its attributes have only characters
that names may have, no attribute stands there twice, and its text is not blank.  What is written
for a row of such pieces is read as the same row, unless two texts stand next to each other.
-/

namespace LiveMarkup

open LiveMarkup.Tree (escape escapeChar renderAttribute)

/-! ## Entities -/

namespace Piece

theorem decode_cons {c : Char} (plain : c ≠ '&') (rest : List Char) :
    decode (c :: rest) = c :: decode rest := by
  rw [decode] <;> simp [plain]

/-- Reading undoes what writing does to one character. -/
theorem decode_escapeChar (inAttribute : Bool) (c : Char) (rest : List Char) :
    decode (escapeChar inAttribute c ++ rest) = c :: decode rest := by
  unfold escapeChar
  split
  case isTrue amp => subst amp; rfl
  split
  case isTrue less => subst less; rfl
  split
  case isTrue greater => subst greater; rfl
  split
  case isTrue quote => obtain ⟨rfl, -⟩ := quote; rfl
  case isFalse plain _ _ _ => exact decode_cons plain rest

theorem decode_escape (inAttribute : Bool) (text : String) :
    decode (escape inAttribute text) = text.toList := by
  unfold escape
  induction text.toList with
  | nil => rfl
  | cons c text ih => rw [List.flatMap_cons, decode_escapeChar, ih]

theorem decodeText_escape (inAttribute : Bool) (text : String) :
    decodeText (escape inAttribute text) = text := by
  rw [decodeText, decode_escape, String.ofList_toList]

/-- The characters that end a text do not stand in it once it is written. -/
theorem not_mem_escape {inAttribute : Bool} {mark : Char}
    (escaped : mark = '<' ∨ mark = '"' ∧ inAttribute = true) (text : String) :
    mark ∉ escape inAttribute text := by
  intro member
  obtain ⟨c, -, member⟩ := List.mem_flatMap.mp member
  unfold escapeChar at member
  split at member
  · rcases escaped with rfl | ⟨rfl, -⟩ <;> simp at member
  split at member
  · rcases escaped with rfl | ⟨rfl, -⟩ <;> simp at member
  split at member
  · rcases escaped with rfl | ⟨rfl, -⟩ <;> simp at member
  split at member
  · rcases escaped with rfl | ⟨rfl, -⟩ <;> simp at member
  case isFalse less _ quote =>
    obtain rfl := List.mem_singleton.mp member
    rcases escaped with rfl | ⟨rfl, inside⟩
    · exact less rfl
    · exact quote ⟨rfl, inside⟩

/-- Entities neither hide a blank nor stand for one. -/
theorem isBlankText_decode (text : List Char) : isBlankText (decode text) = isBlankText text := by
  have amp : isBlank '&' = false := by decide
  have less : isBlank '<' = false := by decide
  have greater : isBlank '>' = false := by decide
  have double : isBlank '"' = false := by decide
  have single : isBlank '\'' = false := by decide
  fun_induction decode text <;> simp_all [isBlankText]

theorem isBlankText_escape (inAttribute : Bool) (text : String) :
    isBlankText (escape inAttribute text) = isBlankText text.toList := by
  rw [← isBlankText_decode, decode_escape]

/-! ## Names -/

/-- Whether a text can be the name of a tag that was read. -/
structure TagName (name : String) : Prop where
  /-- It is not empty. -/
  present : name.toList ≠ []
  /-- It has only characters that tags have. -/
  inside : ∀ c ∈ name.toList, inTagName c = true
  /-- It is in lower case. -/
  lower : ∀ c ∈ name.toList, c.toLower = c

/-- Whether attributes can stand together in a tag that was read. -/
structure Distinct (attributes : Assoc String String) : Prop where
  /-- No name is empty. -/
  present : ∀ name ∈ attributes.keys, name.toList ≠ []
  /-- The names have only characters that names of attributes have. -/
  inside : ∀ name ∈ attributes.keys, ∀ c ∈ name.toList, inAttributeName c = true
  /-- No name stands twice. -/
  once : attributes.keys.Nodup

theorem toLower_of_not_isUpper {c : Char} (already : ¬c.isUpper = true) : c.toLower = c :=
  dif_neg fun upper => already (decide_eq_true upper)

/-- A letter in upper case has one in lower case. -/
theorem val_toLower {c : Char} (upper : c.isUpper = true) :
    97 ≤ c.toLower.val.toNat ∧ c.toLower.val.toNat ≤ 122 := by
  have between : 'A'.val ≤ c.val ∧ c.val ≤ 'Z'.val := of_decide_eq_true upper
  have first : 65 ≤ c.val.toNat := UInt32.le_iff_toNat_le.mp between.1
  have last : c.val.toNat ≤ 90 := UInt32.le_iff_toNat_le.mp between.2
  have lower : c.toLower.val = c.val + ('a'.val - 'A'.val) := congrArg Char.val (dif_pos between)
  have moved : c.toLower.val.toNat = c.val.toNat + 32 := by
    rw [lower, UInt32.toNat_add]
    exact Nat.mod_eq_of_lt (show c.val.toNat + 32 < 2 ^ 32 by omega)
  omega

theorem isLower_toLower {c : Char} (upper : c.isUpper = true) : c.toLower.isLower = true := by
  obtain ⟨first, last⟩ := val_toLower upper
  refine Bool.and_eq_true_iff.mpr ⟨decide_eq_true ?_, decide_eq_true ?_⟩
  · exact UInt32.le_iff_toNat_le.mpr first
  · exact UInt32.le_iff_toNat_le.mpr last

theorem not_isUpper_toLower (c : Char) : ¬c.toLower.isUpper = true := by
  by_cases upper : c.isUpper = true
  · obtain ⟨first, -⟩ := val_toLower upper
    intro again
    have between : 'A'.val ≤ c.toLower.val ∧ c.toLower.val ≤ 'Z'.val := of_decide_eq_true again
    have last : c.toLower.val.toNat ≤ 90 := UInt32.le_iff_toNat_le.mp between.2
    omega
  · rwa [toLower_of_not_isUpper upper]

theorem inTagName_toLower {c : Char} (inside : inTagName c = true) :
    inTagName c.toLower = true := by
  by_cases upper : c.isUpper
  · have letter : c.toLower.isAlphanum = true := by
      refine Bool.or_eq_true_iff.mpr (.inl (Bool.or_eq_true_iff.mpr (.inr ?_)))
      exact isLower_toLower upper
    rw [inTagName, letter]
    rfl
  · rwa [toLower_of_not_isUpper upper]

theorem tagName_spec {name : List Char} (present : name ≠ [])
    (inside : ∀ c ∈ name, inTagName c = true) : TagName (tagName name) := by
  simp only [tagName]
  constructor
  · simpa using present
  · simp only [String.toList_ofList, List.mem_map, forall_exists_index, and_imp,
      forall_apply_eq_imp_iff₂]
    exact fun c member => inTagName_toLower (inside c member)
  · simp only [String.toList_ofList, List.mem_map, forall_exists_index, and_imp,
      forall_apply_eq_imp_iff₂]
    exact fun c _ => toLower_of_not_isUpper (not_isUpper_toLower c)

theorem TagName.tagName_toList {name : String} (tag : TagName name) :
    tagName name.toList = name := by
  rw [tagName, List.map_congr_left tag.lower, List.map_id', String.ofList_toList]

theorem distinct_empty : Distinct Assoc.empty := by
  constructor <;> simp [Assoc.keys, Assoc.empty]

theorem Distinct.insert {attributes : Assoc String String} (distinct : Distinct attributes)
    {name value : String} (present : name.toList ≠ [])
    (inside : ∀ c ∈ name.toList, inAttributeName c = true) :
    Distinct (attributes.insert name value) := by
  constructor
  · intro other member
    rcases Assoc.mem_keys_insert member with old | rfl
    · exact distinct.present other old
    · exact present
  · intro other member
    rcases Assoc.mem_keys_insert member with old | rfl
    · exact distinct.inside other old
    · exact inside
  · exact Assoc.nodup_insert distinct.once name value

/-! ## Writing a piece -/

/-- What ends an opening tag. -/
def ending (closed : Bool) : List Char := if closed then ['/', '>'] else ['>']

/-- The markup of a piece. -/
def markup : Piece → List Char
  | opening tag attributes closed =>
      '<' :: tag.toList ++ attributes.entries.flatMap renderAttribute ++ ending closed
  | closing tag => '<' :: '/' :: tag.toList ++ ['>']
  | content text => escape false text

/-- Whether a piece can have been read. -/
def Readable : Piece → Prop
  | opening tag attributes _ => TagName tag ∧ Distinct attributes
  | closing tag => TagName tag
  | content text => isBlankText text.toList = false

/-! ## Reading what was written -/

theorem isEmpty_ofList_toList {name : String} (present : name.toList ≠ []) :
    (String.ofList name.toList).isEmpty = false := by
  rw [String.ofList_toList, String.isEmpty_eq_false_iff]
  rintro rfl
  exact present rfl

/-- A quoted value ends at the next quote. -/
theorem readValue_quoted {raw : List Char} (free : '"' ∉ raw) (rest : List Char) :
    readValue ('"' :: (raw ++ '"' :: rest)) = .ok (decodeText raw, rest) := by
  have inside : ∀ c ∈ raw, decide (c ≠ '"') = true := ne_of_not_mem free
  have stops : Stops (fun c => decide (c ≠ '"')) ('"' :: rest) := by simp
  rw [readValue, if_pos (.inl rfl), dropWhile_run inside stops, takeWhile_run inside stops]

theorem readAttributes_ending (attributes : Assoc String String) (fuel : Nat) (closed : Bool)
    (rest : List Char) :
    readAttributes attributes (fuel + 1) (ending closed ++ rest) =
      .ok (attributes, closed, rest) := by
  cases closed <;> rfl

/-- An attribute with a quoted value is added to the attributes that were read before it. -/
theorem readAttributes_quoted (attributes : Assoc String String) (fuel : Nat) {name : String}
    (present : name.toList ≠ []) (inside : ∀ c ∈ name.toList, inAttributeName c = true)
    {raw : List Char} (free : '"' ∉ raw) (rest : List Char) :
    readAttributes attributes (fuel + 1) (' ' :: (name.toList ++ '=' :: '"' :: (raw ++ '"' :: rest))) =
      readAttributes (attributes.insert name (decodeText raw)) fuel rest := by
  obtain ⟨c, tail, first⟩ := List.exists_cons_of_ne_nil present
  have kind : inAttributeName c = true := inside c (first ▸ List.mem_cons_self)
  have filled : isBlank c = false := by
    simp only [inAttributeName, Bool.and_eq_true, Bool.not_eq_true'] at kind
    exact kind.1.1.1.1.1
  let quoted : List Char := '"' :: (raw ++ '"' :: rest)
  have equals : Stops isBlank ('=' :: quoted) := stops_cons.mpr (by decide)
  have skipped : (' ' :: (name.toList ++ '=' :: quoted)).dropWhile isBlank =
      name.toList ++ '=' :: quoted := by
    have blank : ∀ c ∈ [' '], isBlank c = true := by simp; decide
    have filled : Stops isBlank (name.toList ++ '=' :: quoted) := by
      rw [first]
      exact stops_cons.mpr filled
    exact dropWhile_run blank filled
  have stops : Stops inAttributeName ('=' :: quoted) := stops_cons.mpr (by decide)
  have named := isEmpty_ofList_toList present
  rw [readAttributes, skipped]
  split
  case h_1 none => simp [first] at none
  case h_2 mark =>
    rw [first, List.cons_append, List.cons.injEq] at mark
    rw [mark.1] at kind
    contradiction
  case h_3 mark =>
    rw [first, List.cons_append, List.cons.injEq] at mark
    rw [mark.1] at kind
    contradiction
  case h_4 =>
    simp only [takeWhile_run inside stops, dropWhile_run inside stops, named, Bool.false_eq_true,
      if_false, equals.dropWhile]
    have marked : quoted.dropWhile isBlank = quoted := Stops.dropWhile (stops_cons.mpr (by decide))
    rw [marked, readValue_quoted free, String.ofList_toList]

/-- An attribute that was written is read as it was. -/
theorem readAttributes_renderAttribute (attributes : Assoc String String) (fuel : Nat)
    {name : String} (value : String) (rest : List Char) (present : name.toList ≠ [])
    (inside : ∀ c ∈ name.toList, inAttributeName c = true) :
    readAttributes attributes (fuel + 1) (renderAttribute (name, value) ++ rest) =
      readAttributes (attributes.insert name value) fuel rest := by
  have free : '"' ∉ escape true value := not_mem_escape (.inr ⟨rfl, rfl⟩) value
  have text : renderAttribute (name, value) ++ rest =
      ' ' :: (name.toList ++ '=' :: '"' :: (escape true value ++ '"' :: rest)) := by
    simp [renderAttribute]
  rw [text, readAttributes_quoted attributes fuel present inside free rest, decodeText_escape]

theorem readAttributes_entries (entries : List (String × String))
    (present : ∀ entry ∈ entries, entry.1.toList ≠ [])
    (inside : ∀ entry ∈ entries, ∀ c ∈ entry.1.toList, inAttributeName c = true)
    (attributes : Assoc String String) (fuel : Nat) (rest : List Char) :
    readAttributes attributes (fuel + entries.length) (entries.flatMap renderAttribute ++ rest) =
      readAttributes (entries.foldl (fun map entry => map.insert entry.1 entry.2) attributes) fuel
        rest := by
  induction entries generalizing attributes with
  | nil => rfl
  | cons entry entries ih =>
      rw [List.forall_mem_cons] at present inside
      rw [List.flatMap_cons, List.append_assoc, List.length_cons, ← Nat.add_assoc,
        readAttributes_renderAttribute _ _ _ _ present.1 inside.1]
      exact ih present.2 inside.2 _

/-- Every attribute takes at least one character. -/
theorem length_le_flatMap_renderAttribute (entries : List (String × String)) :
    entries.length ≤ (entries.flatMap renderAttribute).length := by
  rw [List.length_flatMap, ← List.length_map fun entry => (renderAttribute entry).length]
  refine List.length_le_sum_of_one_le _ fun length member => ?_
  obtain ⟨entry, -, rfl⟩ := List.mem_map.mp member
  exact Nat.succ_pos _

theorem stops_flatMap_renderAttribute (entries : List (String × String)) {rest : List Char}
    (stops : Stops inTagName rest) : Stops inTagName (entries.flatMap renderAttribute ++ rest) := by
  cases entries with
  | nil => exact stops
  | cons entry later =>
      simp only [List.flatMap_cons, renderAttribute, List.cons_append, stops_cons]
      decide

/-- Behind its name, a tag has the attributes that are read there. -/
theorem readOpening_of_attributes {tag : String} (name : TagName tag)
    {attributes : Assoc String String} (distinct : Distinct attributes) {behind : List Char}
    (stops : Stops inTagName behind) {read : Assoc String String} {closed : Bool} {rest : List Char}
    (reads : ∀ fuel, readAttributes attributes (fuel + behind.length + 1) behind =
      .ok (read, closed, rest)) :
    readOpening ('<' :: (tag.toList ++ (attributes.entries.flatMap renderAttribute ++ behind))) =
      .ok (opening tag read closed, rest) := by
  have keys (entry : String × String) (member : entry ∈ attributes.entries) :
      entry.1 ∈ attributes.keys := List.mem_map_of_mem member
  have each := length_le_flatMap_renderAttribute attributes.entries
  obtain ⟨extra, length⟩ := Nat.exists_eq_add_of_le each
  have enough : (attributes.entries.flatMap renderAttribute ++ behind).length + 1 =
      extra + behind.length + 1 + attributes.entries.length := by
    rw [List.length_append]
    omega
  have inserted : attributes.entries.foldl (fun map entry => map.insert entry.1 entry.2)
      Assoc.empty = attributes := by
    rw [Assoc.foldl_insert_of_nodup]
    · rfl
    · exact distinct.once
  have behindTag := stops_flatMap_renderAttribute attributes.entries stops
  have reading := (readAttributes_entries attributes.entries
    (fun entry member => distinct.present _ (keys entry member))
    (fun entry member => distinct.inside _ (keys entry member)) Assoc.empty
    (extra + behind.length + 1) behind).trans ((congrArg (readAttributes · _ _) inserted).trans
      (reads extra))
  rw [← enough] at reading
  simp only [readOpening, List.drop_one, List.tail_cons, takeWhile_run name.inside behindTag,
    dropWhile_run name.inside behindTag, reading, List.isEmpty_eq_false_iff.mpr name.present,
    name.tagName_toList, Bool.false_eq_true, if_false]

theorem stops_ending (closed : Bool) (rest : List Char) :
    Stops inTagName (ending closed ++ rest) := by
  cases closed <;> simp [ending] <;> decide

theorem readOpening_written {tag : String} (name : TagName tag)
    {attributes : Assoc String String} (distinct : Distinct attributes) (closed : Bool)
    (rest : List Char) :
    readOpening ((opening tag attributes closed).markup ++ rest) =
      .ok (opening tag attributes closed, rest) := by
  have text : (opening tag attributes closed).markup ++ rest =
      '<' :: (tag.toList ++ (attributes.entries.flatMap renderAttribute ++
        (ending closed ++ rest))) := by
    simp [markup]
  rw [text]
  exact readOpening_of_attributes name distinct (stops_ending closed rest) fun fuel =>
    readAttributes_ending attributes _ closed rest

theorem readClosing_written {tag : String} (name : TagName tag) (rest : List Char) :
    readClosing ((closing tag).markup ++ rest) = .ok (closing tag, rest) := by
  have text : (closing tag).markup ++ rest = '<' :: '/' :: (tag.toList ++ '>' :: rest) := by
    simp [markup]
  have stops : Stops inTagName ('>' :: rest) := stops_cons.mpr (by decide)
  have filled : Stops isBlank ('>' :: rest) := stops_cons.mpr (by decide)
  simp only [readClosing, text, List.drop_succ_cons, List.drop_zero,
    takeWhile_run name.inside stops, dropWhile_run name.inside stops,
    List.isEmpty_eq_false_iff.mpr name.present, filled.dropWhile, name.tagName_toList,
    Bool.false_eq_true, if_false]

/-- A text ends where the next tag begins. -/
theorem readOne_content {text : String} (filled : isBlankText text.toList = false)
    {rest : List Char} (stops : Stops (fun c => decide (c ≠ '<')) rest) :
    readOne ((content text).markup ++ rest) = .ok (some (content text), rest) := by
  have inside : ∀ c ∈ escape false text, decide (c ≠ '<') = true :=
    ne_of_not_mem (not_mem_escape (.inl rfl) text)
  have first : ∀ tail, escape false text ++ rest ≠ '<' :: tail := by
    intro tail same
    rcases written : escape false text with _ | ⟨c, later⟩
    · rw [← isBlankText_escape false, written] at filled
      contradiction
    · rw [written, List.cons_append, List.cons.injEq] at same
      exact not_mem_escape (.inl rfl) text (by rw [written, same.1]; exact List.mem_cons_self)
  rw [markup, readOne]
  · simp only [takeWhile_run inside stops, dropWhile_run inside stops, isBlankText_escape, filled,
      decodeText_escape, Bool.false_eq_true, if_false]
  all_goals exact fun _ => first _

/-- A mark with a name behind it opens a tag. -/
theorem readOne_opening {tag : String} (name : TagName tag) {behind rest : List Char} {piece : Piece}
    (reads : readOpening ('<' :: (tag.toList ++ behind)) = .ok (piece, rest)) :
    readOne ('<' :: (tag.toList ++ behind)) = .ok (some piece, rest) := by
  obtain ⟨c, tail, first⟩ := List.exists_cons_of_ne_nil name.present
  have kind : inTagName c = true := name.inside c (first ▸ List.mem_cons_self)
  rw [first, List.cons_append] at reads ⊢
  rw [readOne, reads]
  · rfl
  all_goals
    intro later same
    rw [List.cons.injEq] at same
    rw [same.1] at kind
    contradiction

/-- What is written for a piece is read as that piece, if no text follows a text. -/
theorem readOne_written {piece : Piece} (readable : piece.Readable) {rest : List Char}
    (stops : ∀ text, piece = content text → Stops (fun c => decide (c ≠ '<')) rest) :
    readOne (piece.markup ++ rest) = .ok (some piece, rest) := by
  cases piece with
  | content text => exact readOne_content readable (stops text rfl)
  | closing tag =>
      have reads := readClosing_written readable rest
      simp only [markup, List.cons_append] at reads ⊢
      rw [readOne, reads]
      rfl
  | opening tag attributes closed =>
      have reads := readOpening_written readable.1 readable.2 closed rest
      simp only [markup, List.cons_append, List.append_assoc] at reads ⊢
      exact readOne_opening readable.1 reads

/-- Whether two pieces can be told apart where one follows the other. -/
def Apart : Piece → Piece → Prop
  | content _, content _ => False
  | _, _ => True

/-- Whether a text is a way to write a piece. -/
structure Writes (text : List Char) (piece : Piece) : Prop where
  /-- There is something. -/
  present : text ≠ []
  /-- It is read as the piece, whatever is behind it, but for a text behind a text. -/
  read : ∀ rest, (∀ words, piece = content words → Stops (fun c => decide (c ≠ '<')) rest) →
    readOne (text ++ rest) = .ok (some piece, rest)
  /-- A tag begins with its mark. -/
  marked : ∀ rest, (∀ words, piece ≠ content words) → Stops (fun c => decide (c ≠ '<')) (text ++ rest)

theorem writes_markup {piece : Piece} (readable : piece.Readable) : Writes piece.markup piece where
  present := by
    cases piece with
    | opening tag attributes closed => simp [markup]
    | closing tag => simp [markup]
    | content text =>
        intro empty
        rw [Readable, ← isBlankText_escape false] at readable
        rw [markup] at empty
        rw [empty] at readable
        contradiction
  read rest stops := readOne_written readable stops
  marked rest other := by
    cases piece with
    | opening tag attributes closed => simp [markup]
    | closing tag => simp [markup]
    | content text => exact absurd rfl (other text)

theorem stops_of_apart {words : String} {rows : List (List Char × Piece)}
    (writes : ∀ row ∈ rows, Writes row.1 row.2)
    (apart : (content words :: rows.map Prod.snd).IsChain Apart) :
    Stops (fun c => decide (c ≠ '<')) (rows.flatMap Prod.fst) := by
  rcases rows with _ | ⟨row, later⟩
  · exact stops_nil
  · rw [List.flatMap_cons]
    refine (writes row List.mem_cons_self).marked _ fun other same => ?_
    have next := (List.isChain_cons_cons.mp apart).1
    rw [same] at next
    exact next

/-- However a row of pieces is written, it is read as that row. -/
theorem ofTextFrom_rows {rows : List (List Char × Piece)}
    (writes : ∀ row ∈ rows, Writes row.1 row.2) (apart : (rows.map Prod.snd).IsChain Apart)
    {fuel : Nat} (enough : (rows.flatMap Prod.fst).length ≤ fuel) (offset : Nat) :
    ofTextFrom fuel offset (rows.flatMap Prod.fst) = (rows.map Prod.snd, none) := by
  induction rows generalizing fuel offset with
  | nil => cases fuel <;> rfl
  | cons row rows ih =>
      rw [List.forall_mem_cons] at writes
      obtain ⟨c, tail, text⟩ := List.exists_cons_of_ne_nil writes.1.present
      have read : readOne (row.1 ++ rows.flatMap Prod.fst) =
          .ok (some row.2, rows.flatMap Prod.fst) := by
        refine writes.1.read _ fun words same => ?_
        rw [List.map_cons, same] at apart
        exact stops_of_apart writes.2 apart
      rw [List.flatMap_cons, List.length_append, text, List.length_cons] at enough
      obtain ⟨fuel, rfl⟩ : ∃ less, fuel = less + 1 := ⟨fuel - 1, by omega⟩
      rw [text, List.cons_append] at read
      have remaining : (rows.flatMap Prod.fst).length ≤ fuel := by omega
      have later := ih writes.2 apart.tail remaining
      rw [List.flatMap_cons, text, List.cons_append, ofTextFrom, read]
      simp only [later, Option.toList_some, List.singleton_append, List.map_cons]

theorem ofText_rows {rows : List (List Char × Piece)} (writes : ∀ row ∈ rows, Writes row.1 row.2)
    (apart : (rows.map Prod.snd).IsChain Apart) :
    ofText (rows.flatMap Prod.fst) = (rows.map Prod.snd, none) :=
  ofTextFrom_rows writes apart (Nat.le_refl _) 0

/-- What is written for a row of pieces is read as that row. -/
theorem ofText_written {pieces : List Piece} (readable : ∀ piece ∈ pieces, piece.Readable)
    (apart : pieces.IsChain Apart) : ofText (pieces.flatMap markup) = (pieces, none) := by
  let rows := pieces.map fun piece => (piece.markup, piece)
  have texts : rows.flatMap Prod.fst = pieces.flatMap markup := List.flatMap_map _ _ _
  have row : rows.map Prod.snd = pieces := by
    rw [List.map_map]
    exact List.map_id pieces
  have writes : ∀ row ∈ rows, Writes row.1 row.2 := by
    intro row member
    obtain ⟨piece, inside, rfl⟩ := List.mem_map.mp member
    exact writes_markup (readable piece inside)
  have read := ofText_rows writes (row.symm ▸ apart)
  rwa [texts, row] at read

/-! ## Everything that is read can be written -/

theorem mem_takeWhile {kind : Char → Bool} {text : List Char} :
    ∀ c ∈ text.takeWhile kind, kind c = true :=
  List.all_eq_true.mp List.all_takeWhile

theorem Distinct.of_readAttributes {fuel : Nat} {attributes read : Assoc String String}
    {text rest : List Char} {closed : Bool} (distinct : Distinct attributes)
    (reads : readAttributes attributes fuel text = .ok (read, closed, rest)) : Distinct read := by
  induction fuel generalizing attributes text with
  | zero => contradiction
  | succ fuel ih =>
      rw [readAttributes] at reads
      split at reads
      case h_1 => contradiction
      case h_2 => cases reads; exact distinct
      case h_3 => cases reads; exact distinct
      case h_4 =>
        -- Whatever the value is, the name before it is one that an attribute may have.
        have grows {text : List Char} (value : String)
            (named : ¬(String.ofList (text.takeWhile inAttributeName)).isEmpty = true) :
            Distinct
              (attributes.insert (String.ofList (text.takeWhile inAttributeName)) value) := by
          refine distinct.insert ?_ ?_
          · rw [String.toList_ofList]
            rintro empty
            exact named (by rw [empty]; rfl)
          · rw [String.toList_ofList]
            exact mem_takeWhile
        dsimp only at reads
        split at reads
        case isTrue => contradiction
        case isFalse named =>
          split at reads
          · split at reads
            · contradiction
            · exact ih (grows _ named) reads
          · exact ih (grows _ named) reads

theorem Readable.of_readOpening {text rest : List Char} {piece : Piece}
    (reads : readOpening text = .ok (piece, rest)) : piece.Readable := by
  simp only [readOpening] at reads
  split at reads
  case isTrue => contradiction
  case isFalse named =>
    split at reads
    · contradiction
    case h_2 read =>
      cases reads
      refine ⟨tagName_spec ?_ mem_takeWhile, distinct_empty.of_readAttributes read⟩
      simpa using named

theorem Readable.of_readClosing {text rest : List Char} {piece : Piece}
    (reads : readClosing text = .ok (piece, rest)) : piece.Readable := by
  simp only [readClosing] at reads
  split at reads
  case isTrue => contradiction
  case isFalse named =>
    split at reads
    · cases reads
      exact tagName_spec (by simpa using named) mem_takeWhile
    · contradiction

theorem Readable.of_readOne {text rest : List Char} {piece : Piece}
    (reads : readOne text = .ok (some piece, rest)) : piece.Readable := by
  unfold readOne at reads
  split at reads
  · split at reads <;> cases reads
  · rcases read : readClosing _ with fault | ⟨other, later⟩
    · rw [read] at reads
      contradiction
    · rw [read] at reads
      cases reads
      exact of_readClosing read
  · rcases read : readOpening _ with fault | ⟨other, later⟩
    · rw [read] at reads
      contradiction
    · rw [read] at reads
      cases reads
      exact of_readOpening read
  · dsimp only at reads
    split at reads
    · cases reads
    case isFalse filled =>
      cases reads
      rw [Readable, decodeText, String.toList_ofList, isBlankText_decode]
      exact Bool.eq_false_iff.mpr filled

theorem readable_of_ofTextFrom {fuel offset : Nat} {text : List Char} :
    ∀ piece ∈ (ofTextFrom fuel offset text).1, piece.Readable := by
  induction fuel generalizing offset text with
  | zero => simp [ofTextFrom]
  | succ fuel ih =>
      intro piece member
      rcases text with _ | ⟨c, text⟩
      · simp [ofTextFrom] at member
      rw [ofTextFrom] at member
      split at member
      · simp at member
      · simp at member
      case h_3 read =>
        rcases List.mem_append.mp member with first | later
        · rw [Option.mem_toList] at first
          subst first
          exact Readable.of_readOne read
        · exact ih piece later

end Piece

end LiveMarkup
