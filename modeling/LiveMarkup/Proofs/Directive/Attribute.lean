import LiveMarkup.Directive.Attribute
import LiveMarkup.Proofs.Text.Span

/-!
# The parts of a directive attribute

The name of a directive attribute is put together from a prefix, a name, an argument behind a colon
and modifiers behind dots.  Reading it loses nothing: the parts that are read make up the name
again, and they are the only ones that do, if colons and dots stand only where parts are joined.
-/

namespace LiveMarkup

namespace Directive

/-! ## Prefixes -/

theorem stripStart?_eq_some_iff {start text rest : List Char} :
    stripStart? start text = some rest ↔ text = start ++ rest := by
  fun_induction stripStart? start text with
  | case1 text => simp
  | case2 => simp
  | case3 start c text ih => simp [ih]
  | case4 c start d text other => simp [Ne.symm other]

theorem stripStart?_eq_none_iff {start text : List Char} :
    stripStart? start text = none ↔ ¬start <+: text := by
  rw [← not_iff_not, not_not, ← ne_eq, Option.ne_none_iff_exists']
  exact exists_congr fun rest => stripStart?_eq_some_iff.trans eq_comm

/-! ## Separators -/

variable {separator : Char}

theorem splitAt_eq_splitOn (text : List Char) :
    splitAt separator text = text.splitOn separator := by
  induction text with
  | nil => rfl
  | cons c text ih =>
      obtain ⟨first, others, split⟩ :=
        List.exists_cons_of_ne_nil (List.splitOn_ne_nil separator text)
      rw [splitAt, ih, List.splitOn_cons_eq_if_modifyHead, split]
      by_cases here : c = separator <;> simp [here]

/-- No part of a text that was split has the separator in it. -/
theorem not_mem_splitAt (separator : Char) (text : List Char) :
    ∀ part ∈ splitAt separator text, separator ∉ part := by
  fun_induction splitAt separator text with
  | case1 => simp
  | case2 rest ih => simpa using ih
  | case3 c rest other none ih => simp [Ne.symm other]
  | case4 c rest other first others split ih =>
      rw [split, List.forall_mem_cons] at ih
      rw [List.forall_mem_cons, List.mem_cons, not_or]
      exact ⟨⟨Ne.symm other, ih.1⟩, ih.2⟩

theorem intercalate_cons (first : List Char) (others : List (List Char)) :
    [separator].intercalate (first :: others) =
      first ++ others.flatMap fun part => separator :: part := by
  induction others generalizing first with
  | nil => simp
  | cons second others ih => simp [List.intercalate_cons_cons, ih]

/-- The parts of a text are the ones without a separator that it is made of. -/
theorem splitAt_eq_cons_iff {text first : List Char} {others : List (List Char)} :
    splitAt separator text = first :: others ↔
      text = first ++ (others.flatMap fun part => separator :: part) ∧
        separator ∉ first ∧ ∀ part ∈ others, separator ∉ part := by
  rw [← intercalate_cons]
  constructor
  · intro split
    have free := not_mem_splitAt separator text
    rw [split, List.forall_mem_cons] at free
    rw [← split, splitAt_eq_splitOn, List.intercalate_splitOn]
    exact ⟨rfl, free⟩
  · rintro ⟨rfl, free⟩
    rw [splitAt_eq_splitOn]
    exact List.splitOn_intercalate separator (List.forall_mem_cons.mpr free) (List.cons_ne_nil _ _)

/-- A text is cut at its first separator, if it has one. -/
theorem cut_eq_iff {text front : List Char} {behind : Option (List Char)} :
    text.takeWhile (· ≠ separator) = front ∧ (text.dropWhile (· ≠ separator)).tail? = behind ↔
      text = front ++ behind.elim [] (separator :: ·) ∧ separator ∉ front := by
  constructor
  · rintro ⟨rfl, rfl⟩
    have whole := List.takeWhile_append_dropWhile (p := (· ≠ separator)) (l := text)
    have inside := List.all_eq_true.mp (List.all_takeWhile (p := (· ≠ separator)) (l := text))
    refine ⟨?_, fun member => by simpa using inside separator member⟩
    cases dropped : text.dropWhile (· ≠ separator) with
    | nil => rw [dropped] at whole; exact whole.symm
    | cons c rest =>
        have goesOn : text.dropWhile (· ≠ separator) ≠ [] := by
          rw [dropped]
          exact List.cons_ne_nil c rest
        have first := List.head_dropWhile_not (p := (· ≠ separator)) goesOn
        simp only [dropped, List.head_cons, decide_eq_false_iff_not, not_not] at first
        obtain rfl := first
        rw [dropped] at whole
        exact whole.symm
  · rintro ⟨rfl, free⟩
    have inside : ∀ c ∈ front, decide (c ≠ separator) = true := ne_of_not_mem free
    have stops : Stops (fun c => decide (c ≠ separator)) (behind.elim [] (separator :: ·)) := by
      cases behind <;> simp
    rw [takeWhile_run inside stops, dropWhile_run inside stops]
    cases behind <;> simp

/-! ## Putting parts together -/

/-- The argument of a directive as it stands in the name of its attribute. -/
def argumentText : Option String → String
  | none => ""
  | some argument => ":" ++ argument

/-- The name of the attribute that holds a directive. -/
def attributeName (attributePrefix : String) (directive : Directive) : String :=
  attributePrefix ++ directive.name ++ argumentText directive.argument ++
    String.join (directive.modifiers.map ("." ++ ·))

/-- Whether the parts of a directive can be told apart once they are put together: there is at least
one, and none has a separator in it that would end it. -/
structure Separable (directive : Directive) : Prop where
  present : directive.name ≠ "" ∨ directive.argument ≠ none ∨ directive.modifiers ≠ []
  name_plain : ':' ∉ directive.name.toList ∧ '.' ∉ directive.name.toList
  argument_plain : ∀ argument ∈ directive.argument, '.' ∉ argument.toList
  modifiers_plain : ∀ modifier ∈ directive.modifiers, '.' ∉ modifier.toList

/-- What stands between the prefix and the modifiers. -/
def head (directive : Directive) : List Char :=
  directive.name.toList ++ (directive.argument.map String.toList).elim [] (':' :: ·)

/-- What stands behind the prefix. -/
def parts (directive : Directive) : List Char :=
  directive.head ++ (directive.modifiers.map String.toList).flatMap ('.' :: ·)

theorem toList_attributeName (attributePrefix : String) (directive : Directive) :
    (directive.attributeName attributePrefix).toList =
      attributePrefix.toList ++ directive.parts := by
  obtain ⟨name, argument, modifiers, value⟩ := directive
  have marked : argumentText argument =
      String.ofList ((argument.map String.toList).elim [] (':' :: ·)) := by
    cases argument with
    | none => rfl
    | some argument => rw [← String.toList_inj]; simp [argumentText]
  simp [attributeName, parts, head, marked, String.toList_join, List.flatMap_map]

theorem parts_ne_nil_iff (directive : Directive) :
    directive.parts ≠ [] ↔
      directive.name ≠ "" ∨ directive.argument ≠ none ∨ directive.modifiers ≠ [] := by
  obtain ⟨name, argument, modifiers, value⟩ := directive
  cases argument <;> cases modifiers <;> simp [parts, head]

theorem not_mem_head_iff (directive : Directive) :
    '.' ∉ directive.head ↔
      '.' ∉ directive.name.toList ∧ ∀ argument ∈ directive.argument, '.' ∉ argument.toList := by
  obtain ⟨name, argument, modifiers, value⟩ := directive
  cases argument <;> simp [head]

/-! ## Taking a name apart -/

/-- The directive whose attribute is cut at the dots behind its prefix. -/
def ofPieces (head : List Char) (modifiers : List (List Char)) (value : String) : Directive where
  name := String.ofList (head.takeWhile (· ≠ ':'))
  argument := (head.dropWhile (· ≠ ':')).tail?.map String.ofList
  modifiers := modifiers.map String.ofList
  expression := value

theorem head_ofPieces (head : List Char) (modifiers : List (List Char)) (value : String) :
    (ofPieces head modifiers value).head = head ∧
      ':' ∉ (ofPieces head modifiers value).name.toList := by
  obtain ⟨whole, free⟩ := cut_eq_iff.mp (⟨rfl, rfl⟩ : head.takeWhile (· ≠ ':') = _ ∧
    (head.dropWhile (· ≠ ':')).tail? = _)
  simp only [Directive.head, ofPieces, String.toList_ofList, Option.map_map]
  exact ⟨by simpa using whole.symm, free⟩

/-- What is read can be told apart and makes up the text again. -/
theorem separable_ofPieces {rest head : List Char} {modifiers : List (List Char)}
    (split : splitAt '.' rest = head :: modifiers) (filled : rest ≠ []) (value : String) :
    (ofPieces head modifiers value).Separable ∧ (ofPieces head modifiers value).parts = rest := by
  obtain ⟨whole, headPlain, modifiersPlain⟩ := splitAt_eq_cons_iff.mp split
  obtain ⟨sameHead, named⟩ := head_ofPieces head modifiers value
  have same : (ofPieces head modifiers value).parts = rest := by
    rw [parts, sameHead, whole]
    simp [ofPieces]
  rw [← sameHead, not_mem_head_iff] at headPlain
  refine ⟨⟨(parts_ne_nil_iff _).mp (same ▸ filled), ⟨named, headPlain.1⟩, headPlain.2, ?_⟩, same⟩
  simpa [ofPieces] using modifiersPlain

/-- Parts that can be told apart are found again. -/
theorem Separable.splitAt_parts {directive : Directive} (separable : directive.Separable) :
    splitAt '.' directive.parts = directive.head :: directive.modifiers.map String.toList := by
  refine splitAt_eq_cons_iff.mpr ⟨rfl, ?_, ?_⟩
  · exact (not_mem_head_iff directive).mpr ⟨separable.name_plain.2, separable.argument_plain⟩
  · simpa using separable.modifiers_plain

theorem Separable.ofPieces_head {directive : Directive} (separable : directive.Separable) :
    ofPieces directive.head (directive.modifiers.map String.toList) directive.expression =
      directive := by
  obtain ⟨front, behind⟩ := cut_eq_iff.mpr ⟨rfl, separable.name_plain.1⟩
  rw [ofPieces, head, front, behind]
  simp [Function.comp_def]

/-! ## Reading an attribute -/

variable {attributePrefix name : String}

theorem ofAttribute?_of_splitAt {rest head : List Char} {modifiers : List (List Char)}
    (whole : name.toList = attributePrefix.toList ++ rest) (filled : rest ≠ [])
    (split : splitAt '.' rest = head :: modifiers) (value : String) :
    ofAttribute? attributePrefix name value = some (ofPieces head modifiers value) := by
  obtain ⟨c, tail, rfl⟩ := List.exists_cons_of_ne_nil filled
  rw [ofAttribute?, stripStart?_eq_some_iff.mpr whole]
  simp only [split, ofPieces]
  cases head.dropWhile (· ≠ ':') <;> rfl

/-- A name that goes on behind the prefix is read. -/
theorem exists_ofAttribute?_eq (value : String) (begins : attributePrefix.toList <+: name.toList)
    (longer : name ≠ attributePrefix) :
    ∃ directive, ofAttribute? attributePrefix name value = some directive ∧
      directive.Separable ∧ directive.expression = value ∧
      name = directive.attributeName attributePrefix := by
  obtain ⟨rest, whole⟩ := begins
  have filled : rest ≠ [] := by
    rintro rfl
    exact longer (String.toList_inj.mp (by rw [← whole, List.append_nil]))
  have cut : splitAt '.' rest ≠ [] := by
    rw [splitAt_eq_splitOn]
    exact List.splitOn_ne_nil '.' rest
  obtain ⟨head, modifiers, split⟩ := List.exists_cons_of_ne_nil cut
  obtain ⟨separable, same⟩ := separable_ofPieces split filled value
  refine ⟨_, ofAttribute?_of_splitAt whole.symm filled split value, separable, rfl, ?_⟩
  rw [← String.toList_inj, toList_attributeName, same, whole]

theorem ofAttribute?_eq_none_iff (value : String) :
    ofAttribute? attributePrefix name value = none ↔
      ¬attributePrefix.toList <+: name.toList ∨ name = attributePrefix := by
  constructor
  · intro refused
    by_cases begins : attributePrefix.toList <+: name.toList
    · refine .inr (Classical.byContradiction fun longer => ?_)
      obtain ⟨directive, read, -⟩ := exists_ofAttribute?_eq value begins longer
      rw [refused] at read
      cases read
    · exact .inl begins
  · rintro (foreign | rfl)
    · rw [ofAttribute?, stripStart?_eq_none_iff.mpr foreign]
    · rw [ofAttribute?, stripStart?_eq_some_iff.mpr (List.append_nil _).symm]

theorem Separable.ofAttribute?_attributeName {directive : Directive}
    (separable : directive.Separable) (attributePrefix : String) :
    ofAttribute? attributePrefix (directive.attributeName attributePrefix) directive.expression =
      some directive := by
  have filled := (parts_ne_nil_iff directive).mpr separable.present
  have whole := toList_attributeName attributePrefix directive
  rw [ofAttribute?_of_splitAt whole filled separable.splitAt_parts, separable.ofPieces_head]

/-- Nothing is read exactly if the name does not go on behind the prefix; and the directive that is
read is the only one with separable parts whose attribute has that name and value. -/
theorem attribute_names_read_exactly (attributePrefix name value : String) :
    (ofAttribute? attributePrefix name value = none ↔
      ¬attributePrefix.toList <+: name.toList ∨ name = attributePrefix) ∧
    ∀ directive, ofAttribute? attributePrefix name value = some directive ↔
      directive.Separable ∧ directive.expression = value ∧
        name = directive.attributeName attributePrefix := by
  refine ⟨ofAttribute?_eq_none_iff value, fun directive => ⟨fun read => ?_, ?_⟩⟩
  · have known : ofAttribute? attributePrefix name value ≠ none := by simp [read]
    rw [ne_eq, ofAttribute?_eq_none_iff, not_or, not_not] at known
    obtain ⟨same, found, parts⟩ := exists_ofAttribute?_eq value known.1 known.2
    obtain rfl := Option.some.inj (read.symm.trans found)
    exact parts
  · rintro ⟨separable, rfl, rfl⟩
    exact separable.ofAttribute?_attributeName attributePrefix

end Directive

end LiveMarkup
