import LiveMarkup.Proofs.Document.Markup
import LiveMarkup.Proofs.Text.Replacing

/-!
# Entities

Reading replaces the entities of a text in one go from the left.  That is the same as replacing one
entity after another in the whole text, as long as the ampersand comes last: it begins every entity,
and no other character that an entity stands for is in one.  So a text that was escaped is read as
what it was, also where it looks like an entity itself.
-/

namespace LiveMarkup

open LiveMarkup.Tree (escape)

namespace Piece

/-- The entities and what they stand for, in the order in which they can be replaced. -/
def entityTable : List (String × String) :=
  [("&lt;", "<"), ("&gt;", ">"), ("&quot;", "\""), ("&#39;", "'"), ("&amp;", "&")]

/-- Replaces one entity after another in a text, each everywhere; a text without an ampersand has
none. -/
def replaceEntities (text : String) : String :=
  if text.contains '&' then
    ((((text.replace "&lt;" "<").replace "&gt;" ">").replace "&quot;" "\"").replace "&#39;"
      "'").replace "&amp;" "&"
  else text

theorem entityTable_orderly : Orderly '&' entityTable := by
  constructor
  · simp only [entityTable, List.forall_mem_cons]
    refine ⟨⟨"lt;".toList, rfl, by simp⟩, ⟨"gt;".toList, rfl, by simp⟩,
      ⟨"quot;".toList, rfl, by simp⟩, ⟨"#39;".toList, rfl, by simp⟩, ⟨"amp;".toList, rfl, by simp⟩,
      by simp⟩
  · simp [entityTable]
  · simp [entityTable]

/-- Reading a text is replacing its entities. -/
theorem decode_of_replaces {text out : List Char} (replaces : Replaces entityTable text out) :
    decode text = out := by
  induction replaces with
  | nil => rfl
  | found known _ ih =>
      simp only [entityTable, List.mem_cons, List.not_mem_nil, or_false] at known
      rcases known with rfl | rfl | rfl | rfl | rfl
      all_goals exact congrArg (List.cons _) ih
  | @kept c rest out free _ ih =>
      have absent (row : String × String) (known : row ∈ entityTable) {behind : List Char}
          (same : c :: rest = row.1.toList ++ behind) : False :=
        free row known ⟨behind, same.symm⟩
      rw [decode, ih] <;> rintro behind rfl rfl
      · exact absent ("&lt;", "<") (by simp [entityTable]) rfl
      · exact absent ("&gt;", ">") (by simp [entityTable]) rfl
      · exact absent ("&quot;", "\"") (by simp [entityTable]) rfl
      · exact absent ("&#39;", "'") (by simp [entityTable]) rfl
      · exact absent ("&amp;", "&") (by simp [entityTable]) rfl

/-- Entities that are replaced in turn, each in the whole text, are read. -/
theorem replaceEntities_eq (text : String) : replaceEntities text = decodeText text.toList := by
  unfold replaceEntities
  split
  case isTrue =>
    rw [decodeText, decode_of_replaces (entityTable_orderly.replaces_foldl text), entityTable]
    simp
  case isFalse none =>
    have free : '&' ∉ text.toList := by simpa using none
    have kept := Replaces.keep_of_free entityTable_orderly.marked free .nil
    rw [List.append_nil] at kept
    rw [decodeText, decode_of_replaces kept, String.ofList_toList]

/-- A text that was escaped is read as what it was, and so it is when its entities are replaced in
turn: none of the replacements makes up an entity for a later one or takes one away. -/
theorem reading_undoes_escaping (inAttribute : Bool) (text : String) :
    decodeText (escape inAttribute text) = text ∧
      replaceEntities (String.ofList (escape inAttribute text)) = text := by
  have read := decodeText_escape inAttribute text
  refine ⟨read, ?_⟩
  rw [replaceEntities_eq, String.toList_ofList, read]

/-- What looks like an entity is escaped once more and read once. -/
example : escape true "&quot;" = "&amp;quot;".toList ∧ decodeText "&amp;quot;".toList = "&quot;" :=
  ⟨rfl, rfl⟩

end Piece

end LiveMarkup
