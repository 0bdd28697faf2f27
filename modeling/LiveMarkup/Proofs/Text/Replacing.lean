import Mathlib.Data.List.Basic
import Mathlib.Data.List.Induction

/-!
# Replacing patterns in a text

A text in which patterns are replaced is read once, from the left: where a pattern stands, its
replacement takes its place and reading goes on behind it, and any other character is kept.
Replacing one pattern after another, each in the whole text that the one before has left, comes to
the same as long as a replacement neither completes a later pattern nor stands inside of one.
-/

namespace LiveMarkup

/-- One text is the other with each pattern of a table replaced, in one reading from the left. -/
inductive Replaces (table : List (String × String)) : List Char → List Char → Prop
  | nil : Replaces table [] []
  | found {row : String × String} {rest out : List Char} (known : row ∈ table)
      (later : Replaces table rest out) :
      Replaces table (row.1.toList ++ rest) (row.2.toList ++ out)
  | kept {c : Char} {rest out : List Char} (free : ∀ row ∈ table, ¬row.1.toList <+: c :: rest)
      (later : Replaces table rest out) : Replaces table (c :: rest) (c :: out)

namespace Replaces

variable {table : List (String × String)} {rest out : List Char}

/-- A front is kept if no pattern begins in it. -/
theorem keep {front : List Char}
    (free : ∀ before c behind, front = before ++ c :: behind →
      ∀ row ∈ table, ¬row.1.toList <+: c :: (behind ++ rest))
    (later : Replaces table rest out) : Replaces table (front ++ rest) (front ++ out) := by
  induction front with
  | nil => exact later
  | cons c front ih =>
      refine .kept (free [] c front rfl) (ih fun before d behind same => ?_)
      exact free (c :: before) d behind (by rw [same, List.cons_append])

theorem of_empty (text : List Char) : Replaces [] text text := by
  induction text with
  | nil => exact .nil
  | cons c text ih => exact .kept (by simp) ih

end Replaces

/-! ## Replacing one pattern -/

section OnePattern

open String.Slice.Pattern (SearchStep)
open String.Slice.Pattern.Model (IsValidSearchFrom MatchesAt)
open String.Slice.Pattern.Model.ForwardStringSearcher (lawfulToForwardSearcherModel
  isLongestMatchAt_iff_splits matchesAt_iff_splits)

variable {pattern : String} {slice : String.Slice}

/-- What a text grows by in one step of a search. -/
def replacement (new : String) : SearchStep slice → String
  | .matched _ _ => new
  | .rejected start stop => (slice.slice! start stop).copy

theorem replace_eq_foldl (text pattern new : String) :
    text.replace pattern new =
      (String.Slice.Pattern.ToForwardSearcher.toSearcher pattern text.toSlice).toList.foldl
        (fun sofar step => sofar ++ replacement new step) "" := by
  unfold String.replace String.Slice.replace
  rw [← Std.Iter.foldl_toList]
  congr 1
  funext sofar step
  cases step with
  | rejected start stop => rfl
  | matched start stop => exact congrArg (sofar ++ ·) String.copy_toSlice

/-- A pattern that a text goes on with is found there. -/
theorem matchesAt_of_begins {pos : slice.Pos} {front behind : String}
    (splits : pos.Splits front behind) (begins : pattern.toList <+: behind.toList) :
    MatchesAt pattern pos := by
  obtain ⟨tail, same⟩ := begins
  have written : behind = pattern ++ String.ofList tail := by
    rw [← String.toList_inj, String.toList_append, String.toList_ofList, same]
  exact matchesAt_iff_splits.mpr ⟨front, _, written ▸ splits⟩

theorem copy_slice!_of_splits {start stop : slice.Pos} {front piece behind : String}
    (before : start.Splits front (piece ++ behind)) (after : stop.Splits (front ++ piece) behind) :
    (slice.slice! start stop).copy = piece := by
  obtain ⟨ordered, same⟩ :=
    String.Slice.copy_slice_eq_iff_splits.mpr ⟨front, behind, before, after⟩
  rw [← String.Slice.slice_eq_slice! (h := ordered), same]

/-- No match begins in a stretch that a search has rejected. -/
theorem not_prefix_of_rejected {start stop : slice.Pos} {front piece behind : String}
    (before : start.Splits front (piece ++ behind)) (after : stop.Splits (front ++ piece) behind)
    (free : ∀ pos, start ≤ pos → pos < stop → ¬MatchesAt pattern pos) {c : Char}
    {passed ahead : List Char} (same : piece.toList = passed ++ c :: ahead) :
    ¬pattern.toList <+: c :: (ahead ++ behind.toList) := by
  intro begins
  have cut : piece = String.ofList passed ++ String.ofList (c :: ahead) := by
    rw [← String.toList_inj, same]
    simp
  have whole : slice.copy =
      (front ++ String.ofList passed) ++ (String.ofList (c :: ahead) ++ behind) := by
    rw [before.eq_append, cut]
    simp [String.append_assoc]
  have here := String.Slice.Pos.splits_ofEqAppend whole
  refine free _ ?_ ?_ (matchesAt_of_begins here (by simpa using begins))
  · refine (before.le_iff_exists_eq_append here).mpr ⟨String.ofList passed, rfl, ?_⟩
    rw [cut, String.append_assoc]
  · refine (here.lt_iff_exists_eq_append after).mpr ⟨String.ofList (c :: ahead), by simp, ?_, rfl⟩
    rw [cut, String.append_assoc]

/-- The steps of a search from a position on replace the pattern in what stands behind it. -/
theorem foldl_replacement (new : String) {pos : slice.Pos} {steps : List (SearchStep slice)}
    (valid : IsValidSearchFrom pattern pos steps) {front behind : String}
    (splits : pos.Splits front behind) (sofar : String) :
    ∃ out, steps.foldl (fun sofar step => sofar ++ replacement new step) sofar = sofar ++ out ∧
      Replaces [(pattern, new)] behind.toList out.toList := by
  induction valid generalizing front behind sofar with
  | endPos =>
      obtain ⟨-, rfl⟩ := String.Slice.splits_endPos_iff.mp splits
      exact ⟨"", by simp, .nil⟩
  | matched found _ ih =>
      obtain ⟨_, rest, before, after⟩ := isLongestMatchAt_iff_splits.mp found
      obtain rfl := splits.eq_right before
      obtain ⟨out, same, later⟩ := ih after (sofar ++ new)
      refine ⟨new ++ out, ?_, ?_⟩
      · rw [List.foldl_cons, replacement, same, String.append_assoc]
      · rw [String.toList_append, String.toList_append]
        exact .found (List.mem_singleton_self (pattern, new)) later
  | @mismatched _ start stop before free _ ih =>
      have after := stop.splits
      obtain ⟨piece, -, passed, rfl⟩ := (splits.lt_iff_exists_eq_append after).mp before
      rw [passed] at after
      obtain ⟨out, same, later⟩ := ih after (sofar ++ piece)
      refine ⟨piece ++ out, ?_, ?_⟩
      · rw [List.foldl_cons, replacement, copy_slice!_of_splits splits after, same,
          String.append_assoc]
      · rw [String.toList_append, String.toList_append]
        refine Replaces.keep (fun passed c ahead cut row known => ?_) later
        obtain rfl := List.mem_singleton.mp known
        exact not_prefix_of_rejected splits after free cut

theorem replaces_replace (present : pattern ≠ "") (text new : String) :
    Replaces [(pattern, new)] text.toList (text.replace pattern new).toList := by
  have valid := (lawfulToForwardSearcherModel present).isValidSearchFrom_toList text.toSlice
  obtain ⟨out, same, replaces⟩ := foldl_replacement new valid text.toSlice.splits_startPos ""
  rw [replace_eq_foldl, same]
  simpa using replaces

end OnePattern

/-! ## Replacing patterns in turn -/

/-- Whether a pattern begins with a mark that stands nowhere else in it. -/
def Marked (mark : Char) (pattern : String) : Prop :=
  ∃ tail, pattern.toList = mark :: tail ∧ mark ∉ tail

/-- Whether the patterns of a table can be replaced in turn: they are marked, no replacement is
empty, and none has a character of a pattern whose turn comes later. -/
structure Orderly (mark : Char) (table : List (String × String)) : Prop where
  marked : ∀ row ∈ table, Marked mark row.1
  filled : ∀ row ∈ table, row.2 ≠ ""
  apart : table.Pairwise fun earlier later => ∀ c ∈ earlier.2.toList, c ∉ later.1.toList

theorem Marked.ne_empty {mark : Char} {pattern : String} (marked : Marked mark pattern) :
    pattern ≠ "" := by
  obtain ⟨tail, begins, -⟩ := marked
  rintro rfl
  cases begins

namespace Replaces

variable {mark : Char} {table : List (String × String)} {front rest out : List Char}

theorem eq_nil (marked : ∀ row ∈ table, Marked mark row.1) (replaces : Replaces table [] out) :
    out = [] := by
  generalize same : ([] : List Char) = raw at replaces
  cases replaces with
  | nil => rfl
  | kept => cases same
  | found known _ =>
      obtain ⟨tail, begins, -⟩ := marked _ known
      rw [begins] at same
      cases same

/-- A character that is no mark is kept. -/
theorem cons_of_ne (marked : ∀ row ∈ table, Marked mark row.1) {c : Char} (other : c ≠ mark)
    (replaces : Replaces table (c :: rest) out) :
    ∃ later, out = c :: later ∧ Replaces table rest later := by
  generalize same : c :: rest = raw at replaces
  cases replaces with
  | nil => cases same
  | kept _ later =>
      cases same
      exact ⟨_, rfl, later⟩
  | found known _ =>
      obtain ⟨tail, begins, -⟩ := marked _ known
      rw [begins, List.cons_append, List.cons.injEq] at same
      exact absurd same.1 other

theorem keep_of_free (marked : ∀ row ∈ table, Marked mark row.1) (free : mark ∉ front)
    (later : Replaces table rest out) : Replaces table (front ++ rest) (front ++ out) := by
  refine keep (fun before c ahead same row known begins => free ?_) later
  obtain ⟨tail, written, -⟩ := marked row known
  rw [written] at begins
  rw [(List.cons_prefix_cons.mp begins).1, same]
  exact List.mem_append_right before List.mem_cons_self

/-- A front without the mark is kept, and what is behind it is read on its own. -/
theorem append_iff (marked : ∀ row ∈ table, Marked mark row.1) (free : mark ∉ front) :
    Replaces table (front ++ rest) out ↔
      ∃ later, out = front ++ later ∧ Replaces table rest later := by
  constructor
  · intro replaces
    induction front generalizing out with
    | nil => exact ⟨out, rfl, replaces⟩
    | cons c front ih =>
        rw [List.mem_cons, not_or] at free
        obtain ⟨_, rfl, behind⟩ := replaces.cons_of_ne marked (Ne.symm free.1)
        obtain ⟨later, rfl, last⟩ := ih free.2 behind
        exact ⟨later, rfl, last⟩
  · rintro ⟨later, rfl, replaces⟩
    exact keep_of_free marked free replaces

/-- A front of what was read stood in the text if no replacement has a character of it. -/
theorem exists_append (filled : ∀ row ∈ table, row.2 ≠ "")
    (foreign : ∀ row ∈ table, ∀ c ∈ row.2.toList, c ∉ front)
    (replaces : Replaces table rest (front ++ out)) :
    ∃ behind, rest = front ++ behind ∧ Replaces table behind out := by
  induction front generalizing rest with
  | nil => exact ⟨rest, rfl, replaces⟩
  | cons c front ih =>
      generalize same : c :: front ++ out = text at replaces
      cases replaces with
      | nil => cases same
      | kept _ later =>
          cases same
          have foreign : ∀ row ∈ table, ∀ c ∈ row.2.toList, c ∉ front := fun row known d member =>
            fun inside => foreign row known d member (List.mem_cons_of_mem c inside)
          obtain ⟨behind, rfl, last⟩ := ih foreign later
          exact ⟨behind, rfl, last⟩
      | @found row _ _ known _ =>
          obtain ⟨d, tail, written⟩ :=
            List.exists_cons_of_ne_nil (mt String.toList_eq_nil_iff.mp (filled row known))
          rw [written, List.cons_append, List.cons_append, List.cons.injEq] at same
          have member : c ∈ row.2.toList := by rw [written, same.1]; exact List.mem_cons_self
          exact absurd List.mem_cons_self (foreign row known c member)

/-- Replacing one more pattern in what was read is reading with one more row. -/
theorem step {row : String × String} {raw text : List Char}
    (marked : ∀ other ∈ table ++ [row], Marked mark other.1)
    (filled : ∀ other ∈ table, other.2 ≠ "")
    (apart : ∀ other ∈ table, ∀ c ∈ other.2.toList, c ∉ row.1.toList)
    (first : Replaces table raw text) (second : Replaces [row] text out) :
    Replaces (table ++ [row]) raw out := by
  have markedTable : ∀ other ∈ table, Marked mark other.1 := fun other known =>
    marked other (List.mem_append_left _ known)
  obtain ⟨tail, written, plain⟩ : Marked mark row.1 := marked row (by simp)
  have markedRow : ∀ other ∈ [row], Marked mark other.1 := fun other known =>
    marked other (List.mem_append_right _ known)
  induction first generalizing out with
  | nil =>
      obtain rfl := second.eq_nil markedRow
      exact .nil
  | @found other rest text known _ ih =>
      -- A replacement has no mark, so the second reading keeps it.
      have free : mark ∉ other.2.toList := fun member =>
        apart other known mark member (written ▸ List.mem_cons_self)
      obtain ⟨later, rfl, behind⟩ := (append_iff markedRow free).mp second
      exact .found (List.mem_append_left _ known) (ih behind)
  | @kept c rest text free first ih =>
      have foreign : ∀ other ∈ table, ∀ c ∈ other.2.toList, c ∉ tail := fun other known c member =>
        fun inside => apart other known c member (written ▸ List.mem_cons_of_mem mark inside)
      generalize same : c :: text = read at second
      cases second with
      | nil => cases same
      | found known later =>
          obtain rfl := List.mem_singleton.mp known
          rw [written, List.cons_append, List.cons.injEq] at same
          obtain ⟨rfl, rfl⟩ := same
          -- The pattern stood in the text before: no replacement has made up a part of it.
          obtain ⟨behind, rfl, -⟩ := first.exists_append filled foreign
          have whole := ih (keep_of_free markedRow plain later)
          obtain ⟨_, same, last⟩ := (append_iff marked plain).mp whole
          obtain rfl := List.append_cancel_left same
          rw [← List.cons_append, ← written]
          exact .found (List.mem_append_right table known) last
      | kept unmatched later =>
          cases same
          refine .kept (fun other known begins => ?_) (ih later)
          rcases List.mem_append.mp known with earlier | last
          · exact free other earlier begins
          · -- A pattern that stood in the text before would have stood in what was read.
            obtain rfl := List.mem_singleton.mp last
            rw [written] at begins
            obtain ⟨rfl, behind, rfl⟩ := List.cons_prefix_cons.mp begins
            obtain ⟨after, rfl, -⟩ := (append_iff markedTable plain).mp first
            refine unmatched other last ?_
            rw [written]
            exact List.cons_prefix_cons.mpr ⟨rfl, List.prefix_append tail after⟩

end Replaces

/-- Patterns that are replaced in turn, each in the whole text, are replaced in one reading. -/
theorem Orderly.replaces_foldl {mark : Char} {table : List (String × String)}
    (orderly : Orderly mark table) (text : String) :
    Replaces table text.toList
      (table.foldl (fun text row => text.replace row.1 row.2) text).toList := by
  induction table using List.reverseRecOn with
  | nil => exact .of_empty text.toList
  | append_singleton table row ih =>
      obtain ⟨marked, filled, apart⟩ := orderly
      rw [List.pairwise_append] at apart
      have last : row ∈ table ++ [row] := by simp
      have first : Orderly mark table :=
        ⟨fun other known => marked other (List.mem_append_left _ known),
          fun other known => filled other (List.mem_append_left _ known), apart.1⟩
      rw [List.foldl_append, List.foldl_cons, List.foldl_nil]
      refine Replaces.step marked first.filled ?_ (ih first) ?_
      · exact fun other known => apart.2.2 other known row List.mem_cons_self
      · exact replaces_replace (marked row last).ne_empty _ row.2

end LiveMarkup
