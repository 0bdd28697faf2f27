import LiveMarkup.Proofs.Document.Reprint

/-!
# Inline style in markup

Texts and the values of attributes are escaped when an element is printed; its inline style is not.
The declarations stand between quotes as they are, and reading replaces the entities among them.  So
what is printed is read as the tree that was printed, with the style of each element as an attribute,
if no declaration has a quote in it; and the attribute says what the declarations say exactly if they
have no entity in them either.
-/

namespace LiveMarkup

namespace Piece

/-- The entities that reading replaces. -/
def entities : List (List Char) :=
  ["&lt;".toList, "&gt;".toList, "&quot;".toList, "&#39;".toList, "&amp;".toList]

theorem length_decode_le (text : List Char) : (decode text).length ≤ text.length := by
  fun_induction decode text <;> simp_all only [List.length_nil, List.length_cons] <;> omega

/-- A text that is read shorter than it is has been changed. -/
theorem decode_shorter {c : Char} {front rest : List Char} (length : 2 ≤ front.length) :
    c :: decode rest ≠ front ++ rest := by
  intro same
  have short := length_decode_le rest
  have lengths := congrArg List.length same
  rw [List.length_cons, List.length_append] at lengths
  omega

/-- Reading leaves a text as it is exactly if no entity stands in it. -/
theorem decode_eq_self_iff (text : List Char) :
    decode text = text ↔ ∀ entity ∈ entities, ¬entity <:+: text := by
  have front {c : Char} {entity rest : List Char} (known : entity ∈ entities)
      (length : 2 ≤ entity.length) : c :: decode rest = entity ++ rest ↔
        ∀ other ∈ entities, ¬other <:+: entity ++ rest :=
    ⟨fun same => absurd same (decode_shorter length),
      fun none => absurd (List.prefix_append entity rest).isInfix (none entity known)⟩
  have less : "&lt;".toList ∈ entities := by simp [entities]
  have greater : "&gt;".toList ∈ entities := by simp [entities]
  have double : "&quot;".toList ∈ entities := by simp [entities]
  have single : "&#39;".toList ∈ entities := by simp [entities]
  have amp : "&amp;".toList ∈ entities := by simp [entities]
  fun_induction decode text with
  | case1 => simp [entities]
  | case2 rest ih => exact front less (by simp)
  | case3 rest ih => exact front greater (by simp)
  | case4 rest ih => exact front double (by simp)
  | case5 rest ih => exact front single (by simp)
  | case6 rest ih => exact front amp (by simp)
  | case7 c rest noLess noGreater noDouble noSingle noAmp ih =>
      have here : ∀ entity ∈ entities, ¬entity <+: c :: rest := by
        simp only [entities, List.forall_mem_cons, List.not_mem_nil, false_imp_iff, implies_true,
          and_true]
        refine ⟨?_, ?_, ?_, ?_, ?_⟩ <;> rintro ⟨tail, same⟩ <;> cases same
        exacts [noLess tail rfl rfl, noGreater tail rfl rfl, noDouble tail rfl rfl,
          noSingle tail rfl rfl, noAmp tail rfl rfl]
      have later : c :: decode rest = c :: rest ↔ decode rest = rest := by simp
      refine later.trans (ih.trans (forall₂_congr fun entity known => not_congr ?_))
      rw [List.infix_cons_iff, or_iff_right (here entity known)]

end Piece

open Piece (decode decodeText TagName Distinct Writes)

namespace Tree

/-- The declarations of an inline style as they are printed. -/
def declarations (style : Assoc String String) : List Char :=
  ("; ".intercalate (style.entries.map fun (property, value) => property ++ ": " ++ value)).toList

theorem renderStyle_of_empty {style : Assoc String String} (empty : style.entries = []) :
    renderStyle style = [] := by
  rw [renderStyle, empty]

theorem renderStyle_of_present {style : Assoc String String} (present : style.entries ≠ []) :
    renderStyle style =
      ' ' :: ("style".toList ++ '=' :: '"' :: (declarations style ++ ['"'])) := by
  unfold renderStyle
  split
  case h_1 empty => exact absurd empty present
  case h_2 => rfl

/-- Whether a tree is a text. -/
def IsText : Tree → Prop
  | text _ => True
  | element _ _ _ _ => False

/-- Whether a tree can be told from its markup, but for its inline style: its tags and the names of
its attributes are ones that are read, an element without a closing tag has no children, and its
texts are not blank and not next to each other. -/
inductive Presentable : Tree → Prop
  | text {content : String} (filled : isBlankText content.toList = false) :
      Presentable (.text content)
  | element {tag : String} {attributes style : Assoc String String} {children : List Tree}
      (named : TagName tag) (distinct : Distinct attributes) (void : isVoid tag = true → children = [])
      (apart : children.IsChain fun left right => ¬(left.IsText ∧ right.IsText))
      (below : ∀ child ∈ children, Presentable child) :
      Presentable (.element tag attributes style children)

/-- Whether something holds of all inline styles in a tree that are not empty. -/
inductive EachStyle (holds : Assoc String String → Prop) : Tree → Prop
  | text {content : String} : EachStyle holds (.text content)
  | element {tag : String} {attributes style : Assoc String String} {children : List Tree}
      (here : style.entries ≠ [] → holds style) (below : ∀ child ∈ children, EachStyle holds child) :
      EachStyle holds (.element tag attributes style children)

section WithStyles

variable (value : Assoc String String → String)

/-- Attributes with one more for an inline style that is not empty. -/
def withStyle (attributes style : Assoc String String) : Assoc String String :=
  if style.entries = [] then attributes else attributes.insert "style" (value style)

mutual

/-- A tree with inline styles turned into attributes. -/
def withStyles : Tree → Tree
  | .text content => .text content
  | .element tag attributes style children =>
      .element tag (withStyle value attributes style) Assoc.empty (withStylesAll children)

/-- Trees with inline styles turned into attributes. -/
def withStylesAll : List Tree → List Tree
  | [] => []
  | tree :: rest => tree.withStyles :: withStylesAll rest

end

theorem withStylesAll_eq_map (trees : List Tree) :
    withStylesAll value trees = trees.map (withStyles value) := by
  induction trees with
  | nil => rfl
  | cons tree rest ih => rw [withStylesAll, ih, List.map_cons]

theorem isText_withStyles (tree : Tree) : (tree.withStyles value).IsText ↔ tree.IsText := by
  cases tree <;> simp [withStyles, IsText]

end WithStyles

/-- Two ways to turn styles into attributes differ at a style that they give different values. -/
theorem withStyle_eq_iff {value other : Assoc String String → String}
    (attributes style : Assoc String String) :
    withStyle value attributes style = withStyle other attributes style ↔
      (style.entries ≠ [] → value style = other style) := by
  unfold withStyle
  split
  case isTrue empty => simp [empty]
  case isFalse present =>
    refine ⟨fun same _ => ?_, fun same => by rw [same present]⟩
    have read := congrArg (Assoc.get? · "style") same
    simpa [Assoc.get?, Assoc.insert, Assoc.lookup_put] using read

mutual

theorem withStyles_eq_iff {value other : Assoc String String → String} : (tree : Tree) →
    (tree.withStyles value = tree.withStyles other ↔
      tree.EachStyle fun style => value style = other style)
  | .text _ => ⟨fun _ => .text, fun _ => rfl⟩
  | .element tag attributes style children => by
      rw [withStyles, withStyles, Tree.element.injEq, withStyle_eq_iff, withStylesAll_eq_iff children]
      constructor
      · rintro ⟨-, here, -, below⟩
        exact .element here below
      · rintro (_ | ⟨here, below⟩)
        exact ⟨rfl, here, rfl, below⟩

theorem withStylesAll_eq_iff {value other : Assoc String String → String} : (trees : List Tree) →
    (withStylesAll value trees = withStylesAll other trees ↔
      ∀ tree ∈ trees, tree.EachStyle fun style => value style = other style)
  | [] => by simp [withStylesAll]
  | tree :: rest => by
      rw [withStylesAll, withStylesAll, List.cons.injEq, List.forall_mem_cons,
        withStyles_eq_iff tree, withStylesAll_eq_iff rest]

end

/-! ## What is printed for a tree -/

/-- The value that reading gives an inline style that was printed. -/
def readStyle (style : Assoc String String) : String := decodeText (declarations style)

mutual

/-- What is printed for a tree, piece by piece, and what each piece is read as. -/
def rows : Tree → List (List Char × Piece)
  | .text content => [(escape false content, .content content)]
  | .element tag attributes style children =>
      ('<' :: (tag.toList ++ (attributes.entries.flatMap renderAttribute ++
          (renderStyle style ++ Piece.ending false))),
        .opening tag (withStyle readStyle attributes style) false) ::
      if isVoid tag then [] else rowsAll children ++ [((Piece.closing tag).markup, .closing tag)]

/-- What is printed for a row of trees, piece by piece, and what each piece is read as. -/
def rowsAll : List Tree → List (List Char × Piece)
  | [] => []
  | tree :: rest => tree.rows ++ rowsAll rest

end

mutual

theorem flatMap_rows : (tree : Tree) → tree.rows.flatMap Prod.fst = tree.render
  | .text content => by simp [rows, render]
  | .element tag attributes style children => by
      simp only [rows, render, List.flatMap_cons]
      split
      · simp [Piece.ending]
      · simp [Piece.ending, Piece.markup, flatMap_rowsAll children]

theorem flatMap_rowsAll : (trees : List Tree) → (rowsAll trees).flatMap Prod.fst = renderAll trees
  | [] => rfl
  | tree :: rest => by
      rw [rowsAll, List.flatMap_append, flatMap_rows tree, flatMap_rowsAll rest, renderAll]

end

mutual

theorem map_rows : (tree : Tree) → tree.rows.map Prod.snd = (tree.withStyles readStyle).pieces
  | .text content => rfl
  | .element tag attributes style children => by
      simp only [rows, withStyles, pieces, List.map_cons]
      split
      · rfl
      · rw [List.map_append, map_rowsAll children, List.map_singleton]

theorem map_rowsAll : (trees : List Tree) →
    (rowsAll trees).map Prod.snd = piecesAll (withStylesAll readStyle trees)
  | [] => rfl
  | tree :: rest => by
      rw [rowsAll, List.map_append, map_rows tree, map_rowsAll rest, withStylesAll, piecesAll]

end

/-! ## Reading it -/

theorem inAttributeName_style : ∀ c ∈ "style".toList, Piece.inAttributeName c = true :=
  List.all_eq_true.mp (by decide)

theorem distinct_withStyle {attributes : Assoc String String} (distinct : Distinct attributes)
    (value : Assoc String String → String) (style : Assoc String String) :
    Distinct (withStyle value attributes style) := by
  unfold withStyle
  split
  · exact distinct
  · exact distinct.insert (by simp) inAttributeName_style

theorem stops_renderStyle (style : Assoc String String) (rest : List Char) :
    Stops Piece.inTagName (renderStyle style ++ (Piece.ending false ++ rest)) := by
  by_cases empty : style.entries = []
  · rw [renderStyle_of_empty empty]
    exact Piece.stops_ending false rest
  · rw [renderStyle_of_present empty, List.cons_append]
    exact stops_cons.mpr (by decide)

/-- An inline style is read as an attribute that stands behind the others. -/
theorem readAttributes_renderStyle (attributes : Assoc String String) {style : Assoc String String}
    (unquoted : style.entries ≠ [] → '"' ∉ declarations style) (fuel : Nat) (rest : List Char) :
    Piece.readAttributes attributes (fuel + 2) (renderStyle style ++ (Piece.ending false ++ rest)) =
      .ok (withStyle readStyle attributes style, false, rest) := by
  unfold withStyle
  split
  case isTrue empty =>
    rw [renderStyle_of_empty empty]
    exact Piece.readAttributes_ending attributes _ false rest
  case isFalse present =>
    have text : renderStyle style ++ (Piece.ending false ++ rest) =
        ' ' :: ("style".toList ++ '=' :: '"' ::
          (declarations style ++ '"' :: (Piece.ending false ++ rest))) := by
      simp [renderStyle_of_present present]
    rw [text, Piece.readAttributes_quoted attributes _ (by simp) inAttributeName_style
      (unquoted present)]
    exact Piece.readAttributes_ending _ _ false rest

/-- An opening tag with an inline style is read with one more attribute. -/
theorem writes_opening {tag : String} (named : TagName tag) {attributes : Assoc String String}
    (distinct : Distinct attributes) {style : Assoc String String}
    (unquoted : style.entries ≠ [] → '"' ∉ declarations style) :
    Writes ('<' :: (tag.toList ++ (attributes.entries.flatMap renderAttribute ++
        (renderStyle style ++ Piece.ending false))))
      (.opening tag (withStyle readStyle attributes style) false) where
  present := by simp
  marked rest _ := by simp
  read rest _ := by
    let behind := renderStyle style ++ (Piece.ending false ++ rest)
    have text : '<' :: (tag.toList ++ (attributes.entries.flatMap renderAttribute ++
        (renderStyle style ++ Piece.ending false))) ++ rest =
        '<' :: (tag.toList ++ (attributes.entries.flatMap renderAttribute ++ behind)) := by
      simp [behind]
    have length : 1 ≤ behind.length := by
      simp only [behind, Piece.ending, List.length_append, Bool.false_eq_true, if_false,
        List.length_singleton]
      omega
    rw [text]
    refine Piece.readOne_opening named (Piece.readOpening_of_attributes named distinct
      (stops_renderStyle style rest) fun fuel => ?_)
    obtain ⟨less, enough⟩ : ∃ less, fuel + behind.length + 1 = less + 2 :=
      ⟨fuel + behind.length - 1, by omega⟩
    rw [enough]
    exact readAttributes_renderStyle attributes unquoted less rest

mutual

theorem writes_of_mem_rows : (tree : Tree) → tree.Presentable →
    tree.EachStyle (fun style => '"' ∉ declarations style) →
    ∀ row ∈ tree.rows, Writes row.1 row.2
  | .text content, presentable, _ => by
      cases presentable with
      | text filled =>
          have words : (Piece.content content).Readable := filled
          rw [rows, List.forall_mem_singleton]
          exact Piece.writes_markup words
  | .element tag attributes style children, presentable, unquoted => by
      cases presentable with
      | element named distinct void apart below =>
      cases unquoted with
      | element here inside =>
          have closes : (Piece.closing tag).Readable := named
          rw [rows, List.forall_mem_cons]
          refine ⟨writes_opening named distinct here, ?_⟩
          split
          · simp
          · rw [List.forall_mem_append, List.forall_mem_singleton]
            exact ⟨writes_of_mem_rowsAll children below inside, Piece.writes_markup closes⟩

theorem writes_of_mem_rowsAll : (trees : List Tree) → (∀ tree ∈ trees, tree.Presentable) →
    (∀ tree ∈ trees, tree.EachStyle fun style => '"' ∉ declarations style) →
    ∀ row ∈ rowsAll trees, Writes row.1 row.2
  | [], _, _ => by simp [rowsAll]
  | tree :: rest, presentable, unquoted => by
      rw [List.forall_mem_cons] at presentable unquoted
      rw [rowsAll, List.forall_mem_append]
      exact ⟨writes_of_mem_rows tree presentable.1 unquoted.1,
        writes_of_mem_rowsAll rest presentable.2 unquoted.2⟩

end

/-- What a presentable tree is read as can be read again. -/
theorem Presentable.readable_withStyles (value : Assoc String String → String) {tree : Tree}
    (presentable : tree.Presentable) : (tree.withStyles value).Readable := by
  induction presentable with
  | text filled => exact .text filled
  | @element tag attributes style children named distinct void apart below ih =>
      refine .element named (distinct_withStyle distinct value style) (fun isVoid => ?_) ?_
      · rw [void isVoid]
        rfl
      · rw [withStylesAll_eq_map]
        exact List.forall_mem_map.mpr ih

/-- Joining neighbouring texts changes nothing where there are none. -/
theorem joinedAll_of_apart {trees : List Tree} (same : ∀ tree ∈ trees, tree.joined = tree)
    (apart : trees.IsChain fun left right => ¬(left.IsText ∧ right.IsText)) :
    joinedAll trees = trees := by
  induction trees with
  | nil => rfl
  | cons tree rest ih =>
      rw [List.forall_mem_cons] at same
      rw [joinedAll, same.1, ih same.2 apart.tail]
      unfold joinFront
      split
      · exact ((List.isChain_cons_cons.mp apart).1 ⟨trivial, trivial⟩).elim
      · rfl

theorem Presentable.joined_withStyles (value : Assoc String String → String) {tree : Tree}
    (presentable : tree.Presentable) : (tree.withStyles value).joined = tree.withStyles value := by
  induction presentable with
  | text filled => rfl
  | @element tag attributes style children named distinct void apart below ih =>
      rw [withStyles, joined, withStylesAll_eq_map]
      rw [joinedAll_of_apart (List.forall_mem_map.mpr ih)]
      refine (List.isChain_map _).mpr (apart.imp fun left right other => ?_)
      rwa [isText_withStyles, isText_withStyles]

/-- What is printed for a presentable tree without quotes in its inline styles is read as the tree,
with its inline styles as attributes. -/
theorem parse_render {tree : Tree} (presentable : tree.Presentable)
    (unquoted : tree.EachStyle fun style => '"' ∉ declarations style) :
    parse (String.ofList tree.render) = .ok [tree.withStyles readStyle] := by
  have readable := presentable.readable_withStyles readStyle
  have apart : (tree.withStyles readStyle).pieces.IsChain Piece.Apart := by
    have chain := isChain_joinedAll [tree.withStyles readStyle]
    have alone : joinedAll [tree.withStyles readStyle] = [tree.withStyles readStyle] := by
      rw [joinedAll, presentable.joined_withStyles]
      cases tree <;> rfl
    rwa [alone, piecesAll, piecesAll, List.append_nil] at chain
  have read := Piece.ofText_rows (writes_of_mem_rows tree presentable unquoted)
    ((map_rows tree).symm ▸ apart)
  rw [flatMap_rows, map_rows] at read
  rw [parse, String.toList_ofList, read]
  dsimp only
  rw [ofPieces, foldlM_pieces _ readable]
  rfl

end Tree

namespace Dom

open LiveMarkup.Tree (declarations readStyle)

variable {ℓ : Type}

/-- What is printed for an element is read as its tree with inline styles as attributes, if no quote
stands in a style; then the attributes say what the styles say if and only if no entity stands in
them either. -/
theorem outerMarkup_read {dom : Dom ℓ} {id : ElementId} (presentable : (dom.tree id).Presentable)
    (unquoted : (dom.tree id).EachStyle fun style => '"' ∉ declarations style) :
    Tree.parse (dom.outerMarkup id) = .ok [(dom.tree id).withStyles readStyle] ∧
      (Tree.parse (dom.outerMarkup id) =
          .ok [(dom.tree id).withStyles fun style => String.ofList (declarations style)] ↔
        (dom.tree id).EachStyle fun style =>
          ∀ entity ∈ Piece.entities, ¬entity <:+: declarations style) := by
  have read := Tree.parse_render presentable unquoted
  refine ⟨read, ?_⟩
  have literal (style : Assoc String String) :
      readStyle style = String.ofList (declarations style) ↔
        ∀ entity ∈ Piece.entities, ¬entity <:+: declarations style := by
    rw [readStyle, decodeText, String.ofList_inj, Piece.decode_eq_self_iff]
  change Tree.parse (String.ofList (dom.tree id).render) = _ ↔ _
  rw [read]
  simp only [Except.ok.injEq, List.cons.injEq, and_true, Tree.withStyles_eq_iff, literal]

/-- A paragraph with a title, a color and a text. -/
def paragraph (color : String) : Dom Unit :=
  ((((Dom.empty.add (Element.bare "p")).2.setAttribute ⟨0⟩ "title" "\"a\" & b").setStyle ⟨0⟩
    "color" color).append ⟨0⟩ (.text "1 < 2"))

theorem tree_paragraph (color : String) :
    (paragraph color).tree ⟨0⟩ = .element "p" ⟨[("title", "\"a\" & b")]⟩ ⟨[("color", color)]⟩
      [.text "1 < 2"] := rfl

theorem presentable_paragraph (color : String) : ((paragraph color).tree ⟨0⟩).Presentable := by
  rw [tree_paragraph]
  have named : Piece.TagName "p" := by
    refine ⟨by simp, ?_, ?_⟩ <;>
    · intro c member
      obtain rfl := List.mem_singleton.mp member
      rfl
  have distinct : Piece.Distinct ⟨[("title", "\"a\" & b")]⟩ := by
    refine ⟨?_, ?_, by simp [Assoc.keys]⟩
    · intro name member
      obtain rfl := List.mem_singleton.mp member
      simp
    · intro name member
      obtain rfl := List.mem_singleton.mp member
      exact List.all_eq_true.mp (by decide)
  refine .element named distinct (by decide) (.singleton _) fun child member => ?_
  obtain rfl := List.mem_singleton.mp member
  exact .text rfl

theorem red_paragraph_read :
    (paragraph "red").outerMarkup ⟨0⟩ =
        "<p title=\"&quot;a&quot; &amp; b\" style=\"color: red\">1 &lt; 2</p>" ∧
      Tree.parse ((paragraph "red").outerMarkup ⟨0⟩) =
        .ok [((paragraph "red").tree ⟨0⟩).withStyles readStyle] ∧
      ((paragraph "red").tree ⟨0⟩).withStyles readStyle =
        .element "p" ⟨[("title", "\"a\" & b"), ("style", "color: red")]⟩ Assoc.empty
          [.text "1 < 2"] := by
  refine ⟨rfl, (outerMarkup_read (presentable_paragraph "red") ?_).1, rfl⟩
  refine .element (fun _ => by decide) fun child member => ?_
  obtain rfl := List.mem_singleton.mp member
  exact .text

/-- A color with a quote in it ends the style and begins an attribute of its own. -/
theorem quoted_style_is_broken :
    (paragraph "red\" id=\"x").tree ⟨0⟩ =
        .element "p" ⟨[("title", "\"a\" & b")]⟩ ⟨[("color", "red\" id=\"x")]⟩ [.text "1 < 2"] ∧
      ((paragraph "red\" id=\"x").tree ⟨0⟩).Presentable ∧
      Tree.parse ((paragraph "red\" id=\"x").outerMarkup ⟨0⟩) = .ok [
        .element "p" ⟨[("title", "\"a\" & b"), ("style", "color: red"), ("id", "x")]⟩ Assoc.empty
          [.text "1 < 2"]] ∧
      Tree.parse ((paragraph "red\" id=\"x").outerMarkup ⟨0⟩) ≠
        .ok [((paragraph "red\" id=\"x").tree ⟨0⟩).withStyles fun style =>
          String.ofList (declarations style)] := by
  have read : Tree.parse ((paragraph "red\" id=\"x").outerMarkup ⟨0⟩) = .ok [
      .element "p" ⟨[("title", "\"a\" & b"), ("style", "color: red"), ("id", "x")]⟩ Assoc.empty
        [.text "1 < 2"]] := rfl
  refine ⟨tree_paragraph _, presentable_paragraph _, read, ?_⟩
  rw [read, tree_paragraph]
  simp [Tree.withStyles, Tree.withStyle, Assoc.insert, Assoc.put]

end Dom

end LiveMarkup
