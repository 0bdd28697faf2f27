import LiveMarkup.Document.Reader
import LiveMarkup.Proofs.Document.Layout
import LiveMarkup.Proofs.Document.Markup

/-!
# Printing a document and reading it again

A document that was read from markup is printed and read again.  A comment or a blank text may have
stood between two texts; in print they stand next to each other and are read as one.  So the tree
that is read is the first one with neighbouring texts joined, and printing it once more gives the
same markup.
-/

namespace LiveMarkup

namespace Tree

/-! ## Neighbouring texts -/

/-- A row of trees with one more in front; two texts that would be neighbours become one. -/
def joinFront : Tree → List Tree → List Tree
  | .text first, .text second :: rest => .text (first ++ second) :: rest
  | tree, rest => tree :: rest

mutual

/-- A tree with neighbouring texts joined everywhere below it. -/
def joined : Tree → Tree
  | .text content => .text content
  | .element tag attributes style children => .element tag attributes style (joinedAll children)

/-- A row of trees with neighbouring texts joined, in the row and everywhere below it. -/
def joinedAll : List Tree → List Tree
  | [] => []
  | tree :: rest => joinFront tree.joined (joinedAll rest)

end

/-! ## The pieces of a tree -/

mutual

/-- The pieces that the markup of a tree has. -/
def pieces : Tree → List Piece
  | .text content => [.content content]
  | .element tag attributes _ children =>
      .opening tag attributes false ::
        if isVoid tag then [] else piecesAll children ++ [.closing tag]

/-- The pieces that the markup of a row of trees has. -/
def piecesAll : List Tree → List Piece
  | [] => []
  | tree :: rest => tree.pieces ++ piecesAll rest

end

/-- Whether a tree can have been read: its pieces can, it has no inline style apart from its
attributes, and an element without a closing tag has no children. -/
inductive Readable : Tree → Prop
  | text {content : String} (filled : (Piece.content content).Readable) :
      Readable (.text content)
  | element {tag : String} {attributes : Assoc String String} {children : List Tree}
      (named : Piece.TagName tag) (distinct : Piece.Distinct attributes)
      (void : isVoid tag = true → children = []) (below : ∀ child ∈ children, Readable child) :
      Readable (.element tag attributes Assoc.empty children)

mutual

theorem flatMap_markup_pieces : (tree : Tree) → tree.Readable →
    tree.pieces.flatMap Piece.markup = tree.render
  | .text content, _ => by simp [pieces, Piece.markup, render]
  | .element tag attributes _ children, readable => by
      cases readable with
      | element named distinct void below =>
          have inner := flatMap_markup_piecesAll children below
          simp only [pieces, render, List.flatMap_cons, Piece.markup]
          split
          · simp [Piece.ending, renderStyle, Assoc.empty]
          · simp [Piece.ending, renderStyle, Assoc.empty, inner, Piece.markup]

theorem flatMap_markup_piecesAll : (trees : List Tree) → (∀ tree ∈ trees, tree.Readable) →
    (piecesAll trees).flatMap Piece.markup = renderAll trees
  | [], _ => rfl
  | tree :: rest, readable => by
      rw [List.forall_mem_cons] at readable
      rw [piecesAll, List.flatMap_append, flatMap_markup_pieces tree readable.1,
        flatMap_markup_piecesAll rest readable.2, renderAll]

end

/-! ## Trees with joined texts -/

theorem renderAll_joinFront (tree : Tree) (rest : List Tree) :
    renderAll (joinFront tree rest) = tree.render ++ renderAll rest := by
  unfold joinFront
  split
  · simp [renderAll, render, escape]
  · rfl

mutual

/-- Joining texts does not change the markup. -/
theorem render_joined : (tree : Tree) → tree.joined.render = tree.render
  | .text _ => rfl
  | .element _ _ _ children => by
      simp only [joined, render, renderAll_joinedAll children]

theorem renderAll_joinedAll : (trees : List Tree) → renderAll (joinedAll trees) = renderAll trees
  | [] => rfl
  | tree :: rest => by
      rw [joinedAll, renderAll_joinFront, render_joined tree, renderAll_joinedAll rest, renderAll]

end

theorem Readable.joinFront {tree : Tree} {rest : List Tree} (first : tree.Readable)
    (later : ∀ other ∈ rest, other.Readable) :
    ∀ other ∈ joinFront tree rest, other.Readable := by
  intro other member
  unfold Tree.joinFront at member
  split at member
  case h_1 =>
    rw [List.forall_mem_cons] at later
    rcases List.mem_cons.mp member with rfl | old
    · cases first with
      | text filled =>
          refine .text ?_
          rw [Piece.Readable, isBlankText] at filled ⊢
          rw [String.toList_append, List.all_append, filled, Bool.false_and]
    · exact later.2 other old
  case h_2 =>
    rcases List.mem_cons.mp member with rfl | old
    · exact first
    · exact later other old

mutual

theorem Readable.joined : {tree : Tree} → tree.Readable → tree.joined.Readable
  | _, .text filled => .text filled
  | _, .element named distinct void below => by
      refine .element named distinct (fun isVoid => ?_) (Readable.joinedAll below)
      rw [void isVoid]
      rfl

theorem Readable.joinedAll : {trees : List Tree} → (∀ tree ∈ trees, tree.Readable) →
    ∀ tree ∈ joinedAll trees, tree.Readable
  | [], _ => by simp [Tree.joinedAll]
  | tree :: rest, readable => by
      rw [List.forall_mem_cons] at readable
      rw [Tree.joinedAll]
      exact (Readable.joined readable.1).joinFront (Readable.joinedAll readable.2)

end

mutual

theorem readable_of_mem_pieces : (tree : Tree) → tree.Readable →
    ∀ piece ∈ tree.pieces, piece.Readable
  | .text content, readable => by
      cases readable with
      | text filled => simpa [pieces] using filled
  | .element tag attributes _ children, readable => by
      cases readable with
      | element named distinct void below =>
          have inner := readable_of_mem_piecesAll children below
          rw [pieces, List.forall_mem_cons]
          refine ⟨⟨named, distinct⟩, ?_⟩
          split
          · simp
          · rw [List.forall_mem_append, List.forall_mem_singleton]
            exact ⟨inner, named⟩

theorem readable_of_mem_piecesAll : (trees : List Tree) → (∀ tree ∈ trees, tree.Readable) →
    ∀ piece ∈ piecesAll trees, piece.Readable
  | [], _ => by simp [piecesAll]
  | tree :: rest, readable => by
      rw [List.forall_mem_cons] at readable
      rw [piecesAll, List.forall_mem_append]
      exact ⟨readable_of_mem_pieces tree readable.1, readable_of_mem_piecesAll rest readable.2⟩

end

/-! ## No two texts in a row -/

theorem isChain_element {tag : String} {attributes style : Assoc String String}
    {children : List Tree} {later : List Piece} (below : (piecesAll children).IsChain Piece.Apart)
    (behind : later.IsChain Piece.Apart) :
    ((element tag attributes style children).pieces ++ later).IsChain Piece.Apart := by
  have opens (other : Piece) : (Piece.opening tag attributes false).Apart other := by
    cases other <;> trivial
  have closes (other : Piece) : (Piece.closing tag).Apart other := by
    cases other <;> trivial
  rw [pieces, List.cons_append]
  refine List.IsChain.cons ?_ fun other _ => opens other
  split
  · exact behind
  · rw [List.append_assoc]
    refine below.append (behind.cons fun other _ => closes other) fun last _ other first => ?_
    rw [List.singleton_append, List.head?_cons, Option.mem_some] at first
    subst first
    cases last <;> trivial

mutual

theorem isChain_joinFront : (tree : Tree) → (rest : List Tree) →
    (piecesAll rest).IsChain Piece.Apart →
    (piecesAll (joinFront tree.joined rest)).IsChain Piece.Apart
  | .text _, [], _ => .singleton _
  | .text _, .text _ :: rest, later => by
      refine later.tail.cons fun other first => ?_
      have apart := later.rel_head? first
      cases other with
      | content text => exact apart
      | opening | closing => trivial
  | .text _, .element _ _ _ _ :: _, later => later.cons_cons trivial
  | .element _ _ _ children, _, later => isChain_element (isChain_joinedAll children) later

/-- The pieces of trees with joined texts have no two texts in a row. -/
theorem isChain_joinedAll : (trees : List Tree) →
    (piecesAll (joinedAll trees)).IsChain Piece.Apart
  | [] => .nil
  | tree :: rest => isChain_joinFront tree (joinedAll rest) (isChain_joinedAll rest)

end

/-! ## Building trees from their pieces -/

theorem foldl_attach_unclosed (trees : List Tree) (inner : Unclosed) (outer : List Unclosed)
    (finished : List Tree) :
    trees.foldl Building.attach ⟨inner :: outer, finished⟩ =
      ⟨{ inner with children := trees.reverse ++ inner.children } :: outer, finished⟩ := by
  induction trees generalizing inner with
  | nil => rfl
  | cons tree rest ih =>
      rw [List.foldl_cons, Building.attach, ih]
      simp

theorem foldl_attach_finished (trees finished : List Tree) :
    trees.foldl Building.attach ⟨[], finished⟩ = ⟨[], trees.reverse ++ finished⟩ := by
  induction trees generalizing finished with
  | nil => rfl
  | cons tree rest ih =>
      rw [List.foldl_cons, Building.attach, ih]
      simp

theorem take_closing (inner : Unclosed) (outer : List Unclosed) (finished : List Tree) :
    Building.take ⟨inner :: outer, finished⟩ (.closing inner.tag) =
      .ok (Building.attach ⟨outer, finished⟩ inner.close) :=
  if_pos rfl

mutual

/-- Taking in the pieces of a tree adds the tree at the innermost place. -/
theorem foldlM_pieces : (tree : Tree) → tree.Readable → (building : Building) →
    tree.pieces.foldlM Building.take building = .ok (building.attach tree)
  | .text _, _, _ => rfl
  | .element tag attributes _ children, readable, building => by
      cases readable with
      | element named distinct void below =>
          rw [pieces, List.foldlM_cons, Building.take, Bool.false_or]
          split
          case isTrue isVoid =>
            rw [void isVoid]
            rfl
          case isFalse =>
            change (piecesAll children ++ [Piece.closing tag]).foldlM Building.take
              ⟨⟨tag, attributes, []⟩ :: building.unclosed, building.finished⟩ = _
            rw [List.foldlM_append, foldlM_piecesAll children below, foldl_attach_unclosed,
              List.append_nil]
            have closes := take_closing ⟨tag, attributes, children.reverse⟩ building.unclosed
              building.finished
            rw [Unclosed.close, List.reverse_reverse] at closes
            change (Building.take _ (.closing tag) >>= pure) = _
            dsimp only at closes ⊢
            rw [closes]
            rfl

theorem foldlM_piecesAll : (trees : List Tree) → (∀ tree ∈ trees, tree.Readable) →
    (building : Building) →
    (piecesAll trees).foldlM Building.take building = .ok (trees.foldl Building.attach building)
  | [], _, _ => rfl
  | tree :: rest, readable, building => by
      rw [List.forall_mem_cons] at readable
      rw [piecesAll, List.foldlM_append, foldlM_pieces tree readable.1]
      exact foldlM_piecesAll rest readable.2 (building.attach tree)

end

/-- The markup of trees without neighbouring texts is read as those trees. -/
theorem parse_renderAll {trees : List Tree} (readable : ∀ tree ∈ trees, tree.Readable)
    (apart : (piecesAll trees).IsChain Piece.Apart) :
    parse (String.ofList (renderAll trees)) = .ok trees := by
  have text := Piece.ofText_written (readable_of_mem_piecesAll trees readable) apart
  rw [flatMap_markup_piecesAll trees readable] at text
  rw [parse, String.toList_ofList, text]
  dsimp only
  rw [ofPieces, foldlM_piecesAll trees readable, foldl_attach_finished, List.append_nil]
  simp [bind, Except.bind]

/-! ## Everything that is read can have been printed -/

/-- Whether an open element can have been read so far. -/
structure Unclosed.Readable (unclosed : Unclosed) : Prop where
  /-- Its name is one that tags have. -/
  named : Piece.TagName unclosed.tag
  /-- Its attributes can stand together in a tag. -/
  distinct : Piece.Distinct unclosed.attributes
  /-- A closing tag is to come. -/
  solid : ¬isVoid unclosed.tag = true
  /-- Its children so far can have been read. -/
  below : ∀ tree ∈ unclosed.children, tree.Readable

/-- Whether trees under construction can have been read so far. -/
structure Building.Readable (building : Building) : Prop where
  /-- The open elements can. -/
  unclosed : ∀ inner ∈ building.unclosed, inner.Readable
  /-- The trees outside all of them can. -/
  finished : ∀ tree ∈ building.finished, tree.Readable

theorem Unclosed.Readable.close {unclosed : Unclosed} (readable : unclosed.Readable) :
    unclosed.close.Readable := by
  refine .element readable.named readable.distinct (fun isVoid => ?_) fun child member => ?_
  · exact absurd isVoid readable.solid
  · exact readable.below child (List.mem_reverse.mp member)

theorem Building.Readable.attach {building : Building} (readable : building.Readable) {tree : Tree}
    (fits : tree.Readable) : (building.attach tree).Readable := by
  obtain ⟨unclosed, finished⟩ := building
  cases unclosed with
  | nil => exact ⟨readable.unclosed, List.forall_mem_cons.mpr ⟨fits, readable.finished⟩⟩
  | cons inner outer =>
      obtain ⟨innermost, around⟩ := List.forall_mem_cons.mp readable.unclosed
      refine ⟨List.forall_mem_cons.mpr ⟨?_, around⟩, readable.finished⟩
      exact ⟨innermost.named, innermost.distinct, innermost.solid,
        List.forall_mem_cons.mpr ⟨fits, innermost.below⟩⟩

/-- One more piece that was read keeps what was built readable. -/
theorem Building.Readable.take {building next : Building} (readable : building.Readable)
    {piece : Piece} (fits : piece.Readable) (takes : building.take piece = .ok next) :
    next.Readable := by
  cases piece with
  | content words =>
      cases takes
      exact readable.attach (.text fits)
  | opening tag attributes closed =>
      obtain ⟨named, distinct⟩ := fits
      rw [Building.take] at takes
      split at takes
      case isTrue =>
        cases takes
        exact readable.attach (.element named distinct (fun _ => rfl) (by simp))
      case isFalse solid =>
        cases takes
        have fresh : (⟨tag, attributes, []⟩ : Unclosed).Readable :=
          ⟨named, distinct, fun isVoid => solid (by simp [isVoid]), by simp⟩
        exact ⟨List.forall_mem_cons.mpr ⟨fresh, readable.unclosed⟩, readable.finished⟩
  | closing tag =>
      obtain ⟨unclosed, finished⟩ := building
      cases unclosed with
      | nil => contradiction
      | cons inner outer =>
          obtain ⟨innermost, around⟩ := List.forall_mem_cons.mp readable.unclosed
          simp only [Building.take] at takes
          split at takes
          case isTrue =>
            cases takes
            have outside : Building.Readable ⟨outer, finished⟩ := ⟨around, readable.finished⟩
            exact outside.attach innermost.close
          case isFalse => contradiction

theorem Building.Readable.foldlM {pieces : List Piece} (fits : ∀ piece ∈ pieces, piece.Readable)
    {building last : Building} (readable : building.Readable)
    (takes : pieces.foldlM Building.take building = .ok last) : last.Readable := by
  induction pieces generalizing building with
  | nil =>
      cases takes
      exact readable
  | cons piece pieces ih =>
      rw [List.forall_mem_cons] at fits
      rw [List.foldlM_cons] at takes
      rcases next : building.take piece with fault | between
      · rw [next] at takes
        contradiction
      · rw [next] at takes
        exact ih fits.2 (readable.take fits.1 next) takes

theorem readable_of_ofPieces {pieces : List Piece} (fits : ∀ piece ∈ pieces, piece.Readable)
    {fault : Option MarkupFault} {trees : List Tree}
    (accepted : ofPieces pieces fault = .ok trees) : ∀ tree ∈ trees, tree.Readable := by
  rw [ofPieces] at accepted
  rcases built : pieces.foldlM Building.take ⟨[], []⟩ with fault | building
  · rw [built] at accepted
    contradiction
  · have readable : building.Readable := Building.Readable.foldlM fits ⟨by simp, by simp⟩ built
    rw [built] at accepted
    simp only [bind, Except.bind] at accepted
    split at accepted
    · contradiction
    · contradiction
    · cases accepted
      exact fun tree member => readable.finished tree (List.mem_reverse.mp member)

/-- Trees that were read from markup can be printed and read again. -/
theorem readable_of_parse {source : String} {trees : List Tree}
    (accepted : parse source = .ok trees) : ∀ tree ∈ trees, tree.Readable :=
  readable_of_ofPieces Piece.readable_of_ofTextFrom accepted

/-- Printed trees are read as the trees with neighbouring texts joined. -/
theorem parse_renderAll_joined {trees : List Tree} (readable : ∀ tree ∈ trees, tree.Readable) :
    parse (String.ofList (renderAll trees)) = .ok (joinedAll trees) := by
  rw [← renderAll_joinedAll]
  exact parse_renderAll (Readable.joinedAll readable) (isChain_joinedAll trees)

theorem renderAll_eq (trees : List Tree) : renderAll trees = trees.flatMap render := by
  induction trees with
  | nil => rfl
  | cons tree rest ih => rw [renderAll, List.flatMap_cons, ih]

end Tree

namespace Dom

variable {ℓ : Type}

/-- Reads markup as a document of its own. -/
def read (source : String) : Except MarkupFault (ElementId × Dom ℓ) :=
  (Tree.parse source).map Dom.empty.newDocument

/-- A new document shows the trees that it was made of. -/
theorem newDocument_shows (trees : List Tree) :
    ((Dom.empty : Dom ℓ).newDocument trees).2.tree ⟨0⟩ =
        .element "body" Assoc.empty Assoc.empty trees ∧
      ((Dom.empty : Dom ℓ).newDocument trees).2.innerMarkup ⟨0⟩ =
        String.ofList (Tree.renderAll trees) := by
  let body : Dom ℓ := ((Dom.empty : Dom ℓ).add (Element.bare "body")).2
  let document : Dom ℓ := buildAll ⟨0⟩ body trees
  have size : body.size = 1 := size_add _ _
  have alone (id : ElementId) : (body.face id).children = [] := by
    rw [face, element_add]
    split <;> rfl
  have builds : body.BuildsAll document ⟨0⟩ trees :=
    buildAll_builds trees ⟨0⟩ body (by rw [size]; exact Nat.one_pos)
  have stands := builds.stands
  have all := builds.size
  have root : document.face ⟨0⟩ = ⟨"body", Assoc.empty, Assoc.empty, Tree.rowAt 1 trees⟩ := by
    rw [builds.here, alone, size]
    rfl
  rw [size] at stands all
  have enough := Tree.heightAll_le_countAll trees
  constructor
  · change document.treeWithin document.size ⟨0⟩ = _
    rw [all, Nat.add_comm, treeWithin_succ, root,
      map_childWithin_of_stands trees 1 _ stands enough]
  · have inner : (Tree.rowAt 1 trees).map document.childTree = trees := by
      refine Eq.trans (List.map_congr_left fun child _ => ?_)
        (map_childWithin_of_stands trees 1 document.size stands (by omega))
      cases child <;> rfl
    have row : (document.element ⟨0⟩).children = Tree.rowAt 1 trees := congrArg Face.children root
    change String.ofList ((document.element ⟨0⟩).children.flatMap fun child =>
      (document.childTree child).render) = _
    rw [row, Tree.renderAll_eq, ← List.flatMap_map, inner]

/-- What was read from markup is printed and read again: the markup is accepted, the tree is the
first one with neighbouring texts joined, and it is printed as the first one was. -/
theorem read_print_read {source : String} {root : ElementId} {dom : Dom ℓ}
    (accepted : read source = .ok (root, dom)) :
    ∃ again : Dom ℓ, read (dom.innerMarkup root) = .ok (root, again) ∧
      again.tree root = (dom.tree root).joined ∧ again.innerMarkup root = dom.innerMarkup root := by
  rcases parsed : Tree.parse source with fault | trees
  · rw [read, parsed] at accepted
    contradiction
  · rw [read, parsed] at accepted
    cases accepted
    have readable := Tree.readable_of_parse parsed
    obtain ⟨shown, printed⟩ := newDocument_shows (ℓ := ℓ) trees
    obtain ⟨shownAgain, printedAgain⟩ := newDocument_shows (ℓ := ℓ) (Tree.joinedAll trees)
    refine ⟨((Dom.empty : Dom ℓ).newDocument (Tree.joinedAll trees)).2, ?_, ?_, ?_⟩
    · change read (((Dom.empty : Dom ℓ).newDocument trees).2.innerMarkup ⟨0⟩) = _
      rw [printed, read, Tree.parse_renderAll_joined readable]
      rfl
    · refine shownAgain.trans ?_
      change _ = (((Dom.empty : Dom ℓ).newDocument trees).2.tree ⟨0⟩).joined
      rw [shown, Tree.joined]
    · refine printedAgain.trans ?_
      rw [Tree.renderAll_joinedAll]
      exact printed.symm

/-- Markup with a comment between two texts, entities in a text and in a value, a repeated
attribute and one without a value, a void element and one that closes itself. -/
def noted : String := "<P a=1 b A='&quot;' a=2>x &lt;<!-- note -->y<br/> <i/></P>"

/-- The trees that it is. -/
def notedTrees : List Tree := [
  .element "p" ⟨[("a", "2"), ("b", ""), ("A", "\"")]⟩ Assoc.empty [
    .text "x <", .text "y", .element "br" Assoc.empty Assoc.empty [],
    .element "i" Assoc.empty Assoc.empty []]]

theorem noted_print_read : read noted = .ok ((Dom.empty : Dom Unit).newDocument notedTrees) ∧
    ∃ again : Dom Unit,
      read "<p a=\"2\" b=\"\" A=\"&quot;\">x &lt;y<br><i></i></p>" = .ok (⟨0⟩, again) ∧
        again.tree ⟨0⟩ = (((Dom.empty : Dom Unit).newDocument notedTrees).2.tree ⟨0⟩).joined ∧
        again.innerMarkup ⟨0⟩ = "<p a=\"2\" b=\"\" A=\"&quot;\">x &lt;y<br><i></i></p>" := by
  have parsed : Tree.parse noted = .ok notedTrees := by rfl
  have accepted : read noted = .ok ((Dom.empty : Dom Unit).newDocument notedTrees) := by
    rw [read, parsed]
    rfl
  have printed : ((Dom.empty : Dom Unit).newDocument notedTrees).2.innerMarkup ⟨0⟩ =
      "<p a=\"2\" b=\"\" A=\"&quot;\">x &lt;y<br><i></i></p>" := by
    rw [(newDocument_shows notedTrees).2]
    rfl
  refine ⟨accepted, ?_⟩
  rw [← printed]
  exact read_print_read accepted

end Dom

end LiveMarkup
