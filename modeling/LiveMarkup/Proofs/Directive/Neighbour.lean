import LiveMarkup.Proofs.Directive.Likeness
import LiveMarkup.Proofs.Document.Path

/-!
# What stands next to each other

Whatever is rendered has a share in what is rendered behind it only through the containers that it has
made, and these nobody else sees.  So if a tree inside of another one is replaced, everything else
becomes what it became before, and reports the same faults.
-/

namespace LiveMarkup

variable {floor heap other : Heap} {known : TrackerId → Prop} {setting : Setting} {data : ContainerId}
  {bindings : Bindings} {α β : Type}

/-! ## Trees without an attribute -/

namespace Tree

variable {binder : Binder} {name : String} {tree : Tree}

theorem Plain.withoutAttribute (plain : tree.Plain binder) :
    (tree.withoutAttribute name).Plain binder := by
  cases tree with
  | text content => exact plain
  | element tag attributes style children =>
      refine ⟨fun directive listed => plain.1 directive ?_, plain.2⟩
      obtain ⟨entry, kept, read⟩ := List.mem_filterMap.mp listed
      exact List.mem_filterMap.mpr ⟨entry, List.mem_of_mem_filter kept, read⟩

theorem declares_withoutAttribute (undeclared : tree.declares binder = false) :
    (tree.withoutAttribute name).declares binder = false := by
  cases tree with
  | text content => exact undeclared
  | element tag attributes style children =>
      refine Bool.eq_false_iff.mpr fun declared => ?_
      obtain ⟨entry, kept, same⟩ := List.mem_map.mp ((Assoc.contains_iff _ _).mp declared)
      refine Bool.eq_false_iff.mp undeclared ((Assoc.contains_iff attributes _).mpr ?_)
      exact List.mem_map.mpr ⟨entry, List.mem_of_mem_filter kept, same⟩

/-- What is true of a tree stays true if it stays true of the changed part. -/
theorem Plain.modifyAt {change : Tree → Tree}
    (keeps : ∀ {tree : Tree}, tree.Plain binder → (change tree).Plain binder) {path : List Nat}
    (plain : tree.Plain binder) : (tree.modifyAt change path).Plain binder := by
  induction path generalizing tree with
  | nil => exact keeps plain
  | cons index path ih =>
      cases tree with
      | text content => exact plain
      | element tag attributes style children =>
          refine ⟨plain.1, ?_⟩
          replace plain := plain.2
          change PlainAll binder (children.modify index (Tree.modifyAt change path))
          induction children generalizing index with
          | nil =>
              rw [List.modify_nil]
              exact plain
          | cons child rest later =>
              cases index with
              | zero => exact ⟨ih plain.1, plain.2⟩
              | succ index => exact ⟨plain.1, later index plain.2⟩

theorem declares_modifyAt {path : List Nat} (undeclared : tree.declares binder = false) :
    (tree.modifyAt (withoutAttribute name) path).declares binder = false := by
  cases path with
  | nil => exact declares_withoutAttribute undeclared
  | cons index path => cases tree <;> exact undeclared

end Tree

/-! ## Heaps in which something was made -/

/-- What is the same for everything that is rendered: a heap to start from, with the data and the
bindings in it. -/
structure Setting.Grounds (setting : Setting) (floor : Heap) (data : ContainerId)
    (bindings : Bindings) : Prop where
  /-- Everything refers to what is there. -/
  grounded : ∃ known, floor.Grounded known
  /-- The setting is about the data. -/
  suits : setting.Suits (floor.realm setting.binder.tracker) .same data
  /-- The bindings lie in the heap. -/
  holds : ∀ entry ∈ bindings.entries, (floor.realm setting.binder.tracker).Holds floor entry.2

/-- Whether something becomes the same in a heap and in every counterpart in which the data and the
bindings are the same. -/
def Render.Steady (setting : Setting) (floor : Heap) (data : ContainerId) (bindings : Bindings)
    (good : α → Prop) (render : Render α) : Prop :=
  ∀ ⦃ρ : Renaming⦄ ⦃heap other : Heap⦄,
    setting.Suits (floor.realm setting.binder.tracker) ρ data → ρ.bindings bindings = bindings →
    (floor.realm setting.binder.tracker).Around ρ heap other bindings →
    Render.Alike (floor.realm setting.binder.tracker) ρ heap other good render render

namespace Render.Steady

variable {good : α → Prop} {goodNext : β → Prop} {render : Render α} {next : α → Render β}

theorem bind (steady : Steady setting floor data bindings good render)
    (later : ∀ a, good a → Steady setting floor data bindings goodNext (next a)) :
    Steady setting floor data bindings goodNext (render >>= next) :=
  fun _ _ _ suits same around => (steady suits same around).bind
    fun a _ _ grows growsThere holds => later a holds suits same (around.mono grows growsThere)

section Grounds

variable (grounds : setting.Grounds floor data bindings)
  (supplies : (floor.realm setting.binder.tracker).Supplies floor heap [])

include grounds supplies

/-- Only containers are made, and the result is good. -/
theorem supplies_good (steady : Steady setting floor data bindings good render) :
    (floor.realm setting.binder.tracker).Supplies heap (render heap).heap [] ∧
      good (render heap).result := by
  have holds : ∀ entry ∈ bindings.entries, (floor.realm setting.binder.tracker).Holds heap entry.2 :=
    fun entry listed => Reach.Holds.mono (grounds.holds entry listed) supplies.grows
  have alike := steady grounds.suits (Renaming.same_bindings bindings) (.same holds) heap heap (.refl _)
    (.refl _) ⟨.refl heap, supplies.calm, supplies.calm⟩
  exact ⟨alike.supplies, alike.good⟩

/-- After more containers were made, the same comes out. -/
theorem rebase (steady : Steady setting floor data bindings good render)
    (more : (floor.realm setting.binder.tracker).Supplies heap other []) :
    (render other).result = (render heap).result ∧ (render other).faults = (render heap).faults := by
  obtain ⟨known, grounded⟩ := grounds.grounded
  have fixed {value : Value} (holds : (floor.realm setting.binder.tracker).Holds floor value) :
      (Renaming.shift heap other).value value = value := by
    refine more.shift_value fun id same => ?_
    exact Nat.lt_of_lt_of_le ((holds id same).elim And.left And.right) supplies.grows.size_le
  have same : (Renaming.shift heap other).bindings bindings = bindings :=
    Renaming.bindings_of_fixed _ fun entry listed => fixed (grounds.holds entry listed)
  have data : (Renaming.shift heap other).container data = data := by
    have lies : (floor.realm setting.binder.tracker).Holds floor (.container data) :=
      Value.in_container.mpr (.inl grounds.suits.held)
    exact Value.container.inj (fixed lies)
  have holds : ∀ entry ∈ bindings.entries, (floor.realm setting.binder.tracker).Holds heap entry.2 :=
    fun entry listed => Reach.Holds.mono (grounds.holds entry listed) supplies.grows
  have alike := steady ⟨grounds.suits.tracker, grounds.suits.scope, grounds.suits.held, data⟩ same
    ⟨holds, same.symm ▸ fun entry listed => Reach.Holds.mono (holds entry listed) more.grows⟩
    heap other (.refl _) (.refl _) ⟨supplies.mirrors grounded more, supplies.calm, more.calm⟩
  exact ⟨alike.result, alike.faults⟩

end Grounds

end Render.Steady

namespace Setting

section Steady

variable (depth room : Nat)

theorem renderWithin_steady {tree : Tree} (plain : tree.Plain setting.binder) :
    Render.Steady setting floor data bindings (Tree.Plain setting.binder)
      (setting.renderWithin depth room bindings tree) := by
  intro ρ heap other suits same around
  have alike := renderWithin_likewise suits depth room around plain
  rw [same] at alike
  exact alike

theorem renderRow_steady {trees : List Tree} (plain : Tree.PlainAll setting.binder trees) :
    Render.Steady setting floor data bindings (Tree.PlainAll setting.binder)
      (setting.renderRow (setting.renderWithin depth room bindings) trees) := by
  intro ρ heap other suits same around
  have alike := renderRow_alike (renderWithin_likewise suits depth room) around plain
  rw [same] at alike
  exact alike

theorem renderDirectives_steady {attributes : List (String × String)}
    (plain : setting.binder.Plain attributes) (look : Look) (descent : Descent)
    (good : Tree.PlainAll setting.binder look.children) :
    Render.Steady setting floor data bindings
      (fun served => Tree.PlainAll setting.binder served.1.children)
      (setting.renderDirectives (setting.renderWithin depth (room - 1)) room bindings look descent
        attributes) := by
  intro ρ heap other suits same around
  have alike := renderDirectives_alike suits (renderWithin_likewise suits depth (room - 1)) room plain
    around look descent good
  rw [same] at alike
  exact alike

theorem renderDirective_steady {directive : Directive}
    (plain : directive.kind.slot? ≠ none → ∀ demand, directive.demand? = .ok demand →
      demand.2.isPlain = true) {look : Look} (good : Tree.PlainAll setting.binder look.children) :
    Render.Steady setting floor data bindings
      (fun served => Tree.PlainAll setting.binder served.1.children)
      (setting.renderDirective (setting.renderWithin depth (room - 1)) room bindings look directive) := by
  intro ρ heap other suits same around
  have alike := renderDirective_alike suits (renderWithin_likewise suits depth (room - 1)) room plain
    around good
  rw [same] at alike
  exact alike

theorem renderBelow_steady (tag : String) {attributes : Assoc String String}
    (plain : setting.binder.Plain attributes.entries) (served : Look × Descent)
    (good : Tree.PlainAll setting.binder served.1.children) :
    Render.Steady setting floor data bindings (Tree.Plain setting.binder)
      (setting.renderBelow (setting.renderWithin depth room bindings) tag attributes served) := by
  intro ρ heap other suits same around
  have alike := renderBelow_alike (renderWithin_likewise suits depth room) tag plain around good
  rw [same] at alike
  exact alike

end Steady

/-! ## Children that are spared -/

variable {copy : Bindings → Tree → Render Tree} {room : Nat} {style : Assoc String String}

/-- Whether something that is done to an element leaves its children, or puts a text in their place,
whatever they are. -/
def Spares (attend : Look → Render (Look × Descent)) (style : Assoc String String) (heap : Heap) :
    Prop :=
  ∃ (styleAfter : Assoc String String) (text : Option String) (heapAfter : Heap) (faults : List Fault),
    ∀ children, attend ⟨style, children⟩ heap =
      ⟨(⟨styleAfter, text.elim children Tree.textRow⟩, .children), heapAfter, faults⟩

theorem renderEffect_spares (glance : Glance) (only : glance ≠ .items) (template : Tree)
    (name : String) (expr : Expr) (style : Assoc String String) (heap : Heap) :
    Spares (fun look => do
      let look ← setting.renderEffect copy room glance template name bindings expr look look
      return (look, .children)) style heap := by
  unfold Spares renderEffect
  by_cases full : room = 0
  · simp only [if_pos full]
    exact ⟨style, none, heap, [_], fun _ => rfl⟩
  · simp only [if_neg full, bind_assoc]
    cases seen : (glance.outcome setting.scope bindings expr heap).1 with
    | error fault =>
        refine ⟨style, none, (glance.outcome setting.scope bindings expr heap).2, [fault],
          fun children => ?_⟩
        rw [Render.bind_apply, Render.see_of_error seen]
        rfl
    | ok sight =>
        have glances := Glance.glance_of_outcome seen
        cases sight with
        | text content =>
            refine ⟨style, some content, (glance.outcome setting.scope bindings expr heap).2, [],
              fun children => ?_⟩
            rw [Render.bind_apply, Render.see_of_ok seen]
            rfl
        | truth holds =>
            refine ⟨style.insert "display" (if holds then "block" else "none"), none,
              (glance.outcome setting.scope bindings expr heap).2, [], fun children => ?_⟩
            rw [Render.bind_apply, Render.see_of_ok seen]
            rfl
        | items items => exact absurd glances.symm only

theorem renderDirective_spares {directive : Directive} {children : List Tree}
    (spared : (setting.renderDirective copy room bindings ⟨style, children⟩ directive heap).result.2 =
      .children) :
    Spares (fun look => setting.renderDirective copy room bindings look directive) style heap := by
  unfold renderDirective at spared ⊢
  cases setUp : directive.setUp? with
  | error fault =>
      simp only [setUp] at spared ⊢
      refine ⟨style, none, heap, [fault], fun children => ?_⟩
      have descent : Descent.afterFault directive.kind = .children := spared
      dsimp only
      rw [Render.bind_apply, descent]
      rfl
  | ok demand =>
      cases demand with
      | none => exact ⟨style, none, heap, [], fun _ => rfl⟩
      | some demand =>
          simp only [setUp] at spared ⊢
          cases kind : directive.kind with
          | text => exact renderEffect_spares .text (by decide) _ _ _ style heap
          | visible => exact renderEffect_spares .truth (by decide) _ _ _ style heap
          | repeated =>
              rw [kind] at spared
              cases children <;> exact nomatch spared
          | data => exact ⟨style, none, heap, [], fun _ => rfl⟩
          | on => exact ⟨style, none, heap, [], fun _ => rfl⟩
          | unknown => exact ⟨style, none, heap, [], fun _ => rfl⟩

/-- Directives that leave the children to be bound leave them as they are or put a text in their
place. -/
theorem renderDirectives_spares {attributes : List (String × String)} {children : List Tree}
    (spared : (setting.renderDirectives copy room bindings ⟨style, children⟩ .children attributes
      heap).result.2 = .children) :
    Spares (fun look => setting.renderDirectives copy room bindings look .children attributes) style
      heap := by
  induction attributes generalizing style children heap with
  | nil => exact ⟨style, none, heap, [], fun _ => rfl⟩
  | cons entry rest ih =>
      obtain ⟨name, value⟩ := entry
      simp only [renderDirectives] at spared ⊢
      cases found : Directive.ofAttribute? setting.binder.attributePrefix name value with
      | none =>
          simp only [found] at spared ⊢
          exact ih spared
      | some directive =>
          simp only [found] at spared ⊢
          obtain ⟨styleNow, text, heapNow, faults, first⟩ := renderDirective_spares
            (Descent.of_both (setting.descent_of_children spared))
          dsimp only at first
          rw [Render.bind_apply, first] at spared
          obtain ⟨styleAfter, later, heapAfter, more, rest⟩ := ih spared
          refine ⟨styleAfter, later.or text, heapAfter, faults ++ more, fun children => ?_⟩
          dsimp only [Descent.both] at rest ⊢
          rw [Render.bind_apply, first, rest]
          cases later <;> rfl

/-! ## The way to an element -/

/-- Whether rendering a tree comes to an element at the end of a path, and after which faults: the
directives above it leave the children to be bound, and it declares no data there. -/
inductive Comes (setting : Setting) (room : Nat) (bindings : Bindings) :
    Nat → Tree → Heap → List Nat → Nat → Tree → Heap → List Fault → Prop
  /-- The path is at its end. -/
  | here {depth : Nat} {tag : String} {attributes style : Assoc String String} {children : List Tree}
      {heap : Heap} :
      Comes setting room bindings depth (.element tag attributes style children) heap [] depth
        (.element tag attributes style children) heap []
  /-- The path goes on from a child, which is rendered after those before it. -/
  | child {depth rest : Nat} {tag : String} {attributes style styleNow : Assoc String String}
      {children earlier later : List Tree} {child target : Tree} {heap heapNow there : Heap}
      {faults before : List Fault} {path : List Nat}
      (served : setting.renderDirectives (setting.renderWithin depth (room - 1)) room bindings
        ⟨style, children⟩ .children attributes.entries heap =
          ⟨(⟨styleNow, earlier ++ child :: later⟩, .children), heapNow, faults⟩)
      (undeclared : child.declares setting.binder = false)
      (inside : Comes setting room bindings depth child (setting.renderRow
        (setting.renderWithin depth room bindings) earlier heapNow).heap path rest target there before) :
      Comes setting room bindings (depth + 1) (.element tag attributes style children) heap
        (earlier.length :: path) rest target there (faults ++ ((setting.renderRow
          (setting.renderWithin depth room bindings) earlier heapNow).faults ++ before))

/-- What becomes of an element in which a child stands between others. -/
theorem renderWithin_between {depth : Nat} (tag : String) {attributes styleNow : Assoc String String}
    {children earlier later : List Tree} {child : Tree} {heapNow : Heap} {faults : List Fault}
    (served : setting.renderDirectives (setting.renderWithin depth (room - 1)) room bindings
      ⟨style, children⟩ .children attributes.entries heap =
        ⟨(⟨styleNow, earlier ++ child :: later⟩, .children), heapNow, faults⟩)
    (undeclared : child.declares setting.binder = false) :
    let render := setting.renderWithin depth room bindings
    let first := setting.renderRow render earlier heapNow
    let between := render child first.heap
    let last := setting.renderRow render later between.heap
    setting.renderWithin (depth + 1) room bindings (.element tag attributes style children) heap =
      ⟨.element tag attributes styleNow (first.result ++ between.result :: last.result), last.heap,
        faults ++ (first.faults ++ (between.faults ++ last.faults))⟩ := by
  intro render first between last
  rw [renderWithin, Render.bind_apply, served]
  dsimp only [renderBelow]
  rw [renderRow_append, renderRow, renderChild, undeclared, if_neg Bool.false_ne_true]
  simp only [Render.bind_apply, Render.pure_apply, List.append_nil]
  rfl

/-- Before a child is rendered, only containers are made, and it and those behind it are plain. -/
theorem supplies_between (grounds : setting.Grounds floor data bindings)
    (supplies : (floor.realm setting.binder.tracker).Supplies floor heap []) {depth : Nat}
    {tag : String} {attributes styleNow : Assoc String String} {children earlier later : List Tree}
    {child : Tree} {heapNow : Heap} {faults : List Fault}
    (plain : (Tree.element tag attributes style children).Plain setting.binder)
    (served : setting.renderDirectives (setting.renderWithin depth (room - 1)) room bindings
      ⟨style, children⟩ .children attributes.entries heap =
        ⟨(⟨styleNow, earlier ++ child :: later⟩, .children), heapNow, faults⟩) :
    (floor.realm setting.binder.tracker).Supplies floor (setting.renderRow
        (setting.renderWithin depth room bindings) earlier heapNow).heap [] ∧
      child.Plain setting.binder ∧ Tree.PlainAll setting.binder later := by
  have attended := (renderDirectives_steady depth room plain.1 ⟨style, children⟩ .children
    plain.2).supplies_good grounds supplies
  rw [served] at attended
  obtain ⟨made, good⟩ := attended
  obtain ⟨plainEarlier, plainChild, plainLater⟩ := Tree.plainAll_append.mp good
  have row := (renderRow_steady depth room plainEarlier).supplies_good grounds (supplies.append made)
  exact ⟨(supplies.append made).append row.1, plainChild, plainLater⟩

section Replaced

variable {depth rest : Nat} {tree target : Tree} {there : Heap} {before : List Fault} {path : List Nat}

/-- One comes to elements only. -/
theorem Comes.ne_text (comes : setting.Comes room bindings depth tree heap path rest target there before)
    (content : String) : tree ≠ .text content := by
  cases comes <;> exact Tree.noConfusion

variable (grounds : setting.Grounds floor data bindings)
  (supplies : (floor.realm setting.binder.tracker).Supplies floor heap [])
  (plain : tree.Plain setting.binder)
  (comes : setting.Comes room bindings depth tree heap path rest target there before)

include grounds supplies plain comes

/-- On the way only containers are made. -/
theorem Comes.reached :
    (floor.realm setting.binder.tracker).Supplies floor there [] ∧ target.Plain setting.binder := by
  induction comes with
  | here => exact ⟨supplies, plain⟩
  | child served _ _ ih =>
      obtain ⟨grown, plainChild, -⟩ := supplies_between grounds supplies plain served
      exact ih grown plainChild

/-- If the element at the end of the path loses an attribute, nothing changes but what becomes of that
element, and the faults that are reported meanwhile. -/
theorem Comes.replaced (name : String) (tidy tidyOther : Tree → Tree)
    (agree : tidy (setting.renderWithin rest room bindings target there).result =
      tidyOther (setting.renderWithin rest room bindings (target.withoutAttribute name) there).result) :
    let render := setting.renderWithin depth room bindings
    let inside := setting.renderWithin rest room bindings
    let otherTree := tree.modifyAt (Tree.withoutAttribute name) path
    (render tree heap).result.modifyAt tidy path =
        (render otherTree heap).result.modifyAt tidyOther path ∧
      ∃ later, (render tree heap).faults = before ++ ((inside target there).faults ++ later) ∧
        (render otherTree heap).faults =
          before ++ ((inside (target.withoutAttribute name) there).faults ++ later) := by
  induction comes with
  | here => exact ⟨agree, [], by simp, by simp [Tree.modifyAt]⟩
  | @child depth rest tag attributes style styleNow children earlier later child target heap heapNow there
      faults before path served undeclared inside ih =>
      obtain ⟨grown, plainChild, plainLater⟩ := supplies_between grounds supplies plain served
      obtain ⟨same, behind, first, second⟩ := ih grown plainChild agree
      -- The children are those of the element: a text in their place would leave no element to come to.
      obtain ⟨styleAfter, text, heapAfter, more, spares⟩ := renderDirectives_spares
        (congrArg (fun rendered => rendered.result.2) served)
      dsimp only at spares
      have whole := (spares children).symm.trans served
      simp only [Rendered.mk.injEq, Prod.mk.injEq, Look.mk.injEq] at whole
      obtain ⟨⟨⟨rfl, row⟩, -⟩, rfl, rfl⟩ := whole
      cases text with
      | some text =>
          have row : Tree.textRow text = earlier ++ child :: later := row
          have listed : child ∈ Tree.textRow text := by
            rw [row]
            exact List.mem_append_right _ List.mem_cons_self
          exact absurd (Tree.mem_textRow listed) (inside.ne_text text)
      | none =>
          obtain rfl : children = earlier ++ child :: later := row
          let other := child.modifyAt (Tree.withoutAttribute name) path
          have plainOther : other.Plain setting.binder :=
            Tree.Plain.modifyAt Tree.Plain.withoutAttribute plainChild
          have here := renderWithin_between tag served undeclared
          have there := renderWithin_between tag (spares (earlier ++ other :: later))
            (Tree.declares_modifyAt undeclared)
          -- What stands behind the child is rendered in heaps that have grown from the same one.
          have steady : Render.Steady setting floor data bindings (Tree.PlainAll setting.binder)
              (setting.renderRow (setting.renderWithin depth room bindings) later) :=
            renderRow_steady depth room plainLater
          have rendered {child : Tree} (plain : child.Plain setting.binder) :=
            (show Render.Steady setting floor data bindings (Tree.Plain setting.binder)
              (setting.renderWithin depth room bindings child) from
                renderWithin_steady depth room plain).supplies_good grounds grown
          obtain ⟨sameResult, sameFaults⟩ := steady.rebase grounds grown (rendered plainChild).1
          obtain ⟨otherResult, otherFaults⟩ := steady.rebase grounds grown (rendered plainOther).1
          have length := setting.length_renderRow (setting.renderWithin depth room bindings) earlier
            heapAfter
          dsimp only
          rw [Tree.modifyAt_append, here, there]
          refine ⟨?_, behind ++ (setting.renderRow (setting.renderWithin depth room bindings) later
            (setting.renderRow (setting.renderWithin depth room bindings) earlier heapAfter).heap).faults,
            ?_, ?_⟩
          · rw [← length, Tree.modifyAt_append, Tree.modifyAt_append, same, sameResult, otherResult]
          · rw [sameFaults, first]
            simp only [List.append_assoc]
          · rw [otherFaults, second]
            simp only [List.append_assoc]

end Replaced

/-! ## Directives that fail -/

/-- Whether a directive fails on an element that looks like something: it cannot be set up, or what its
expression is looked at for ends with a fault.  A `for` directive without a template looks at nothing. -/
inductive Fails (setting : Setting) (room : Nat) (bindings : Bindings) (look : Look) (heap : Heap)
    (directive : Directive) (fault : Fault) : Prop
  /-- It cannot be set up. -/
  | setUp (failed : directive.setUp? = .error fault)
  /-- Its expression has no value. -/
  | value {demand : String × Expr} (about : directive.kind.slot? ≠ none)
      (demands : directive.demand? = .ok demand)
      (template : directive.kind = .repeated → look.children ≠ []) (room : room ≠ 0)
      (failed : (demand.2.outcome setting.scope bindings heap).1 = .error fault)

section Failing

variable {look : Look} {directive : Directive} {fault : Fault}

/-- An effect whose expression has no value changes nothing after its beginning. -/
theorem renderEffect_of_failed (glance : Glance) (template : Tree) (name : String) {expr : Expr}
    (begun : Look) (roomy : room ≠ 0)
    (failed : (expr.outcome setting.scope bindings heap).1 = .error fault) :
    setting.renderEffect copy room glance template name bindings expr look begun heap =
      ⟨begun, (expr.outcome setting.scope bindings heap).2, [fault]⟩ := by
  have seen : (glance.outcome setting.scope bindings expr heap).1 = .error fault :=
    congrArg (Except.map _) failed
  rw [renderEffect, if_neg roomy, Render.bind_apply, Render.see_of_error seen]
  rfl

/-- A directive that fails is reported once.  Unless it is a `for` directive, the element looks as
before. -/
theorem Fails.renderDirective (fails : setting.Fails room bindings look heap directive fault)
    (copy : Bindings → Tree → Render Tree) :
    ∃ lookAfter heapAfter,
      setting.renderDirective copy room bindings look directive heap =
        ⟨(lookAfter, .afterFault directive.kind), heapAfter, [fault]⟩ ∧
      (directive.kind ≠ .repeated → lookAfter = look) := by
  cases fails with
  | setUp failed =>
      refine ⟨look, heap, ?_, fun _ => rfl⟩
      unfold Setting.renderDirective
      rw [failed]
      rfl
  | @value demand about demands template roomy failed =>
      have setUp : directive.setUp? = .ok (some demand) := by
        rw [Directive.setUp_of_slot about, demands]
        rfl
      let heapAfter := (demand.2.outcome setting.scope bindings heap).2
      unfold Setting.renderDirective
      rw [setUp]
      dsimp only
      cases kind : directive.kind with
      | text =>
          refine ⟨look, heapAfter, ?_, fun _ => rfl⟩
          rw [renderServed, Render.bind_apply, renderEffect_of_failed _ _ _ _ roomy failed]
          rfl
      | visible =>
          refine ⟨look, heapAfter, ?_, fun _ => rfl⟩
          rw [renderServed, Render.bind_apply, renderEffect_of_failed _ _ _ _ roomy failed]
          rfl
      | repeated =>
          obtain ⟨style, children⟩ := look
          cases children with
          | nil => exact absurd rfl (template kind)
          | cons child rest =>
              refine ⟨⟨style, []⟩, heapAfter, ?_, fun other => absurd rfl other⟩
              rw [renderServed]
              dsimp only
              rw [Render.bind_apply, renderEffect_of_failed _ _ _ _ roomy failed]
              rfl
      | data => exact absurd (congrArg DirectiveKind.slot? kind) about
      | on => exact absurd (congrArg DirectiveKind.slot? kind) about
      | unknown => exact absurd (congrArg DirectiveKind.slot? kind) about

/-- What is below an element does not depend on its attributes. -/
theorem renderBelow_erase (child : Tree → Render Tree) (tag : String)
    (attributes : Assoc String String) (name : String) (served : Look × Descent) (heap : Heap) :
    setting.renderBelow child tag (attributes.erase name) served heap =
      ⟨(setting.renderBelow child tag attributes served heap).result.withoutAttribute name,
        (setting.renderBelow child tag attributes served heap).heap,
        (setting.renderBelow child tag attributes served heap).faults⟩ := by
  obtain ⟨look, descent⟩ := served
  cases descent <;> rfl

theorem bare_renderBelow (child : Tree → Render Tree) (tag : String)
    (attributes : Assoc String String) (served : Look × Descent) (heap : Heap) :
    (setting.renderBelow child tag attributes served heap).result.bare =
      .element tag .empty .empty [] := by
  obtain ⟨look, descent⟩ := served
  cases descent <;> rfl

/-- What becomes of an element whose first directives have been bound. -/
def renderBehind (setting : Setting) (room : Nat) (bindings : Bindings) (depth : Nat) (tag : String)
    (attributes : Assoc String String) (later : List (String × String)) (served : Look × Descent) :
    Render Tree := do
  let served ← setting.renderDirectives (setting.renderWithin depth (room - 1)) room bindings served.1
    served.2 later
  setting.renderBelow (setting.renderWithin depth room bindings) tag attributes served

theorem renderWithin_append {depth : Nat} (tag : String) {attributes : Assoc String String}
    (children : List Tree) {earlier later : List (String × String)}
    (entries : attributes.entries = earlier ++ later) :
    setting.renderWithin (depth + 1) room bindings (.element tag attributes style children) =
      setting.renderDirectives (setting.renderWithin depth (room - 1)) room bindings ⟨style, children⟩
        .children earlier >>= setting.renderBehind room bindings depth tag attributes later := by
  rw [renderWithin, entries, renderDirectives_append, bind_assoc]
  rfl

theorem renderBehind_erase (setting : Setting) (room : Nat) (bindings : Bindings) (depth : Nat)
    (tag : String) (attributes : Assoc String String) (name : String)
    (later : List (String × String)) (served : Look × Descent) (heap : Heap) :
    (setting.renderBehind room bindings depth tag (attributes.erase name) later served heap).result =
        (setting.renderBehind room bindings depth tag attributes later served
          heap).result.withoutAttribute name ∧
      (setting.renderBehind room bindings depth tag (attributes.erase name) later served heap).faults =
        (setting.renderBehind room bindings depth tag attributes later served heap).faults := by
  simp only [renderBehind, Render.bind_apply, renderBelow_erase]
  exact ⟨trivial, trivial⟩

theorem renderBehind_cons {depth : Nat} (tag : String) (attributes : Assoc String String)
    {name value : String} (later : List (String × String)) (served : Look × Descent)
    (found : Directive.ofAttribute? setting.binder.attributePrefix name value = some directive) :
    setting.renderBehind room bindings depth tag attributes ((name, value) :: later) served = (do
      let next ← setting.renderDirective (setting.renderWithin depth (room - 1)) room bindings served.1
        directive
      setting.renderBehind room bindings depth tag attributes later (next.1, next.2.both served.2)) := by
  rw [renderBehind, renderDirectives]
  simp only [found]
  rw [bind_assoc]
  rfl

/-- What becomes of an element with a directive that fails is what becomes of it without that
directive, if it is no `for` directive; and in any case one fault more is reported. -/
theorem Fails.replaced (grounds : setting.Grounds floor data bindings)
    (supplies : (floor.realm setting.binder.tracker).Supplies floor heap []) {depth : Nat} {tag : String}
    {attributes : Assoc String String} {children : List Tree}
    (plain : (Tree.element tag attributes style children).Plain setting.binder) {name value : String}
    {earlier later : List (String × String)}
    (entries : attributes.entries = earlier ++ (name, value) :: later)
    (once : ∀ entry ∈ earlier ++ later, entry.1 ≠ name)
    (found : Directive.ofAttribute? setting.binder.attributePrefix name value = some directive)
    {descent : Descent} {heapNow : Heap} {faults : List Fault}
    (served : setting.renderDirectives (setting.renderWithin depth (room - 1)) room bindings
      ⟨style, children⟩ .children earlier heap = ⟨(look, descent), heapNow, faults⟩)
    (fails : setting.Fails room bindings look heapNow directive fault) :
    let tree := Tree.element tag attributes style children
    let render := setting.renderWithin (depth + 1) room bindings
    (directive.kind ≠ .repeated →
      (render tree heap).result.withoutAttribute name =
        (render (tree.withoutAttribute name) heap).result) ∧
      (render tree heap).result.bare = (render (tree.withoutAttribute name) heap).result.bare ∧
      ∃ own ownOther, (render tree heap).faults = faults ++ fault :: own ∧
        (render (tree.withoutAttribute name) heap).faults = faults ++ ownOther ∧
        (directive.kind ≠ .repeated → ownOther = own) := by
  have directives : setting.binder.directives attributes.entries = setting.binder.directives earlier ++
      directive :: setting.binder.directives later := by
    rw [entries, Binder.directives, List.filterMap_append]
    exact congrArg (_ ++ ·) (List.filterMap_cons_some found)
  have plainEarlier : setting.binder.Plain earlier := fun other listed =>
    plain.1 other (directives ▸ List.mem_append_left _ listed)
  have plainHere := plain.1 directive (directives ▸ List.mem_append_right _ List.mem_cons_self)
  have plainLater : setting.binder.Plain later := fun other listed =>
    plain.1 other (directives ▸ List.mem_append_right _ (List.mem_cons_of_mem _ listed))
  have erased : (attributes.erase name).entries = earlier ++ later := by
    have stays (row : List (String × String)) (inside : ∀ entry ∈ row, entry ∈ earlier ++ later) :
        row.filter (fun entry => entry.1 ≠ name) = row :=
      List.filter_eq_self.mpr fun entry listed => decide_eq_true (once entry (inside entry listed))
    change attributes.entries.filter _ = _
    rw [entries, List.filter_append, List.filter_cons_of_neg (by simp),
      stays earlier fun _ => List.mem_append_left _, stays later fun _ => List.mem_append_right _]
  -- Up to the directive both are the same.
  have attended := (renderDirectives_steady depth room plainEarlier ⟨style, children⟩ .children
    plain.2).supplies_good grounds supplies
  rw [served] at attended
  obtain ⟨made, good⟩ := attended
  have supplied := supplies.append made
  obtain ⟨lookAfter, heapAfter, reported, same⟩ :=
    fails.renderDirective (setting.renderWithin depth (room - 1))
  have more := ((renderDirective_steady depth room plainHere good).supplies_good grounds supplied).1
  rw [reported] at more
  have whole : setting.renderWithin (depth + 1) room bindings (.element tag attributes style children)
      heap = _ :=
    congrFun (renderWithin_append tag children entries) heap
  have other : setting.renderWithin (depth + 1) room bindings
      ((Tree.element tag attributes style children).withoutAttribute name) heap = _ :=
    congrFun (renderWithin_append tag children erased) heap
  rw [Render.bind_apply, served, renderBehind_cons tag attributes later _ found, Render.bind_apply,
    reported] at whole
  rw [Render.bind_apply, served] at other
  dsimp only at whole other
  obtain ⟨result, behind⟩ :=
    setting.renderBehind_erase room bindings depth tag attributes name later (look, descent) heapNow
  have steady : Render.Steady setting floor data bindings (Tree.Plain setting.binder)
      (setting.renderBehind room bindings depth tag attributes later (look, descent)) :=
    (renderDirectives_steady depth room plainLater look descent good).bind fun served good =>
      renderBelow_steady depth room tag plain.1 served good
  obtain ⟨sameResult, sameFaults⟩ := steady.rebase grounds supplied more
  dsimp only
  rw [whole, other]
  refine ⟨fun kind => ?_, ?_, _, _, rfl, rfl, fun kind => ?_⟩
  · obtain rfl := same kind
    rw [Descent.afterFault, if_neg kind]
    exact (congrArg (Tree.withoutAttribute name) sameResult).trans result.symm
  · unfold renderBehind
    rw [Render.bind_apply, Render.bind_apply]
    exact (bare_renderBelow _ _ _ _ _).trans (bare_renderBelow _ _ _ _ _).symm
  · obtain rfl := same kind
    rw [Descent.afterFault, if_neg kind]
    exact behind.trans sameFaults.symm

/-- What becomes of a tree with a directive that fails somewhere is what becomes of it without that
directive, but for the element of a `for` directive; and in any case one fault more is reported. -/
theorem Comes.spares (grounds : setting.Grounds floor data bindings)
    (supplies : (floor.realm setting.binder.tracker).Supplies floor heap [])
    {tree : Tree} (plain : tree.Plain setting.binder) {depth rest : Nat} {path : List Nat} {tag : String}
    {attributes : Assoc String String} {children : List Tree} {there : Heap} {before : List Fault}
    (comes : setting.Comes room bindings depth tree heap path (rest + 1)
      (.element tag attributes style children) there before) {name value : String}
    {earlier later : List (String × String)}
    (entries : attributes.entries = earlier ++ (name, value) :: later)
    (once : ∀ entry ∈ earlier ++ later, entry.1 ≠ name)
    (found : Directive.ofAttribute? setting.binder.attributePrefix name value = some directive)
    {descent : Descent} {heapNow : Heap} {faults : List Fault}
    (served : setting.renderDirectives (setting.renderWithin rest (room - 1)) room bindings
      ⟨style, children⟩ .children earlier there = ⟨(look, descent), heapNow, faults⟩)
    (fails : setting.Fails room bindings look heapNow directive fault) :
    let render := setting.renderWithin depth room bindings
    let other := tree.modifyAt (Tree.withoutAttribute name) path
    (directive.kind ≠ .repeated →
      (render tree heap).result.modifyAt (Tree.withoutAttribute name) path = (render other heap).result) ∧
      (render tree heap).result.modifyAt Tree.bare path =
        (render other heap).result.modifyAt Tree.bare path ∧
      ∃ own ownOther behind,
        (render tree heap).faults = before ++ faults ++ fault :: (own ++ behind) ∧
        (render other heap).faults = before ++ faults ++ (ownOther ++ behind) ∧
        (directive.kind ≠ .repeated → ownOther = own) := by
  obtain ⟨reached, plainThere⟩ := comes.reached grounds supplies plain
  obtain ⟨same, bare, own, ownOther, first, second, only⟩ :=
    fails.replaced grounds reached plainThere entries once found served
  refine ⟨fun kind => ?_, ?_, ?_⟩
  · have agree := (comes.replaced grounds supplies plain name (Tree.withoutAttribute name)
      (fun inside => inside) (same kind)).1
    rw [Tree.modifyAt_self] at agree
    exact agree
  · exact (comes.replaced grounds supplies plain name Tree.bare Tree.bare bare).1
  · obtain ⟨-, behind, all, allOther⟩ :=
      comes.replaced grounds supplies plain name Tree.bare Tree.bare bare
    refine ⟨own, ownOther, behind, ?_, ?_, only⟩
    · rw [all, first]
      simp only [List.append_assoc, List.cons_append]
    · rw [allOther, second]
      simp only [List.append_assoc]

end Failing

end Setting

end LiveMarkup
