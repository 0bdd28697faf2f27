import LiveMarkup.Proofs.Directive.Rendering

/-!
# Trees become the same

Rendered in a heap and in a counterpart of it, a tree becomes the same, with the same faults, and the
heaps stay counterparts.  Nothing is made on the way but containers, and whatever directives showed
only plain expressions do so afterwards.
-/

namespace LiveMarkup

variable {reach : Reach} {ρ : Renaming} {floor other heap counterpart : Heap} {α β : Type}

/-- Whether two heaps are counterparts in which a computation gets no further than its reach. -/
structure Reach.Paired (reach : Reach) (ρ : Renaming) (heap counterpart : Heap) : Prop where
  /-- They are counterparts. -/
  mirrors : heap.Mirrors ρ (fun _ => True) (fun _ => True) counterpart
  /-- Nothing gets out of the reach in the first heap. -/
  calm : reach.Calm heap
  /-- Nothing gets out of it in the second heap. -/
  calmThere : reach.Calm counterpart

/-- Whether the values of bindings and their counterparts lie in a reach. -/
structure Reach.Around (reach : Reach) (ρ : Renaming) (heap counterpart : Heap)
    (bindings : Bindings) : Prop where
  /-- The values. -/
  here : ∀ entry ∈ bindings.entries, reach.Holds heap entry.2
  /-- Their counterparts. -/
  there : ∀ entry ∈ (ρ.bindings bindings).entries, reach.Holds counterpart entry.2

theorem Reach.Around.mono {bindings : Bindings} (around : reach.Around ρ floor other bindings)
    (grows : floor.Grows heap) (growsThere : other.Grows counterpart) :
    reach.Around ρ heap counterpart bindings :=
  ⟨fun entry member => Reach.Holds.mono (around.here entry member) grows,
    fun entry member => Reach.Holds.mono (around.there entry member) growsThere⟩

theorem Reach.Around.same {bindings : Bindings}
    (holds : ∀ entry ∈ bindings.entries, reach.Holds heap entry.2) :
    reach.Around .same heap heap bindings :=
  ⟨holds, (Renaming.same_bindings bindings).symm ▸ holds⟩

theorem Reach.Around.insert {bindings : Bindings} (around : reach.Around ρ heap counterpart bindings)
    (name : String) {value : Value} (holds : reach.Holds heap value)
    (holdsThere : reach.Holds counterpart (ρ.value value)) :
    reach.Around ρ heap counterpart (bindings.insert name value) where
  here entry member := by
    rcases Assoc.mem_put member with old | rfl
    · exact around.here entry old
    · exact holds
  there entry member := by
    rw [Renaming.bindings, Assoc.mapValues_insert] at member
    rcases Assoc.mem_put member with old | rfl
    · exact around.there entry old
    · exact holdsThere

/-- Whether the same has come out of a heap and of its counterpart. -/
structure Rendered.Alike (reach : Reach) (ρ : Renaming) (heap counterpart : Heap) (good : α → Prop)
    (first second : Rendered α) : Prop where
  /-- The results are the same. -/
  result : second.result = first.result
  /-- The faults are the same. -/
  faults : second.faults = first.faults
  /-- The heaps are counterparts. -/
  paired : reach.Paired ρ first.heap second.heap
  /-- In the first heap only containers were made. -/
  supplies : reach.Supplies heap first.heap []
  /-- So it is in the second one. -/
  suppliesThere : reach.Supplies counterpart second.heap []
  /-- The result is good. -/
  good : good first.result

/-- Whether in a heap that has grown the same comes out as in a counterpart of it. -/
def Render.Alike (reach : Reach) (ρ : Renaming) (floor other : Heap) (good : α → Prop)
    (first second : Render α) : Prop :=
  ∀ heap counterpart, floor.Grows heap → other.Grows counterpart → reach.Paired ρ heap counterpart →
    (first heap).Alike reach ρ heap counterpart good (second counterpart)

namespace Render.Alike

variable {good : α → Prop} {goodNext : β → Prop} {first second : Render α}
  {next nextThere : α → Render β}

theorem pure {a : α} (holds : good a) :
    Render.Alike reach ρ floor other good (Pure.pure a) (Pure.pure a) :=
  fun _ _ _ _ paired => ⟨rfl, rfl, paired, .none paired.calm, .none paired.calmThere, holds⟩

theorem report (fault : Fault) :
    Render.Alike reach ρ floor other (fun _ => True) (.report fault) (.report fault) :=
  fun _ _ _ _ paired => ⟨rfl, rfl, paired, .none paired.calm, .none paired.calmThere, trivial⟩

theorem bind (alike : Render.Alike reach ρ floor other good first second)
    (later : ∀ a heap counterpart, floor.Grows heap → other.Grows counterpart → good a →
      Render.Alike reach ρ heap counterpart goodNext (next a) (nextThere a)) :
    Render.Alike reach ρ floor other goodNext (first >>= next) (second >>= nextThere) := by
  intro heap counterpart grows growsThere paired
  have here := alike heap counterpart grows growsThere paired
  have there := later _ _ _ (grows.trans here.supplies.grows)
    (growsThere.trans here.suppliesThere.grows) here.good _ _ (.refl _) (.refl _) here.paired
  have same : (second >>= nextThere) counterpart =
      { result := (nextThere (first heap).result (second counterpart).heap).result
        heap := (nextThere (first heap).result (second counterpart).heap).heap
        faults := (first heap).faults ++
          (nextThere (first heap).result (second counterpart).heap).faults } := by
    rw [← here.result, ← here.faults]
    rfl
  rw [same]
  exact ⟨there.result, congrArg (_ ++ ·) there.faults, there.paired,
    here.supplies.append there.supplies, here.suppliesThere.append there.suppliesThere, there.good⟩

/-- What is seen of a plain expression has its counterpart. -/
theorem see {data : ContainerId} (held : reach.held data) (fixed : ρ.container data = data)
    (glance : Glance) {bindings : Bindings} (around : reach.Around ρ floor other bindings)
    {expr : Expr} (plain : expr.isPlain = true) {next nextThere : Option Sight → Render β}
    (later : ∀ sight heap counterpart, floor.Grows heap → other.Grows counterpart →
      (∀ items, sight = some (.items (some items)) → ∀ item ∈ items,
        reach.Holds heap item ∧ reach.Holds counterpart (ρ.value item)) →
      Render.Alike reach ρ heap counterpart goodNext (next sight)
        (nextThere (sight.map ρ.sight))) :
    Render.Alike reach ρ floor other goodNext
      (Render.see glance ⟨reach.tracker, some data⟩ bindings expr >>= next)
      (Render.see glance ⟨reach.tracker, some data⟩ (ρ.bindings bindings) expr >>= nextThere) := by
  intro heap counterpart grows growsThere paired
  have around := around.mono grows growsThere
  obtain ⟨supplies, holds⟩ := glance.outcome_supplies held plain paired.calm around.here
  obtain ⟨suppliesThere, holdsThere⟩ :=
    glance.outcome_supplies held plain paired.calmThere around.there
  obtain ⟨same, mirrors⟩ := glance.outcome_mirrors held plain fixed paired.mirrors paired.calm
    paired.calmThere around.here around.there
  have paired : reach.Paired ρ _ _ := ⟨mirrors, supplies.calm, suppliesThere.calm⟩
  have after (sight : Option Sight) := later sight _ _ (grows.trans supplies.grows)
    (growsThere.trans suppliesThere.grows)
  cases seen : (glance.outcome ⟨reach.tracker, some data⟩ bindings expr heap).1 with
  | error fault =>
      have failed := Render.see_of_error (same.trans (congrArg (Except.map ρ.sight) seen))
      rw [Render.bind_apply, Render.bind_apply, Render.see_of_error seen, failed]
      have rest := after none (fun _ none => nomatch none) _ _ (.refl _) (.refl _) paired
      exact ⟨rest.result, congrArg (fault :: ·) rest.faults, rest.paired,
        supplies.append rest.supplies, suppliesThere.append rest.suppliesThere, rest.good⟩
  | ok sight =>
      have found := Render.see_of_ok (same.trans (congrArg (Except.map ρ.sight) seen))
      rw [Render.bind_apply, Render.bind_apply, Render.see_of_ok seen, found]
      have rest := after (some sight) (fun items some item member => ?_) _ _ (.refl _) (.refl _) paired
      · exact ⟨rest.result, rest.faults, rest.paired,
          supplies.append rest.supplies, suppliesThere.append rest.suppliesThere, rest.good⟩
      · obtain rfl := Option.some.inj some
        refine ⟨holds items seen item member, ?_⟩
        refine holdsThere (items.map ρ.value) ?_ (ρ.value item) (List.mem_map_of_mem member)
        rw [same, seen]
        rfl

/-- What comes out is good. -/
theorem good_of (alike : Render.Alike reach .same heap heap good first second)
    (calm : reach.Calm heap) : good (first heap).result :=
  (alike heap heap (.refl _) (.refl _) ⟨.refl heap, calm, calm⟩).good

theorem holds_items {items : List Value}
    (holds : ∀ item ∈ items, reach.Holds floor item ∧ reach.Holds other (ρ.value item))
    (grows : floor.Grows heap) (growsThere : other.Grows counterpart) :
    ∀ item ∈ items, reach.Holds heap item ∧ reach.Holds counterpart (ρ.value item) :=
  fun item member => ⟨Reach.Holds.mono (holds item member).1 grows,
    Reach.Holds.mono (holds item member).2 growsThere⟩

end Render.Alike

namespace Tree

theorem plainAll_append {binder : Binder} {earlier later : List Tree} :
    PlainAll binder (earlier ++ later) ↔ PlainAll binder earlier ∧ PlainAll binder later := by
  induction earlier with
  | nil => exact ⟨fun plain => ⟨trivial, plain⟩, And.right⟩
  | cons tree rest ih => exact (and_congr_right fun _ => ih).trans and_assoc.symm

theorem plainAll_textRow (binder : Binder) (text : String) : PlainAll binder (textRow text) := by
  unfold textRow
  split
  · exact trivial
  · exact ⟨trivial, trivial⟩

end Tree

/-- A directive that demands something is about something, and its demand can be read. -/
theorem Directive.demand_of_setUp {directive : Directive} {demand : String × Expr}
    (setUp : directive.setUp? = .ok (some demand)) :
    directive.kind.slot? ≠ none ∧ directive.demand? = .ok demand := by
  unfold setUp? at setUp
  have read {result : Except Fault (String × Expr)} (same : result.map some = .ok (some demand)) :
      result = .ok demand := by
    cases result with
    | error fault => contradiction
    | ok found => exact congrArg Except.ok (Option.some.inj (Except.ok.inj same))
  cases kind : directive.kind with
  | data => simp [kind] at setUp
  | unknown => simp [kind] at setUp
  | on =>
      simp only [kind] at setUp
      split at setUp
      · contradiction
      · split at setUp <;> simp at setUp
  | text => exact ⟨by simp [DirectiveKind.slot?], read (by simpa only [kind] using setUp)⟩
  | visible => exact ⟨by simp [DirectiveKind.slot?], read (by simpa only [kind] using setUp)⟩
  | repeated => exact ⟨by simp [DirectiveKind.slot?], read (by simpa only [kind] using setUp)⟩

namespace Setting

/-- Whether whatever is rendered in a setting is about the data of a reach, which is its own
counterpart. -/
structure Suits (setting : Setting) (reach : Reach) (ρ : Renaming) (data : ContainerId) : Prop where
  /-- The binder has the tracker of the reach. -/
  tracker : setting.binder.tracker = reach.tracker
  /-- The scope is that of the data. -/
  scope : setting.scope = ⟨reach.tracker, some data⟩
  /-- The data lies in the reach. -/
  held : reach.held data
  /-- The data is its own counterpart. -/
  fixed : ρ.container data = data

/-- Whether plain trees become the same with bindings and with their counterparts. -/
def Likewise (binder : Binder) (reach : Reach) (ρ : Renaming) (render : Bindings → Tree → Render Tree) :
    Prop :=
  ∀ ⦃floor other : Heap⦄ ⦃bindings : Bindings⦄ ⦃tree : Tree⦄,
    reach.Around ρ floor other bindings → tree.Plain binder →
      Render.Alike reach ρ floor other (Tree.Plain binder) (render bindings tree)
        (render (ρ.bindings bindings) tree)

section Alike

variable {setting : Setting} {data : ContainerId} {bindings : Bindings}
  {copy : Bindings → Tree → Render Tree} {template : Tree} {look begun : Look}
  (suits : setting.Suits reach ρ data) (copies : Likewise setting.binder reach ρ copy)

include copies

theorem renderCopies_alike (plain : template.Plain setting.binder) (name : String)
    {items : List Value} (around : reach.Around ρ floor other bindings)
    (holds : ∀ item ∈ items, reach.Holds floor item ∧ reach.Holds other (ρ.value item)) :
    Render.Alike reach ρ floor other (Tree.PlainAll setting.binder)
      (renderCopies copy template name bindings items)
      (renderCopies copy template name (ρ.bindings bindings) (items.map ρ.value)) := by
  induction items generalizing floor other with
  | nil => exact .pure trivial
  | cons item rest ih =>
      obtain ⟨here, there⟩ := holds item List.mem_cons_self
      have first := copies (around.insert name here there) plain
      rw [Renaming.bindings, Assoc.mapValues_insert] at first
      refine first.bind fun tree heap counterpart grows growsThere good => ?_
      have behind := Render.Alike.holds_items
        (fun later member => holds later (List.mem_cons_of_mem item member)) grows growsThere
      exact (ih (around.mono grows growsThere) behind).bind fun _ _ _ _ _ all => .pure ⟨good, all⟩

theorem renderSight_alike (plain : template.Plain setting.binder) (name : String)
    (around : reach.Around ρ floor other bindings) (good : Tree.PlainAll setting.binder look.children)
    {sight : Option Sight}
    (holds : ∀ items, sight = some (.items (some items)) → ∀ item ∈ items,
      reach.Holds floor item ∧ reach.Holds other (ρ.value item)) :
    Render.Alike reach ρ floor other (fun look => Tree.PlainAll setting.binder look.children)
      (renderSight copy template name bindings look sight)
      (renderSight copy template name (ρ.bindings bindings) look (sight.map ρ.sight)) := by
  cases sight with
  | none => exact .pure good
  | some sight =>
      cases sight with
      | text content => exact .pure (Tree.plainAll_textRow _ content)
      | truth value => exact .pure good
      | items items =>
          cases items with
          | none => exact .pure good
          | some items =>
              exact (renderCopies_alike copies plain name around (holds items rfl)).bind
                fun _ _ _ _ _ all => .pure all

include suits

theorem renderEffect_alike (room : Nat) (glance : Glance) (plain : template.Plain setting.binder)
    (name : String) (around : reach.Around ρ floor other bindings) {expr : Expr}
    (shown : expr.isPlain = true) (good : Tree.PlainAll setting.binder look.children)
    (goodBegun : Tree.PlainAll setting.binder begun.children) :
    Render.Alike reach ρ floor other (fun look => Tree.PlainAll setting.binder look.children)
      (setting.renderEffect copy room glance template name bindings expr look begun)
      (setting.renderEffect copy room glance template name (ρ.bindings bindings) expr look begun) := by
  unfold renderEffect
  split
  · exact (Render.Alike.report _).bind fun _ _ _ _ _ _ => .pure good
  · rw [suits.scope]
    exact .see suits.held suits.fixed glance around shown fun sight heap counterpart grows growsThere
      holds => renderSight_alike copies plain name (around.mono grows growsThere) goodBegun holds

theorem renderServed_alike (room : Nat) (kind : DirectiveKind) {demand : String × Expr}
    (around : reach.Around ρ floor other bindings) (shown : demand.2.isPlain = true)
    (good : Tree.PlainAll setting.binder look.children) :
    Render.Alike reach ρ floor other (fun served => Tree.PlainAll setting.binder served.1.children)
      (setting.renderServed copy room bindings look kind demand)
      (setting.renderServed copy room (ρ.bindings bindings) look kind demand) := by
  have effect (glance : Glance) {template : Tree} (name : String) {look begun : Look}
      (plain : template.Plain setting.binder) (good : Tree.PlainAll setting.binder look.children)
      (goodBegun : Tree.PlainAll setting.binder begun.children) (descent : Descent) :
      Render.Alike reach ρ floor other (fun served => Tree.PlainAll setting.binder served.1.children)
        (do
          let look ← setting.renderEffect copy room glance template name bindings demand.2 look begun
          return (look, descent))
        (do
          let look ← setting.renderEffect copy room glance template name (ρ.bindings bindings)
            demand.2 look begun
          return (look, descent)) :=
    (renderEffect_alike suits copies room glance plain name around shown good goodBegun).bind
      fun _ _ _ _ _ good => .pure good
  cases kind with
  | text => exact effect .text "" (show (Tree.text "").Plain _ from trivial) good good .children
  | visible => exact effect .truth "" (show (Tree.text "").Plain _ from trivial) good good .children
  | repeated =>
      rw [renderServed, renderServed]
      split
      next => exact .pure good
      next template rest children =>
        rw [children] at good
        exact effect .items demand.1 good.1 good.2 (show Tree.PlainAll _ [] from trivial) .claimed
  | data => exact .pure good
  | on => exact .pure good
  | unknown => exact .pure good

theorem renderDirective_alike (room : Nat) {directive : Directive}
    (shown : directive.kind.slot? ≠ none → ∀ demand, directive.demand? = .ok demand →
      demand.2.isPlain = true) (around : reach.Around ρ floor other bindings)
    (good : Tree.PlainAll setting.binder look.children) :
    Render.Alike reach ρ floor other (fun served => Tree.PlainAll setting.binder served.1.children)
      (setting.renderDirective copy room bindings look directive)
      (setting.renderDirective copy room (ρ.bindings bindings) look directive) := by
  unfold renderDirective
  split
  next => exact (Render.Alike.report _).bind fun _ _ _ _ _ _ => .pure good
  next => exact .pure good
  next demand setUp =>
    obtain ⟨about, read⟩ := Directive.demand_of_setUp setUp
    exact renderServed_alike suits copies room directive.kind around (shown about demand read) good

theorem renderDirectives_alike (room : Nat) {attributes : List (String × String)}
    (shown : setting.binder.Plain attributes) (around : reach.Around ρ floor other bindings)
    (look : Look) (descent : Descent) (good : Tree.PlainAll setting.binder look.children) :
    Render.Alike reach ρ floor other (fun served => Tree.PlainAll setting.binder served.1.children)
      (setting.renderDirectives copy room bindings look descent attributes)
      (setting.renderDirectives copy room (ρ.bindings bindings) look descent attributes) := by
  induction attributes generalizing floor other look descent with
  | nil => exact .pure good
  | cons entry rest ih =>
      obtain ⟨name, value⟩ := entry
      rw [renderDirectives, renderDirectives]
      cases found : Directive.ofAttribute? setting.binder.attributePrefix name value with
      | none =>
          have directives : setting.binder.directives ((name, value) :: rest) =
              setting.binder.directives rest := List.filterMap_cons_none found
          exact ih (fun directive listed => shown directive (directives ▸ listed)) around look descent good
      | some directive =>
          have directives : setting.binder.directives ((name, value) :: rest) =
              directive :: setting.binder.directives rest := List.filterMap_cons_some found
          have here := renderDirective_alike suits copies room
            (shown directive (directives ▸ List.mem_cons_self)) around good
          refine here.bind fun served heap counterpart grows growsThere good => ?_
          exact ih (fun directive listed => shown directive
            (directives ▸ List.mem_cons_of_mem _ listed)) (around.mono grows growsThere) _ _ good

end Alike

section Row

variable {setting : Setting} {bindings : Bindings} {render : Bindings → Tree → Render Tree}
  (likewise : Likewise setting.binder reach ρ render)

include likewise

theorem renderChild_alike {tree : Tree} (around : reach.Around ρ floor other bindings)
    (plain : tree.Plain setting.binder) :
    Render.Alike reach ρ floor other (Tree.Plain setting.binder)
      (setting.renderChild (render bindings) tree)
      (setting.renderChild (render (ρ.bindings bindings)) tree) := by
  unfold renderChild
  split
  · exact .pure plain
  · exact likewise around plain

theorem renderRow_alike {trees : List Tree} (around : reach.Around ρ floor other bindings)
    (plain : Tree.PlainAll setting.binder trees) :
    Render.Alike reach ρ floor other (Tree.PlainAll setting.binder)
      (setting.renderRow (render bindings) trees)
      (setting.renderRow (render (ρ.bindings bindings)) trees) := by
  induction trees generalizing floor other with
  | nil => exact .pure trivial
  | cons tree rest ih =>
      refine (renderChild_alike likewise around plain.1).bind
        fun tree heap counterpart grows growsThere good => ?_
      exact (ih (around.mono grows growsThere) plain.2).bind fun _ _ _ _ _ all => .pure ⟨good, all⟩

theorem renderBelow_alike (tag : String) {attributes : Assoc String String}
    (shown : setting.binder.Plain attributes.entries) {served : Look × Descent}
    (around : reach.Around ρ floor other bindings)
    (good : Tree.PlainAll setting.binder served.1.children) :
    Render.Alike reach ρ floor other (Tree.Plain setting.binder)
      (setting.renderBelow (render bindings) tag attributes served)
      (setting.renderBelow (render (ρ.bindings bindings)) tag attributes served) := by
  unfold renderBelow
  split
  · exact .pure ⟨shown, good⟩
  · exact (renderRow_alike likewise around good).bind fun _ _ _ _ _ all => .pure ⟨shown, all⟩

end Row

/-- A plain tree becomes the same, as far down as it is bound. -/
theorem renderWithin_likewise {setting : Setting} {data : ContainerId}
    (suits : setting.Suits reach ρ data) (depth room : Nat) :
    Likewise setting.binder reach ρ (setting.renderWithin depth room) := by
  induction depth generalizing room with
  | zero => exact fun _ _ _ _ _ plain => .pure plain
  | succ depth ih =>
      intro floor other bindings tree around plain
      cases tree with
      | text content => exact .pure plain
      | element tag attributes style children =>
          have served := renderDirectives_alike suits (ih (room - 1)) room plain.1 around
            ⟨style, children⟩ .children plain.2
          exact served.bind fun _ _ _ grows growsThere good =>
            renderBelow_alike (ih room) tag plain.1 (around.mono grows growsThere) good

end Setting

end LiveMarkup
