import LiveMarkup.Proofs.Page.Lodging

/-!
# Binding on one side

An element is bound with the scope and the bindings of its home, and so is all that is bound below
it: children share the home of their parent unless they declare data, and then they are left alone;
copies of a template are bound where they were put.  Therefore neither binding nor any run of an
effect leaves the side of the root that the directive is below.
-/

namespace LiveMarkup

namespace Binder

/-- Stamps one copy of the template. -/
def stampOne (bindCopy : SubtreeBinder) (host : ElementId) (template : Child) (name : String)
    (scope : Scope) (bindings : Bindings) (item : Value) : TaskM Page Unit := do
  let copy ← Page.see fun dom => (dom.copy template).1
  Page.edit fun dom => (dom.copy template).2
  match copy with
  | .text _ => pure ()
  | .element id => bindCopy id scope (bindings.insert name item)
  Page.edit fun dom => dom.append host copy

theorem stampAll_cons (bindCopy : SubtreeBinder) (host : ElementId) (template : Child) (name : String)
    (scope : Scope) (bindings : Bindings) (item : Value) (rest : List Value) :
    stampAll bindCopy host template name scope bindings (item :: rest) = (do
      stampOne bindCopy host template name scope bindings item
      stampAll bindCopy host template name scope bindings rest) := by
  rw [stampAll, stampOne, bind_assoc]
  refine congrArg (_ >>= ·) (funext fun copy => ?_)
  cases copy <;> rfl

end Binder

namespace Directive

variable {directive : Directive} {expr : Expr}

theorem demand?_of_parse (plain : directive.kind ≠ .repeated)
    (parsed : Expr.parse directive.expression = .ok expr) : directive.demand? = .ok ("", expr) := by
  rw [demand?, if_neg plain, parsed]

theorem demand?_of_split {name source : String} (kind : directive.kind = .repeated)
    (read : splitRepeat directive.expression = .ok (name, source))
    (parsed : Expr.parse source = .ok expr) : directive.demand? = .ok (name, expr) := by
  rw [demand?, if_pos kind, read]
  simp only [parsed]

end Directive

namespace Chart

variable {κ : Type} {binder : Binder} {side : ElementId → κ} {chart more : Chart binder side} {k : κ}
  {runner : World.Runner Page} {world : World Page} {page : Page} {bond : Bond}

/-! ## New effects -/

/-- Records the directive of an effect. -/
def withBond (chart : Chart binder side) (effect : EffectId) (bond : Bond) : Chart binder side :=
  { chart with bond := fun other => if other = effect then some bond else chart.bond other }

theorem FitsEffects.known (fits : chart.FitsEffects world) {effect : EffectId}
    (assigned : chart.bond effect = some bond) :
    world.bodies[effect.index]? = some (bond.task binder).toTask := by
  rw [fits.bodies, assigned, Option.map_some]

theorem FitsEffects.new_effect (fits : chart.FitsEffects world) :
    chart.bond ⟨world.bodies.size⟩ = none := by
  have beyond := fits.bodies ⟨world.bodies.size⟩
  rw [Array.getElem?_eq_none (Nat.le_refl _)] at beyond
  exact Option.map_eq_none_iff.mp beyond.symm

theorem le_withBond {effect : EffectId} (new : chart.bond effect = none) (bond : Bond) :
    chart.Le (chart.withBond effect bond) :=
  { Le.refl chart with
    bond := fun other assigned same => by
      have differs : other ≠ effect := fun here => by simp [here ▸ same] at new
      simp only [withBond, if_neg differs, same] }

/-- A new effect is of a directive. -/
theorem Fits.define (fits : chart.Fits world) (bound : chart.Bound bond) :
    (chart.withBond ⟨world.bodies.size⟩ bond).Fits (world.define (bond.task binder).toTask).2 := by
  have le := le_withBond fits.effects.new_effect bond
  refine ⟨fits.heap.mono le rfl rfl, fits.readers.mono le, fits.page.mono le rfl rfl rfl,
    fun effect => ?_, ?_, fun effect assigned same => ?_⟩
  · change (world.bodies.push _)[effect.index]? = Option.map _ (if _ then _ else _)
    rw [Array.getElem?_push]
    by_cases new : effect = ⟨world.bodies.size⟩
    · rw [if_pos new, if_pos (congrArg EffectId.index new)]
      rfl
    · rw [if_neg new, if_neg fun same => new (congrArg EffectId.mk same)]
      exact fits.effects.bodies effect
  · change (world.store.runs.push 0).size = (world.bodies.push _).size
    rw [Array.size_push, Array.size_push, fits.effects.runs]
  · simp only [withBond] at same
    split at same
    · exact Option.some.inj same ▸ bound.mono le
    · exact (fits.effects.bonds effect assigned same).mono le

theorem Spares.define (fits : chart.Fits world) (bond : Bond) :
    Spares k chart world (chart.withBond ⟨world.bodies.size⟩ bond)
      (world.define (bond.task binder).toTask).2 :=
  { Spares.refl k chart world with
    le := le_withBond fits.effects.new_effect bond
    data := rfl
    home := fun _ _ => rfl
    runs := fun effect other own _ => by
      obtain ⟨assigned, same, _⟩ := own
      have known : effect.index < world.store.runs.size := by
        rw [fits.effects.runs]
        exact (Array.getElem?_eq_some_iff.mp (fits.effects.known same)).1
      change (world.store.runs.push 0)[effect.index]?.getD 0 = _
      rw [Array.getElem?_push, if_neg (Nat.ne_of_lt known), Store.runCount] }

/-- A directive that is bound where its element was put becomes an effect of that side. -/
theorem Keeps.createEffect (runs : KeepsRuns binder side runner) (bound : chart.Bound bond)
    (atHome : chart.AtHome k bond.element bond.scope bond.bindings) :
    chart.Keeps runner k (TaskM.createEffect ⟨0⟩ (bond.task binder)) fun _ _ => True := by
  intro world fits _
  have spares : Spares k chart world _ _ := .define fits bond
  obtain ⟨more, fitsAfter, later⟩ := runs.fanOut [⟨world.bodies.size⟩] (fits.define bound)
    fun effect member => ⟨bond, if_pos (List.mem_singleton.mp member), atHome.mono spares.le⟩
  exact ⟨_, _, more, .createEffect ⟨0⟩ _ world, fitsAfter, spares.trans later, fun _ _ => trivial⟩

/-! ## Stamping -/

/-- Whether binding an element where it was put keeps to the side of its root, and ends without a
fault whatever the directives are. -/
def KeepsTree (binder : Binder) (side : ElementId → κ) (runner : World.Runner Page)
    (bind : Binder.SubtreeBinder) : Prop :=
  ∀ (chart : Chart binder side) (k : κ) (element : ElementId) (scope : Scope) (bindings : Bindings),
    chart.AtHome k element scope bindings →
      chart.Completes runner k (bind element scope bindings) fun _ _ => True

/-- What is shown of a computation may rest on what is known of the document. -/
theorem Keeps.given {α : Type} {computation : TaskM Page α} {good : Chart binder side → α → Prop}
    (keeps : ∀ page, chart.FitsPage page → chart.Keeps runner k computation good) :
    chart.Keeps runner k computation good :=
  fun world fits framed => keeps _ fits.page world fits framed

theorem Keeps.eval (runs : KeepsRuns binder side runner) {element : ElementId} {scope : Scope}
    {bindings : Bindings} (atHome : chart.AtHome k element scope bindings) (expr : Expr) :
    chart.Keeps runner k (Expr.eval scope bindings expr) fun more value => more.Held k value :=
  .given fun _ fits => (keeping runs k).keeps_eval (atHome.sees fits) expr

/-- The host of a template carries a `for` directive. -/
theorem Bound.repeats (bound : chart.Bound bond) {template : Child} {name : String} {depth : Nat}
    (purpose : bond.purpose = .repeated template name depth) (fits : chart.FitsPage page) :
    binder.repeats (page.dom.face bond.element).attributes = true := by
  obtain ⟨attributes, given, directive, member, kind, _⟩ := bound.directive
  rw [(fits.known_of_attributes given).2]
  refine List.any_eq_true.mpr ⟨directive, member, decide_eq_true ?_⟩
  rw [kind, purpose]
  rfl

/-- What is known of a document in which an element was copied as a template. -/
structure Copied (k : κ) (chart : Chart binder side) (world : World Page) (host id : ElementId)
    (scope : Scope) (bindings : Bindings) (more : Chart binder side) (after : World Page) : Prop where
  copied : (world.dom.copy (.element id)).1 = .element ⟨world.dom.size⟩
  edited : after = { world with
    surroundings := world.surroundings.mapDom fun dom => (dom.copy (.element id)).2 }
  grows : world.dom.Grows after.dom
  fits : more.Fits after
  spares : Spares k chart world more after
  atHome : more.AtHome k ⟨world.dom.size⟩ scope bindings
  stamped : ∀ home, more.home ⟨world.dom.size⟩ = some home →
    more.Stamped host (.element id) home

section Stamp

variable {effect : EffectId} {template : Child} {name : String} {depth : Nat}
  {bindCopy : Binder.SubtreeBinder} (tree : KeepsTree binder side runner bindCopy)
  (assigned : chart.bond effect = some bond)
  (purpose : bond.purpose = .repeated template name depth)
  (atHome : chart.AtHome k bond.element bond.scope bond.bindings)

include tree assigned purpose atHome

omit tree assigned purpose in
/-- A text is put in its place. -/
theorem Keeps.stampText (content : String) (item : Value) :
    chart.Keeps runner k (Binder.stampOne bindCopy bond.element (.text content) name bond.scope
      bond.bindings item) fun _ _ => True := by
  have see : chart.Keeps runner k (Page.see fun dom => (dom.copy (.text content)).1)
      fun _ copy => copy = .text content := .see fun _ _ => rfl
  refine see.bind fun more copy le shown => ?_
  subst shown
  have same : more.Keeps runner k (Page.edit fun dom => (dom.copy (.text content)).2)
      fun _ _ => True :=
    .trim (atHome.mono le) (fun _ fits => .refl fits.forest fits.ordered _) fun dom => .refl dom
  refine same.bind fun most _ later _ => ?_
  have nothing : most.Keeps runner k (Pure.pure ()) fun _ _ => True := .pure trivial
  exact nothing.bind fun _ _ again _ => .appendText (((atHome.mono le).mono later).mono again) content

omit tree in
/-- A copy of an element gets its home when it is made. -/
theorem Fits.copy (fits : chart.Fits world) {id : ElementId} (element : template = .element id)
    {item : Value} (held : chart.Held k item) :
    ∃ more after, Copied k chart world bond.element id bond.scope (bond.bindings.insert name item)
      more after := by
  subst element
  have bound := fits.effects.bonds effect bond assigned
  obtain ⟨attributes, given⟩ := Option.isSome_iff_exists.mp (bound.template id name depth purpose)
  obtain ⟨known, here⟩ := fits.page.known_of_attributes given
  obtain ⟨copied, grows, carried⟩ := Dom.copy_grows fits.page.forest fits.page.ordered known
  obtain ⟨root, data, home, dataOf, seen, on⟩ := atHome
  let place : Home := ⟨root, bond.bindings.insert name item⟩
  have stamped : chart.Stamped bond.element (.element id) place :=
    ⟨effect, bond, name, depth, item, _, assigned, rfl, purpose, home, rfl, rfl⟩
  have settles := settles_withTree fits.page grows (some place)
  have top : (chart.withTree (world.dom.copy (.element id)).2 world.dom.size (some place)).home
      ⟨world.dom.size⟩ = some place :=
    (home_withTree_of_le (Nat.le_refl _)).trans Binder.lodge_top
  refine ⟨_, _, copied, rfl, grows, settles.fits fits (fits.page.grow grows ?_ ?_),
    .grow fits.page grows (some place), ⟨root, data, top, dataOf, seen, on⟩, fun home same => ?_⟩
  · intro _ same entry member
    obtain rfl := Option.some.inj same
    rcases Assoc.mem_put member with old | rfl
    · exact fits.page.held bond.element _ home entry old
    · rw [on]
      exact held
  · intro _ same declares
    obtain rfl := Option.some.inj same
    rw [carried, here] at declares
    exact .inr ⟨bond.element, id, attributes, stamped, given, declares⟩
  · obtain rfl := Option.some.inj (top.symm.trans same)
    exact stamped.mono settles.le

/-- A copy is made, bound with its item, and put in its place. -/
theorem Keeps.stampOne {item : Value} (held : chart.Held k item) :
    chart.Keeps runner k (Binder.stampOne bindCopy bond.element template name bond.scope
      bond.bindings item) fun _ _ => True := by
  cases kind : template with
  | text content => exact .stampText atHome content item
  | element id =>
      intro world fits framed
      obtain ⟨lodged, placed, made⟩ := fits.copy assigned purpose atHome kind held
      obtain ⟨done, between, more, ends, fitsBetween, spares, -⟩ := tree lodged k _ _ _ made.atHome _
        made.fits (framed.mono made.spares.le (made.spares.stack _))
      have see : (Page.see fun dom => (dom.copy (.element id)).1).Ends runner world
          (.ok (.element ⟨world.dom.size⟩)) world := by
        rw [← made.copied]
        exact .survey _ world
      have edit : (Page.edit fun dom => (dom.copy (.element id)).2).Ends runner world (.ok ())
          placed := by
        rw [made.edited]
        exact .alter _ world
      have fitting : between.dom.Fitting bond.element ⟨world.dom.size⟩ := by
        refine ⟨atHome.known fits.page, Nat.lt_of_lt_of_le made.grows.size spares.size, ?_⟩
        -- whoever has the copy as a child had it when it was made
        cases above : between.dom.parent ⟨world.dom.size⟩ with
        | none => rfl
        | some parent =>
            have listed := spares.listed ⟨world.dom.size⟩ parent made.grows.size
              ((fitsBetween.page.forest.linked _ _).mp above)
            have link := (made.grows.forest.linked _ _).mpr listed
            rw [made.grows.top] at link
            contradiction
      have repeats := (fitsBetween.effects.bonds effect bond
        (spares.le.bond _ _ (made.spares.le.bond _ _ assigned))).repeats purpose fitsBetween.page
      have stamped (home : Home) (given : more.home ⟨world.dom.size⟩ = some home) :
          ∃ template, more.Stamped bond.element template home := by
        rw [spares.home ⟨world.dom.size⟩ made.grows.size] at given
        exact ⟨_, (made.stamped home given).mono spares.le⟩
      exact ⟨.ok (), _, more, see.bind (edit.bind (ends.bind (.alter _ between))),
        (Settles.refl more).fits fitsBetween (fitsBetween.page.append fitting repeats stamped),
        (made.spares.trans spares).append atHome fitting (Nat.le_refl _), fun _ _ => trivial⟩

theorem Keeps.stampAll (items : List Value) (held : ∀ item ∈ items, chart.Held k item) :
    chart.Keeps runner k (Binder.stampAll bindCopy bond.element template name bond.scope
      bond.bindings items) fun _ _ => True := by
  induction items generalizing chart with
  | nil => exact .pure trivial
  | cons item rest ih =>
      rw [List.forall_mem_cons] at held
      rw [Binder.stampAll_cons]
      refine (Keeps.stampOne tree assigned purpose atHome held.1).bind fun more _ le _ => ?_
      exact ih (le.bond _ _ assigned) (atHome.mono le) fun other member => (held.2 other member).mono le

/-- What the effect of a `for` directive does stays on its side. -/
theorem Keeps.stamp (runs : KeepsRuns binder side runner) :
    chart.Keeps runner k (Binder.stamp bindCopy bond.element template name bond.expr bond.scope
      bond.bindings) fun _ _ => True := by
  refine (Keeps.clear atHome).bind fun first _ le _ => ?_
  refine (Keeps.eval runs (atHome.mono le) bond.expr).bind fun second value later held => ?_
  have found : second.Keeps runner k (TaskM.look fun heap => heap.array? value)
      fun more list => ∀ id, list = some id → more.container id = some k := by
    refine .look fun heap _ id same => ?_
    rw [(Heap.eq_of_array? same).1] at held
    exact held
  refine found.bind fun third list again inside => ?_
  cases list with
  | none => exact .pure trivial
  | some list =>
      have items : third.Keeps runner k (TaskM.watch fun heap => heap.items list)
          fun more items => ∀ item ∈ items, more.Held k item :=
        .watch fun heap fits => fits.items (inside list rfl)
      refine items.bind fun fourth items still all => ?_
      have le := ((le.trans later).trans again).trans still
      refine (Keeps.stampAll tree (le.bond _ _ assigned) purpose (atHome.mono le) items all).bind
        fun _ _ _ _ => .pure trivial

end Stamp

/-- What the effect of any directive does stays on its side. -/
theorem Keeps.task (runs : KeepsRuns binder side runner)
    (tree : ∀ depth, KeepsTree binder side runner (binder.bindWithin depth)) {effect : EffectId}
    (assigned : chart.bond effect = some bond)
    (atHome : chart.AtHome k bond.element bond.scope bond.bindings) :
    chart.Keeps runner k (bond.task binder) fun _ _ => True := by
  unfold Bond.task
  cases purpose : bond.purpose with
  | text =>
      refine (Keeps.eval runs atHome bond.expr).bind fun more value le held => ?_
      have shown : more.Keeps runner k (TaskM.watch fun heap => heap.shownText value)
          fun _ _ => True :=
        .watch fun heap fits => Heap.shownText_stays (fits.encloses k) held.inside
      refine shown.bind fun most text later _ => ?_
      exact (Keeps.setText ((atHome.mono le).mono later) text).bind fun _ _ _ _ => .pure trivial
  | visible =>
      refine (Keeps.eval runs atHome bond.expr).bind fun more value le _ => ?_
      exact (Keeps.setStyle (atHome.mono le) _ _).bind fun _ _ _ _ => .pure trivial
  | repeated template name depth =>
      exact .stamp (tree depth) assigned purpose atHome runs

/-! ## Directives -/

section Bind

variable (runs : KeepsRuns binder side runner) (tracker : binder.tracker = ⟨0⟩)
  {element : ElementId} {scope : Scope} {bindings : Bindings}
  {attributes : Assoc String String}

theorem Keeps.ofEval {α : Type} (result : Except EvalFault α) :
    chart.Keeps runner k (TaskM.ofEval result) fun _ a => result = .ok a := by
  refine .ofExcept _ fun a same => ?_
  cases result with
  | error fault => contradiction
  | ok b => exact congrArg Except.ok (Except.ok.inj same)

include runs tracker

/-- A directive becomes an effect where its element was put. -/
theorem Keeps.attach {directive : Directive} (expr : Expr) (purpose : Purpose) (descent : Descent)
    (given : chart.attributes element = some attributes)
    (member : directive ∈ binder.directives attributes.entries)
    (atHome : chart.AtHome k element scope bindings)
    (serves : Bond.Serves ⟨element, scope, bindings, expr, purpose⟩ directive)
    (template : ∀ template name depth, purpose = .repeated (.element template) name depth →
      (chart.attributes template).isSome)
    (claims : descent = .children → directive.kind ≠ .repeated) :
    chart.Keeps runner k
      (do
        let _ ← TaskM.createEffect binder.tracker
          (Bond.task binder ⟨element, scope, bindings, expr, purpose⟩)
        return descent)
      fun _ descent => descent = .children → directive.kind ≠ .repeated := by
  rw [tracker]
  have bound : chart.Bound ⟨element, scope, bindings, expr, purpose⟩ :=
    ⟨⟨k, atHome⟩, ⟨attributes, given, directive, member, serves⟩, template⟩
  exact (Keeps.createEffect runs bound atHome).bind fun _ _ _ _ => .pure claims

/-- The template of a `for` directive is taken away and stamped where the element was put. -/
theorem Keeps.bindRepeat (depth : Nat) (given : chart.attributes element = some attributes)
    {directive : Directive} (member : directive ∈ binder.directives attributes.entries)
    (atHome : chart.AtHome k element scope bindings) (kind : directive.kind = .repeated) :
    chart.Keeps runner k (binder.bindRepeat (binder.bindWithin depth) element directive scope
      bindings) fun _ descent => descent = .children → directive.kind ≠ .repeated := by
  unfold Binder.bindRepeat
  have split : chart.Keeps runner k
      (TaskM.ofExcept ((Directive.splitRepeat directive.expression).mapError Fault.directive))
      fun _ parts => Directive.splitRepeat directive.expression = .ok parts := by
    refine .ofExcept _ fun parts same => ?_
    cases found : Directive.splitRepeat directive.expression with
    | error fault => rw [found] at same; contradiction
    | ok others => rw [found] at same; exact congrArg Except.ok (Except.ok.inj same)
  refine split.bind fun first parts le read => ?_
  obtain ⟨name, source⟩ := parts
  refine (Keeps.ofEval _).bind fun second expr later parsed => ?_
  have first : second.Keeps runner k (Page.see fun dom => (dom.takeFirst element).1)
      fun more found => ∀ id, found = some (.element id) → (more.attributes id).isSome :=
    .see fun page fits id found => fits.first_known found
  refine first.bind fun third found again known => ?_
  cases found with
  | none => exact .pure fun same => nomatch same
  | some template =>
      have le := (le.trans later).trans again
      refine (Keeps.takeFirst (atHome.mono le)).bind fun fourth _ still _ => ?_
      refine Keeps.attach runs tracker expr (.repeated template name depth) .claimed
        ((le.trans still).attributes _ _ given) member (atHome.mono (le.trans still))
        ⟨kind, Directive.demand?_of_split kind read parsed⟩ ?_ fun same => nomatch same
      intro id _ _ same
      obtain ⟨attributes, there⟩ := Option.isSome_iff_exists.mp
        (known id (congrArg some (Purpose.repeated.inj same).1))
      exact Option.isSome_iff_exists.mpr ⟨attributes, still.attributes _ _ there⟩

omit runs in
/-- The expression of an `on` directive becomes a listener where the element was put. -/
theorem Keeps.bindOn (given : chart.attributes element = some attributes)
    {directive : Directive} (member : directive ∈ binder.directives attributes.entries)
    (atHome : chart.AtHome k element scope bindings) (kind : directive.kind = .on) :
    chart.Keeps runner k (binder.bindOn element directive scope bindings)
      fun _ descent => descent = .children → directive.kind ≠ .repeated := by
  have plain : directive.kind ≠ .repeated := by simp [kind]
  have listen (more : Chart binder side) (le : chart.Le more) : more.Keeps runner k
      (do
        let expr ← TaskM.ofEval (Expr.parse directive.expression)
        let handler : Handler := ⟨binder.tracker, expr, scope, bindings,
          directive.hasModifier "prevent", directive.hasModifier "stop"⟩
        Page.edit fun dom => dom.listen element (directive.argument.getD "") handler
        return Descent.children)
      fun _ descent => descent = .children → directive.kind ≠ .repeated := by
    refine (Keeps.ofEval _).bind fun most expr later parsed => ?_
    have le := le.trans later
    have serves := Directive.demand?_of_parse plain parsed
    refine (Keeps.listen _ _ tracker (atHome.mono le) ⟨attributes, le.attributes _ _ given,
      directive, member, kind, rfl, serves⟩).bind fun _ _ _ _ => .pure fun _ => plain
  unfold Binder.bindOn
  dsimp only
  split
  · have failed : chart.Keeps runner k
        (TaskM.fail (.directive .missingEventName) : TaskM Page PUnit) fun _ _ => True := .fail _
    exact failed.bind fun more _ le _ => listen more le
  · exact listen chart (.refl chart)

/-- A directive is bound where its element was put; only a `for` directive claims the children. -/
theorem Keeps.bindDirective (depth : Nat) (given : chart.attributes element = some attributes)
    {directive : Directive} (member : directive ∈ binder.directives attributes.entries)
    (atHome : chart.AtHome k element scope bindings) :
    chart.Keeps runner k (binder.bindDirective (binder.bindWithin depth) element directive scope
      bindings) fun _ descent => descent = .children → directive.kind ≠ .repeated := by
  unfold Binder.bindDirective
  cases kind : directive.kind with
  | data => exact .pure fun _ => by simp
  | unknown => exact .pure fun _ => by simp
  | text =>
      have plain : directive.kind ≠ .repeated := by simp [kind]
      refine (Keeps.ofEval _).bind fun more expr le parsed => kind ▸ ?_
      exact Keeps.attach runs tracker expr .text .children (le.attributes _ _ given) member
        (atHome.mono le) ⟨kind, Directive.demand?_of_parse plain parsed⟩
        (fun _ _ _ same => nomatch same) fun _ => plain
  | visible =>
      have plain : directive.kind ≠ .repeated := by simp [kind]
      refine (Keeps.ofEval _).bind fun more expr le parsed => kind ▸ ?_
      exact Keeps.attach runs tracker expr .visible .children (le.attributes _ _ given) member
        (atHome.mono le) ⟨kind, Directive.demand?_of_parse plain parsed⟩
        (fun _ _ _ same => nomatch same) fun _ => plain
  | on =>
      have bound : chart.Keeps runner k _ _ := .bindOn tracker given member atHome kind
      rw [kind] at bound
      exact bound
  | repeated =>
      have bound := Keeps.bindRepeat runs tracker depth given member atHome kind
      rw [kind] at bound
      exact bound

/-- Directives are bound one after another.  The children are left to be bound only if none of the
directives is a `for` directive, well formed or not. -/
theorem Completes.bindDirectives (depth : Nat) (given : chart.attributes element = some attributes)
    (atHome : chart.AtHome k element scope bindings) (descent : Descent)
    {entries : List (String × String)} (among : entries ⊆ attributes.entries) :
    chart.Completes runner k (binder.bindDirectives (binder.bindWithin depth) element scope bindings
      descent entries) fun _ result => result = .children → descent = .children ∧
        ∀ directive ∈ binder.directives entries, directive.kind ≠ .repeated := by
  induction entries generalizing chart descent with
  | nil => exact .pure fun same => ⟨same, fun _ listed => absurd listed List.not_mem_nil⟩
  | cons entry rest ih =>
      obtain ⟨name, value⟩ := entry
      have inside := List.subset_of_cons_subset among
      unfold Binder.bindDirectives
      cases found : Directive.ofAttribute? binder.attributePrefix name value with
      | none =>
          have same : binder.directives ((name, value) :: rest) = binder.directives rest :=
            List.filterMap_cons_none found
          rw [same]
          exact ih given atHome descent inside
      | some directive =>
          have row : binder.directives ((name, value) :: rest) =
              directive :: binder.directives rest := List.filterMap_cons_some found
          have member : directive ∈ binder.directives attributes.entries :=
            List.mem_filterMap.mpr ⟨(name, value), among List.mem_cons_self, found⟩
          have bound := (Keeps.bindDirective runs tracker depth given member atHome).attempt
          have later (more : Chart binder side) (le : chart.Le more) (next : Descent)
              (served : next = .children → descent = .children ∧ directive.kind ≠ .repeated) :
              more.Completes runner k (binder.bindDirectives (binder.bindWithin depth) element scope
                bindings next rest) fun _ result => result = .children → descent = .children ∧
                  ∀ directive ∈ binder.directives ((name, value) :: rest),
                    directive.kind ≠ .repeated := by
            refine (ih (le.attributes _ _ given) (atHome.mono le) next inside).imp
              fun _ result holds left => ?_
            obtain ⟨same, others⟩ := holds left
            obtain ⟨before, plain⟩ := served same
            rw [row]
            exact ⟨before, List.forall_mem_cons.mpr ⟨plain, others⟩⟩
          refine bound.bind fun more result le claims => ?_
          cases result with
          | ok next =>
              cases next with
              | claimed => exact later more le .claimed fun same => nomatch same
              | children => exact later more le descent fun same => ⟨same, claims _ rfl rfl⟩
          | error fault =>
              rw [tracker]
              refine (Completes.report fault).bind fun most _ after _ => ?_
              refine later most (le.trans after) _ fun same => ?_
              split at same
              · contradiction
              next plain => exact ⟨same, plain⟩

omit runs tracker in
/-- Children that declare data are left alone, and the others are bound where they were put. -/
theorem Completes.bindChildren {bindChild : Binder.SubtreeBinder}
    (tree : KeepsTree binder side runner bindChild) {children : List ElementId}
    (homes : ∀ child ∈ children, ∃ attributes, chart.attributes child = some attributes ∧
      (binder.declares attributes = false → chart.AtHome k child scope bindings)) :
    chart.Completes runner k (binder.bindChildren bindChild scope bindings children)
      fun _ _ => True := by
  induction children generalizing chart with
  | nil => exact .pure trivial
  | cons child rest ih =>
      rw [List.forall_mem_cons] at homes
      obtain ⟨⟨attributes, given, undeclared⟩, others⟩ := homes
      have carry {more : Chart binder side} (le : chart.Le more) : ∀ child ∈ rest,
          ∃ attributes, more.attributes child = some attributes ∧
            (binder.declares attributes = false → more.AtHome k child scope bindings) := by
        intro child member
        obtain ⟨attributes, given, undeclared⟩ := others child member
        exact ⟨attributes, le.attributes _ _ given, fun plain => (undeclared plain).mono le⟩
      have see : chart.Completes runner k
          (Page.see fun dom => dom.hasAttribute child binder.dataAttribute)
          fun _ found => found = binder.declares attributes := by
        refine .see fun page fits => ?_
        rw [← (fits.known_of_attributes given).2]
        rfl
      refine see.bind fun more found le same => ?_
      dsimp only
      split
      · have nothing : more.Completes runner k (Pure.pure ()) fun _ _ => True := .pure trivial
        exact nothing.bind fun _ _ later _ => ih (carry (le.trans later))
      next plain =>
        have plain : binder.declares attributes = false := by rw [← same, Bool.eq_false_iff.mpr plain]
        exact (tree more k child scope bindings ((undeclared plain).mono le)).bind
          fun _ _ later _ => ih (carry (le.trans later))

/-- Binding an element keeps to the side of its root, however far down. -/
theorem keepsTree (depth : Nat) : KeepsTree binder side runner (binder.bindWithin depth) := by
  induction depth with
  | zero => exact fun _ _ _ _ _ _ => .pure trivial
  | succ depth ih =>
      intro chart k element scope bindings atHome
      unfold Binder.bindWithin
      have see : chart.Completes runner k (Page.see fun dom => (dom.element element).attributes.entries)
          fun more entries => ∃ attributes, more.attributes element = some attributes ∧
            entries = attributes.entries :=
        .see fun page fits => ⟨_, fits.attributes_of_known (atHome.known fits), rfl⟩
      refine see.bind fun first entries le shown => ?_
      obtain ⟨attributes, given, rfl⟩ := shown
      refine (Completes.bindDirectives runs tracker depth given (atHome.mono le) .children
        (List.Subset.refl _)).bind fun second descent later left => ?_
      cases descent with
      | claimed => exact .pure trivial
      | children =>
          have atHome := (atHome.mono le).mono later
          have plain : binder.repeats attributes = false :=
            List.any_eq_false.mpr fun directive member =>
              fun repeated => (left rfl).2 directive member (of_decide_eq_true repeated)
          have see : second.Completes runner k (Page.see fun dom => dom.childElements element)
              fun more children => ∀ child ∈ children, ∃ attributes,
                more.attributes child = some attributes ∧
                  (binder.declares attributes = false → more.AtHome k child scope bindings) := by
            refine .see fun page fits child listed => ?_
            have known := Dom.known_of_child fits.ordered listed
            refine ⟨_, fits.attributes_of_known known, fun undeclared => ?_⟩
            obtain ⟨root, data, home, rest⟩ := atHome
            have same := (fits.known_of_attributes (later.attributes _ _ given)).2
            have inner := fits.inner element (same ▸ plain) child listed
            rw [undeclared, if_neg Bool.false_ne_true, home] at inner
            exact ⟨root, data, inner, rest⟩
          exact see.bind fun third children again homes => .bindChildren ih homes

end Bind

/-! ## Runs of effects -/

/-- A world in which a run of an effect has been counted. -/
def counted (effect : EffectId) (world : World Page) : World Page :=
  world.mapStore fun store => { store with runs := store.runs.modify effect.index (· + 1) }

theorem Fits.counted (fits : chart.Fits world) (effect : EffectId) :
    chart.Fits (Chart.counted effect world) where
  heap := fits.heap
  readers := fits.readers
  page := fits.page
  effects := ⟨fits.effects.bodies, (Array.size_modify ..).trans fits.effects.runs, fits.effects.bonds⟩

/-- To the other sides it makes no difference that a run is counted. -/
theorem Spares.of_counted {effect : EffectId} {after : World Page} (own : chart.Of k effect)
    (spares : Spares k chart (counted effect world) more after) : Spares k chart world more after :=
  { spares with
    runs := fun other there ofOther differs => by
      have apart : effect.index ≠ other.index := by
        intro same
        obtain rfl : effect = other := congrArg EffectId.mk same
        exact differs (own.unique ofOther)
      refine (spares.runs other there ofOther differs).trans ?_
      change (world.store.runs.modify effect.index _)[other.index]?.getD 0 = _
      rw [Array.getElem?_modify, if_neg apart, Store.runCount] }

/-- A run of an effect, with all that it triggers, keeps to the side that the effect is of. -/
theorem keepsRuns (tracker : binder.tracker = ⟨0⟩) (bound : Nat) :
    KeepsRuns binder side (World.runEffect bound) := by
  induction bound with
  | zero =>
      intro chart k effect world fits _
      have nothing : (World.runEffect 0 ⟨0⟩ effect world).2 = world := by
        rw [World.runEffect]
        split <;> rfl
      rw [nothing]
      exact ⟨chart, fits, .refl k chart world⟩
  | succ bound ih =>
      intro chart k effect world fits own
      obtain ⟨bond, assigned, atHome⟩ := own
      have own : chart.Of k effect := ⟨bond, assigned, atHome⟩
      obtain ⟨result, after, more, ends, fitsAfter, spares, -⟩ :=
        Keeps.task ih (keepsTree ih tracker) assigned atHome _
          ((fits.counted effect).enter (some effect))
          (framed_enter _ fun other same => Option.some.inj same ▸ own)
      have ran : World.interpret (World.runEffect bound) (world.body effect)
          (world.begin ⟨0⟩ effect) = (result, after) := by
        rw [World.body, fits.effects.known assigned, Option.getD_some]
        exact ends .done
      cases refused : world.refusal? ⟨0⟩ effect with
      | some fault =>
          have nothing : (World.runEffect (bound + 1) ⟨0⟩ effect world).2 = world := by
            rw [World.runEffect]
            simp only [refused]
          rw [nothing]
          exact ⟨chart, fits, .refl k chart world⟩
      | none =>
          have left : (World.runEffect (bound + 1) ⟨0⟩ effect world).2 = after.leave ⟨0⟩ := by
            rw [World.runEffect]
            simp only [refused, ran]
          rw [left]
          exact ⟨more, fitsAfter.leave, spares.within.of_counted own⟩

end Chart

end LiveMarkup
