import LiveMarkup.Proofs.Document.Trim
import LiveMarkup.Proofs.Page.Side

/-!
# Homes in a changing document

Directives trim elements that are at home where they were bound, listen there, and put new copies of
templates below them.  Each new element gets its home when it is made: that of its parent, or its
own if it declares data.  So charts stay right whatever directives do to the document.
-/

namespace LiveMarkup

namespace Dom

variable {ℓ : Type} {dom : Dom ℓ}

theorem known_of_child {id parent : ElementId} (ordered : dom.Ordered)
    (listed : id ∈ dom.childElements parent) : id.index < dom.size :=
  (ordered parent id (mem_childElements.mp listed)).2

end Dom

namespace Binder

variable {binder : Binder}

/-! ## Homes by place -/

/-- The home of an element of a tree, given that of the top of the tree.  An element that declares
data is at home with itself, a child of an element with a `for` directive nowhere, and any other one
where its parent is. -/
def lodge {ℓ : Type} (binder : Binder) (dom : Dom ℓ) (top : ElementId) (given : Option Home)
    (id : ElementId) : Option Home :=
  if id = top then given
  else if binder.declares (dom.face id).attributes then some (.own id)
  else
    match dom.parent id with
    | none => none
    | some parent =>
        if _earlier : parent.index < id.index then
          if binder.repeats (dom.face parent).attributes then none
          else binder.lodge dom top given parent
        else none
termination_by id.index

section Lodge

variable {ℓ : Type} {dom : Dom ℓ} {top : ElementId} {given : Option Home}

theorem lodge_top : binder.lodge dom top given top = given := by
  rw [lodge, if_pos rfl]

/-- Where a child is put follows from where its parent is. -/
theorem lodge_child (forest : dom.Forest) (ordered : dom.Ordered) {id parent : ElementId}
    (listed : id ∈ dom.childElements parent) (differs : id ≠ top) :
    binder.lodge dom top given id =
      if binder.declares (dom.face id).attributes then some (.own id)
      else if binder.repeats (dom.face parent).attributes then none
      else binder.lodge dom top given parent := by
  have link := (forest.linked id parent).mpr listed
  have earlier := (ordered parent id (Dom.mem_childElements.mp listed)).1
  rw [lodge, if_neg differs, link]
  simp only [earlier, dite_true]

/-- Every home that is given by place is that of the top or an element's own. -/
theorem lodge_cases {id : ElementId} {home : Home}
    (lodged : binder.lodge dom top given id = some home) :
    given = some home ∨ ∃ other, home = .own other := by
  induction id using lodge.induct binder dom top with
  | case1 => exact .inl (lodge_top.symm.trans lodged)
  | case2 id differs declares =>
      rw [lodge, if_neg differs, if_pos declares] at lodged
      exact .inr ⟨id, (Option.some.inj lodged).symm⟩
  | case3 id differs undeclared link =>
      rw [lodge, if_neg differs, if_neg undeclared, link] at lodged
      contradiction
  | case4 id differs undeclared parent link earlier repeats =>
      rw [lodge, if_neg differs, if_neg undeclared, link] at lodged
      simp only [earlier, dite_true, repeats, if_true] at lodged
      contradiction
  | case5 id differs undeclared parent link earlier repeats ih =>
      rw [lodge, if_neg differs, if_neg undeclared, link] at lodged
      simp only [earlier, dite_true, repeats] at lodged
      exact ih lodged
  | case6 id differs undeclared parent link later =>
      rw [lodge, if_neg differs, if_neg undeclared, link] at lodged
      simp only [later, dite_false] at lodged
      contradiction

theorem known_of_declares {id : ElementId} (declares : binder.declares (dom.face id).attributes = true) :
    id.index < dom.size := by
  apply Nat.lt_of_not_le
  intro missing
  rw [Dom.face, Dom.element_of_size_le missing] at declares
  exact Bool.false_ne_true declares

theorem lodge_known (forest : dom.Forest) (ordered : dom.Ordered) (there : top.index < dom.size)
    {id : ElementId} {home : Home} (lodged : binder.lodge dom top given id = some home) :
    id.index < dom.size := by
  by_cases same : id = top
  · exact same ▸ there
  · rw [lodge, if_neg same] at lodged
    split at lodged
    next declares => exact known_of_declares declares
    next =>
      split at lodged
      · contradiction
      next parent link => exact Dom.known_of_child ordered ((forest.linked id parent).mp link)

end Lodge

end Binder

namespace Chart

variable {κ : Type} {binder : Binder} {side : ElementId → κ} {chart more : Chart binder side} {k : κ}
  {runner : World.Runner Page} {world : World Page} {page : Page}

/-! ## Steps that change only the document -/

/-- Whether nothing was recorded between two charts but elements. -/
structure Settles (chart more : Chart binder side) : Prop where
  le : chart.Le more
  container : more.container = chart.container
  function : more.function = chart.function
  bond : more.bond = chart.bond

theorem Settles.refl (chart : Chart binder side) : chart.Settles chart :=
  ⟨.refl chart, rfl, rfl, rfl⟩

theorem Settles.fits (settles : chart.Settles more) (fits : chart.Fits world)
    (fitsPage : more.FitsPage page) : more.Fits { world with surroundings := page } where
  heap := fits.heap.mono settles.le settles.container settles.function
  readers := fits.readers.mono settles.le
  page := fitsPage
  effects :=
    { bodies := (fits.effects.mono settles.le settles.bond).bodies
      runs := fits.effects.runs
      bonds := (fits.effects.mono settles.le settles.bond).bonds }

theorem FitsPage.known_of_attributes (fits : chart.FitsPage page) {id : ElementId}
    {attributes : Assoc String String} (given : chart.attributes id = some attributes) :
    id.index < page.dom.size ∧ (page.dom.face id).attributes = attributes := by
  rw [fits.attributes] at given
  split at given
  next known => exact ⟨known, Option.some.inj given⟩
  next => contradiction

theorem FitsPage.attributes_of_known (fits : chart.FitsPage page) {id : ElementId}
    (known : id.index < page.dom.size) :
    chart.attributes id = some (page.dom.face id).attributes := by
  rw [fits.attributes, if_pos known]

theorem AtHome.known (fits : chart.FitsPage page) {id : ElementId} {scope : Scope}
    {bindings : Bindings} (atHome : chart.AtHome k id scope bindings) : id.index < page.dom.size := by
  obtain ⟨root, data, home, _⟩ := atHome
  exact fits.known id _ home

/-- What trims an element that is at home on a side stays on that side. -/
theorem FitsPage.trim (fits : chart.FitsPage page) {dom : Dom Handler} {id : ElementId}
    (trims : page.dom.Trims dom id)
    (listeners : ∀ id, ∀ listener ∈ (dom.element id).listeners, chart.Listens id listener) :
    chart.FitsPage { page with dom := dom } where
  forest := trims.forest
  ordered := trims.ordered
  attributes other := by
    rw [fits.attributes other, trims.size, trims.attributes other]
  known other home given := by
    rw [trims.size]
    exact fits.known other home given
  held := fits.held
  inner parent plain other listed := by
    rw [trims.attributes] at plain ⊢
    exact fits.inner parent plain other (trims.children parent listed)
  stamped parent repeats other listed := by
    rw [trims.attributes] at repeats ⊢
    exact fits.stamped parent repeats other (trims.children parent listed)
  declared other home given declares := by
    rw [trims.attributes] at declares
    exact fits.declared other home given declares
  listeners := listeners
  roots := fits.roots
  data := fits.data

theorem FitsPage.listeners_of_same (fits : chart.FitsPage page) {dom : Dom Handler}
    (same : page.dom.SameListeners dom) :
    ∀ id, ∀ listener ∈ (dom.element id).listeners, chart.Listens id listener := by
  intro id listener member
  rw [same] at member
  exact fits.listeners id listener member

theorem AtHome.apart {id other : ElementId} {scope : Scope} {bindings : Bindings}
    (atHome : chart.AtHome k id scope bindings)
    (apart : ∀ home, chart.home other = some home → side home.root ≠ k) : other ≠ id := by
  rintro rfl
  obtain ⟨root, data, home, _, _, on⟩ := atHome
  exact apart _ home on

section Edits

variable {id : ElementId} {scope : Scope} {bindings : Bindings}
  (atHome : chart.AtHome k id scope bindings)

include atHome

theorem Keeps.edit {change : Dom Handler → Dom Handler}
    (trims : ∀ page, chart.FitsPage page → page.dom.Trims (change page.dom) id)
    (listeners : ∀ page, chart.FitsPage page →
      ∀ id, ∀ listener ∈ ((change page.dom).element id).listeners, chart.Listens id listener)
    (heard : ∀ (dom : Dom Handler) id,
      (dom.element id).listeners ⊆ ((change dom).element id).listeners) :
    chart.Keeps runner k (Page.edit change) fun _ _ => True := by
  intro world fits _
  have trim := trims _ fits.page
  refine ⟨_, _, chart, .alter _ world,
    (Settles.refl chart).fits fits (fits.page.trim trim (listeners _ fits.page)), ?_,
    fun _ _ => trivial⟩
  exact
    { Spares.refl k chart world with
      size := Nat.le_of_eq trim.size.symm
      face := fun other _ apart => trim.elsewhere other (atHome.apart apart)
      listed := fun other parent _ listed => trim.children parent listed
      heard := heard world.dom }

/-- Trimming without listening. -/
theorem Keeps.trim {change : Dom Handler → Dom Handler}
    (trims : ∀ page, chart.FitsPage page → page.dom.Trims (change page.dom) id)
    (same : ∀ dom : Dom Handler, dom.SameListeners (change dom)) :
    chart.Keeps runner k (Page.edit change) fun _ _ => True :=
  .edit atHome trims (fun _ fits => fits.listeners_of_same (same _)) fun dom id _ member => by
    rw [same dom id]
    exact member

theorem Keeps.setText (text : String) :
    chart.Keeps runner k (Page.edit fun dom => dom.setText id text) fun _ _ => True :=
  .trim atHome (fun _ fits => .setText fits.forest fits.ordered (atHome.known fits) text)
    fun dom => dom.sameListeners_setText id text

theorem Keeps.setStyle (property value : String) :
    chart.Keeps runner k (Page.edit fun dom => dom.setStyle id property value) fun _ _ => True :=
  .trim atHome (fun _ fits => .setStyle fits.forest fits.ordered (atHome.known fits) property value)
    fun dom => dom.sameListeners_modify id fun _ => rfl

theorem Keeps.clear : chart.Keeps runner k (Page.edit fun dom => dom.clear id) fun _ _ => True :=
  .trim atHome (fun _ fits => .clear fits.forest fits.ordered (atHome.known fits))
    fun dom => dom.sameListeners_clear id

theorem Keeps.takeFirst :
    chart.Keeps runner k (Page.edit fun dom => (dom.takeFirst id).2) fun _ _ => True :=
  .trim atHome (fun _ fits => .takeFirst fits.forest fits.ordered (atHome.known fits))
    fun dom => dom.sameListeners_takeFirst id

theorem Keeps.appendText (text : String) :
    chart.Keeps runner k (Page.edit fun dom => dom.append id (.text text)) fun _ _ => True :=
  .trim atHome (fun _ fits => .appendText fits.forest fits.ordered (atHome.known fits) text)
    fun dom => dom.sameListeners_append id _

end Edits

/-- A directive listens where its element was put. -/
theorem Keeps.listen {id : ElementId} (kind : String) (handler : Handler)
    (tracker : handler.tracker = ⟨0⟩)
    (atHome : chart.AtHome k id handler.scope handler.bindings)
    (directive : ∃ attributes, chart.attributes id = some attributes ∧
      ∃ directive ∈ binder.directives attributes.entries, handler.Serves kind directive) :
    chart.Keeps runner k (Page.edit fun dom => dom.listen id kind handler) fun _ _ => True := by
  refine .edit atHome
    (fun _ fits => .listen fits.forest fits.ordered (atHome.known fits) kind handler)
    (fun page fits other listener member => ?_) fun dom other listener member => ?_
  · rw [Dom.listen, Dom.element_modify] at member
    split at member
    next here =>
      rcases List.mem_append.mp member with old | new
      · exact fits.listeners other listener old
      · rw [List.mem_singleton.mp new, here.1]
        exact ⟨tracker, ⟨k, atHome⟩, directive⟩
    next => exact fits.listeners other listener member
  · rw [Dom.listen, Dom.element_modify]
    split
    · exact List.mem_append_left _ member
    · exact member

/-- The first child of an element that is there is there. -/
theorem FitsPage.first_known (fits : chart.FitsPage page) {id template : ElementId}
    (first : (page.dom.takeFirst id).1 = some (.element template)) :
    (chart.attributes template).isSome := by
  have listed : Child.element template ∈ (page.dom.element id).children := by
    rw [Dom.takeFirst] at first
    split at first
    · contradiction
    next rest children =>
      rw [children, ← Option.some.inj first]
      exact List.mem_cons_self
  rw [fits.attributes, if_pos (fits.ordered id template listed).2]
  rfl

/-! ## New trees -/

/-- Records the elements of a new tree, which begins behind the old elements with the given home for
its top. -/
def withTree (chart : Chart binder side) (dom : Dom Handler) (old : Nat) (given : Option Home) :
    Chart binder side :=
  { chart with
    attributes := fun id => if id.index < dom.size then some (dom.face id).attributes else none
    home := fun id => if id.index < old then chart.home id else binder.lodge dom ⟨old⟩ given id }

section Grows

variable {dom : Dom Handler} {given : Option Home}

theorem home_withTree_of_lt {id : ElementId} {size : Nat} (old : id.index < size) :
    (chart.withTree dom size given).home id = chart.home id := if_pos old

theorem home_withTree_of_le {id : ElementId} {size : Nat} (new : size ≤ id.index) :
    (chart.withTree dom size given).home id = binder.lodge dom ⟨size⟩ given id :=
  if_neg (Nat.not_lt.mpr new)

/-- The home of an element was there or is given by its place in the new tree. -/
theorem home_withTree_cases {id : ElementId} {size : Nat} {home : Home}
    (lodged : (chart.withTree dom size given).home id = some home) :
    id.index < size ∧ chart.home id = some home ∨
      size ≤ id.index ∧ binder.lodge dom ⟨size⟩ given id = some home := by
  rcases Nat.lt_or_ge id.index size with old | new
  · exact .inl ⟨old, (home_withTree_of_lt old).symm.trans lodged⟩
  · exact .inr ⟨new, (home_withTree_of_le new).symm.trans lodged⟩

variable (fits : chart.FitsPage page) (grows : page.dom.Grows dom)

include fits grows

theorem settles_withTree (given : Option Home) :
    chart.Settles (chart.withTree dom page.dom.size given) where
  le :=
    { Le.refl chart with
      attributes := fun id attributes same => by
        obtain ⟨known, here⟩ := fits.known_of_attributes same
        simp only [withTree, if_pos (Nat.lt_trans known grows.size), grows.face id known, here]
      home := fun id home same => by
        rw [home_withTree_of_lt (fits.known id home same), same] }
  container := rfl
  function := rfl
  bond := rfl

/-- A child in the new document was there with its parent, or both are new. -/
theorem FitsPage.child_cases {id parent : ElementId} (listed : id ∈ dom.childElements parent) :
    (id ∈ page.dom.childElements parent ∧ dom.face parent = page.dom.face parent ∧
        dom.face id = page.dom.face id ∧
        (chart.withTree dom page.dom.size given).home parent = chart.home parent ∧
        (chart.withTree dom page.dom.size given).home id = chart.home id) ∨
      (chart.withTree dom page.dom.size given).home id =
        if binder.declares (dom.face id).attributes then some (.own id)
        else if binder.repeats (dom.face parent).attributes then none
        else (chart.withTree dom page.dom.size given).home parent := by
  rcases grows.childElements listed with ⟨known, before⟩ | ⟨behind, later⟩
  · have there := Dom.known_of_child fits.ordered before
    exact .inl ⟨before, grows.face parent known, grows.face id there, home_withTree_of_lt known,
      home_withTree_of_lt there⟩
  · right
    rw [home_withTree_of_le (Nat.le_of_lt later), home_withTree_of_le behind]
    exact Binder.lodge_child grows.forest grows.ordered listed
      fun same => Nat.lt_irrefl _ (same ▸ later)

/-- New elements have the homes that follow from the home of the top of their tree. -/
theorem FitsPage.grow
    (held : ∀ home, given = some home → ∀ entry ∈ home.bindings.entries,
      chart.Held (side home.root) entry.2)
    (declared : ∀ home, given = some home →
      binder.declares (dom.face ⟨page.dom.size⟩).attributes = true →
        home = .own ⟨page.dom.size⟩ ∨
          ∃ host template attributes, chart.Stamped host (.element template) home ∧
            chart.attributes template = some attributes ∧ binder.declares attributes = true) :
    (chart.withTree dom page.dom.size given).FitsPage { page with dom := dom } where
  forest := grows.forest
  ordered := grows.ordered
  attributes _ := rfl
  known id home lodged := by
    rcases home_withTree_cases lodged with ⟨old, _⟩ | ⟨_, placed⟩
    · exact Nat.lt_trans old grows.size
    · exact Binder.lodge_known grows.forest grows.ordered grows.size placed
  held id home lodged entry member := by
    refine Held.mono ?_ (settles_withTree fits grows given).le
    rcases home_withTree_cases lodged with ⟨_, before⟩ | ⟨_, placed⟩
    · exact fits.held id home before entry member
    · rcases Binder.lodge_cases placed with top | ⟨other, rfl⟩
      · exact held home top entry member
      · exact absurd member List.not_mem_nil
  inner parent plain id listed := by
    rcases fits.child_cases grows listed with ⟨before, faceParent, face, homeParent, home⟩ | new
    · simp only [faceParent, face] at plain ⊢
      rw [homeParent, home]
      exact fits.inner parent plain id before
    · rw [new]
      simp only [plain, Bool.false_eq_true, if_false]
  stamped parent repeats id listed home lodged := by
    rcases fits.child_cases grows listed with ⟨before, faceParent, face, _, homeSame⟩ | new
    · rw [homeSame] at lodged
      simp only [faceParent, face] at repeats ⊢
      exact (fits.stamped parent repeats id before home lodged).imp_right
        fun ⟨template, stamped⟩ => ⟨template, stamped.mono (settles_withTree fits grows given).le⟩
    · rw [new] at lodged
      simp only [repeats, if_true] at lodged
      split at lodged
      next declares => exact .inl ⟨(Option.some.inj lodged).symm, declares⟩
      next => contradiction
  declared id home lodged declares := by
    have le := (settles_withTree fits grows given).le
    suffices home = .own id ∨ ∃ host template attributes,
        chart.Stamped host (.element template) home ∧
          chart.attributes template = some attributes ∧ binder.declares attributes = true from
      this.imp_right fun ⟨host, template, attributes, stamped, same, carries⟩ =>
        ⟨host, template, attributes, stamped.mono le, le.attributes _ _ same, carries⟩
    rcases home_withTree_cases lodged with ⟨old, before⟩ | ⟨_, placed⟩
    · simp only [grows.face id old] at declares
      exact fits.declared id home before declares
    · by_cases top : id = ⟨page.dom.size⟩
      · subst top
        rw [Binder.lodge_top] at placed
        exact declared home placed declares
      · rw [Binder.lodge, if_neg top, if_pos declares] at placed
        exact .inl (Option.some.inj placed).symm
  listeners id listener member :=
    (fits.listeners_of_same grows.listeners id listener member).mono
      (settles_withTree fits grows given).le
  roots := fits.roots
  data id data same := by
    obtain ⟨container, own⟩ := fits.data id data same
    exact ⟨container, (settles_withTree fits grows given).le.home id _ own⟩

end Grows

/-- Nothing that was there changes when a tree is built. -/
theorem Spares.grow {dom : Dom Handler} (fits : chart.FitsPage world.surroundings)
    (grows : world.dom.Grows dom) (given : Option Home) :
    Spares k chart world (chart.withTree dom world.dom.size given)
      { world with surroundings := { world.surroundings with dom := dom } } :=
  { Spares.refl k chart world with
    le := (settles_withTree fits grows given).le
    data := rfl
    size := Nat.le_of_lt grows.size
    home := fun _ old => home_withTree_of_lt old
    face := fun id old _ => grows.face id old
    listed := fun id parent old listed => by
      rcases grows.childElements listed with ⟨_, before⟩ | ⟨_, later⟩
      · exact before
      · exact absurd old (Nat.not_lt.mpr (Nat.le_of_lt later))
    heard := fun id _ member => by
      change _ ∈ (dom.element id).listeners
      rw [grows.listeners id]
      exact member }

/-! ## Putting copies in their place -/

section Append

variable {host copy : ElementId}

/-- A copy is put below the element whose template was stamped. -/
theorem FitsPage.append (fits : chart.FitsPage page) (fitting : page.dom.Fitting host copy)
    (repeats : binder.repeats (page.dom.face host).attributes = true)
    (stamped : ∀ home, chart.home copy = some home → ∃ template, chart.Stamped host template home) :
    chart.FitsPage { page with dom := page.dom.append host (.element copy) } where
  forest := fitting.forest fits.forest fits.ordered
  ordered := fitting.ordered fits.ordered
  attributes id := by
    rw [fits.attributes, fitting.edits.size, fitting.attributes]
  known id home given := by
    rw [fitting.edits.size]
    exact fits.known id home given
  held := fits.held
  inner parent plain id listed := by
    simp only [fitting.attributes] at plain ⊢
    rcases fitting.childElements listed with before | ⟨rfl, rfl⟩
    · exact fits.inner parent plain id before
    · rw [repeats] at plain
      contradiction
  stamped parent again id listed home given := by
    simp only [fitting.attributes] at again ⊢
    rcases fitting.childElements listed with before | ⟨rfl, rfl⟩
    · exact fits.stamped parent again id before home given
    · exact .inr (stamped home given)
  declared id home given declares := by
    simp only [fitting.attributes] at declares
    exact fits.declared id home given declares
  listeners := fits.listeners_of_same (Dom.sameListeners_append _ host _)
  roots := fits.roots
  data := fits.data

/-- A copy that was not there before is put in its place on a side. -/
theorem Spares.append {between : World Page} {scope : Scope} {bindings : Bindings}
    (spares : Spares k chart world more between) (atHome : chart.AtHome k host scope bindings)
    (fitting : between.dom.Fitting host copy) (new : world.dom.size ≤ copy.index) :
    Spares k chart world more { between with
      surroundings := between.surroundings.mapDom fun dom => dom.append host (.element copy) } :=
  { spares with
    size := Nat.le_trans spares.size (Nat.le_of_eq fitting.edits.size.symm)
    face := fun id known apart =>
      (fitting.edits.elsewhere id (atHome.apart apart)).trans (spares.face id known apart)
    listed := fun id parent known listed => by
      rcases fitting.childElements listed with before | ⟨_, rfl⟩
      · exact spares.listed id parent known before
      · exact absurd known (Nat.not_lt.mpr new)
    heard := fun id _ member => by
      change _ ∈ ((between.dom.append host (.element copy)).element id).listeners
      rw [Dom.sameListeners_append between.dom host _ id]
      exact spares.heard id member }

end Append

end Chart

end LiveMarkup
