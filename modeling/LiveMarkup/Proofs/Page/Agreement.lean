import LiveMarkup.Proofs.Page.Link

/-!
# Live trees show the same

A tree is live in two places: one has followed the data through its changes, and the other one was
bound just now.  If binding it has reported no fault, both show the same.  For by induction on the
tree, an element and its counterpart are served by the same directives, whose effects see the same.
-/

namespace LiveMarkup

theorem Part.frame_eq {part : Part} {tree : Tree} {bindings : Bindings} {since : Nat} :
    part.frame = (tree, bindings, since) ↔
      part.tree = tree ∧ part.bindings = bindings ∧ part.since = since := by
  simp only [Part.frame, Prod.mk.injEq]

/-- Duties about the same expression look for the same. -/
theorem Link.Likens.around {kept : ContainerId → Prop} {link : Link} {id idFresh : ElementId}
    {bindings : Bindings} {expr : Expr} {aim aimFresh : Aim}
    (bound : ∀ entry ∈ bindings.entries, entry.2.In (link.inside kept))
    (glance : aimFresh.glance = aim.glance) :
    link.Likens kept ⟨id, bindings, expr, aim⟩
      ⟨idFresh, link.names.bindings bindings, expr, aimFresh⟩ :=
  ⟨rfl, glance, rfl, bound⟩

namespace View

variable {data : ContainerId} {kept : ContainerId → Prop} {view fresh : View} {link : Link}

/-- Two effects with duties that correspond show what they have seen of the same. -/
theorem Standing.agrees (replays : Replays data kept view fresh)
    (joins : link.Joins kept view.store.heap fresh.store.heap) {duty task : Duty}
    (likens : link.Likens kept duty task) {since sinceFresh : Nat}
    (here : link.here ≤ since) (there : link.there ≤ sinceFresh)
    {shows showsFresh : Sight → Store → Prop}
    (standing : view.Standing data kept duty since shows)
    (standingFresh : fresh.Standing data kept task sinceFresh showsFresh) :
    ∃ sight after afterFresh later,
      Link.Carries kept link later view.store.heap fresh.store.heap after afterFresh (.ok sight)
        (.ok (later.names.sight sight)) ∧
      shows sight after ∧ showsFresh (later.names.sight sight) afterFresh := by
  cases standing with
  | pending effect serves pending => exact absurd pending (replays.idle effect)
  | settled effect past after result trace serves settled since shown faulty =>
      cases standingFresh with
      | pending other serves pending => exact absurd pending (replays.idleFresh other)
      | settled other pastFresh afterFresh resultFresh traceFresh servesFresh settledFresh sinceFresh
          shownFresh faultyFresh =>
          obtain ⟨later, carries⟩ := settled.carries replays settledFresh serves.assigned
            joins likens (Nat.le_trans here since) (Nat.le_trans there sinceFresh)
          have same := carries.result
          cases resultFresh with
          | error fault => exact absurd (faultyFresh fault rfl) replays.sound
          | ok sightFresh =>
              cases result with
              | error fault => contradiction
              | ok sight =>
                  obtain rfl := Except.ok.inj same
                  exact ⟨sight, after, afterFresh, later, carries, shown sight rfl,
                    shownFresh _ rfl⟩

variable {bindings : Bindings} {since sinceFresh : Nat} {id idFresh : ElementId}

/-- The style of an element and of its counterpart is the same. -/
theorem Style.agrees (replays : Replays data kept view fresh)
    (joins : link.Joins kept view.store.heap fresh.store.heap)
    (bound : ∀ entry ∈ bindings.entries, entry.2.In (link.inside kept)) (here : link.here ≤ since)
    (there : link.there ≤ sinceFresh) {style : Assoc String String} {directive : Option Directive}
    (holds : view.Style data kept bindings since id style directive)
    (holdsFresh : fresh.Style data kept (link.names.bindings bindings) sinceFresh idFresh style
      directive) : (view.dom.face id).style = (fresh.dom.face idFresh).style := by
  cases holdsFresh with
  | plain vacantFresh sameFresh =>
      cases holds with
      | plain vacant same => exact same.trans sameFresh.symm
  | garbled demand faulty => exact absurd faulty replays.sound
  | @shown _ demandFresh readFresh styledFresh standingFresh =>
      cases holds with
      | garbled demand faulty =>
          rw [readFresh] at demand
          contradiction
      | @shown _ demand read styled standing =>
          obtain rfl := Except.ok.inj (readFresh.symm.trans read)
          obtain ⟨sight, after, afterFresh, later, carries, ⟨holds, rfl, same⟩,
              ⟨holdsFresh, seen, sameFresh⟩⟩ :=
            standing.agrees replays joins (Link.Likens.around bound rfl) here there standingFresh
          obtain rfl := Sight.truth.inj seen
          exact same.trans sameFresh.symm

/-- Whether a part and one of a fresh walk have come from the same tree with bindings that
correspond. -/
structure Pairs (kept : ContainerId → Prop) (link : Link) (part other : Part) : Prop where
  /-- The trees are the same. -/
  tree : other.tree = part.tree
  /-- The bindings correspond. -/
  bindings : other.bindings = link.names.bindings part.bindings
  /-- They refer to what is inside. -/
  bound : ∀ entry ∈ part.bindings.entries, entry.2.In (link.inside kept)
  /-- What is linked is older than the part. -/
  here : link.here ≤ part.since
  /-- Its counterparts are older than the other one. -/
  there : link.there ≤ other.since

/-- The copies for an item and for its counterpart have come from the same template. -/
theorem Pairs.item {later : Link} {after afterFresh : Store} {items : Option (List Value)}
    {resultFresh : Except Fault Sight}
    (carries : Link.Carries kept link later view.store.heap fresh.store.heap after afterFresh
      (.ok (.items items)) resultFresh)
    (bound : ∀ entry ∈ bindings.entries, entry.2.In (link.inside kept)) {name : String}
    {item : Value} (member : item ∈ items.getD []) {template : Tree} {part other : Part}
    (frame : part.frame = (template, bindings.insert name item, after.heap.containers.size))
    (frameFresh : other.frame = (template,
      (link.names.bindings bindings).insert name (later.names.value item),
      afterFresh.heap.containers.size)) : Pairs kept later part other := by
  obtain ⟨rfl, around, age⟩ := Part.frame_eq.mp frame
  obtain ⟨same, aroundFresh, ageFresh⟩ := Part.frame_eq.mp frameFresh
  refine ⟨same, ?_, ?_, ?_, ?_⟩
  · have kept : later.names.bindings bindings = link.names.bindings bindings :=
      Renaming.mapValues_congr fun entry listed => carries.value _ (bound entry listed)
    rw [aroundFresh, around, ← kept]
    exact (Assoc.mapValues_insert _ _ _ _).symm
  · rw [around]
    intro entry listed
    rcases Assoc.mem_put listed with old | rfl
    · exact (bound entry old).mono carries.inside
    · cases items with
      | none => contradiction
      | some list => exact carries.items list rfl item member
  · rw [age]
    exact Nat.le_of_eq carries.here
  · rw [ageFresh]
    exact Nat.le_of_eq carries.there

/-- Two rows of parts show the same if their parts do, one by one. -/
theorem map_eq_of_frames {α : Type} {first second : α → Tree × Bindings × Nat} {list : List α}
    {parts others : List Part} (frames : parts.map Part.frame = list.map first)
    (framesOther : others.map Part.frame = list.map second) {show_ showOther : Part → Tree}
    (each : ∀ a ∈ list, ∀ part ∈ parts, ∀ other ∈ others, part.frame = first a →
      other.frame = second a → show_ part = showOther other) :
    parts.map show_ = others.map showOther := by
  induction list generalizing parts others with
  | nil =>
      rw [List.map_nil, List.map_eq_nil_iff] at frames framesOther
      rw [frames, framesOther]
      rfl
  | cons a rest ih =>
      obtain ⟨part, parts, rfl, frame, frames⟩ := List.map_eq_cons_iff.mp frames
      obtain ⟨other, others, rfl, frameOther, framesOther⟩ := List.map_eq_cons_iff.mp framesOther
      rw [List.map_cons, List.map_cons,
        each a List.mem_cons_self part List.mem_cons_self other List.mem_cons_self frame frameOther,
        ih frames framesOther fun b listed part inside other insideOther =>
          each b (List.mem_cons_of_mem a listed) part (List.mem_cons_of_mem _ inside) other
            (List.mem_cons_of_mem _ insideOther)]

/-- The children of an element and of its counterpart show the same if what is bound there does. -/
theorem Content.agrees (replays : Replays data kept view fresh)
    (joins : link.Joins kept view.store.heap fresh.store.heap)
    (bound : ∀ entry ∈ bindings.entries, entry.2.In (link.inside kept)) (here : link.here ≤ since)
    (there : link.there ≤ sinceFresh) {children : List Tree} {directive : Option Directive}
    {parts others : List Part} (depth : Nat)
    (holds : view.Content data kept bindings since id children directive parts)
    (holdsFresh : fresh.Content data kept (link.names.bindings bindings) sinceFresh idFresh children
      directive others)
    (each : ∀ part ∈ parts, ∀ other ∈ others, ∀ later : Link,
      later.Joins kept view.store.heap fresh.store.heap → Pairs kept later part other →
      view.dom.childWithin depth part.child = fresh.dom.childWithin depth other.child) :
    (view.dom.face id).children.map (view.dom.childWithin depth) =
      (fresh.dom.face idFresh).children.map (fresh.dom.childWithin depth) := by
  cases holdsFresh with
  | bound vacantFresh framesFresh sameFresh =>
      cases holds with
      | bound vacant frames same =>
          rw [same, sameFresh, List.map_map, List.map_map]
          refine map_eq_of_frames frames framesFresh
            fun tree _ part listed other listedFresh frame frameFresh => ?_
          obtain ⟨rfl, rfl, rfl⟩ := Part.frame_eq.mp frame
          obtain ⟨same, around, rfl⟩ := Part.frame_eq.mp frameFresh
          exact each part listed other listedFresh link joins ⟨same, around, bound, here, there⟩
  | garbled demand faulty => exact absurd faulty replays.sound
  | @text _ demandFresh kindFresh readFresh standingFresh =>
      cases holds with
      | garbled demand faulty =>
          rw [readFresh] at demand
          contradiction
      | bare kind read vacant empty same =>
          rw [kindFresh] at kind
          contradiction
      | repeated place depth kind read first standing =>
          rw [kindFresh] at kind
          contradiction
      | @text _ demand kind read standing =>
          obtain rfl := Except.ok.inj (readFresh.symm.trans read)
          obtain ⟨sight, after, afterFresh, later, carries, ⟨content, rfl, same⟩,
              ⟨contentFresh, seen, sameFresh⟩⟩ :=
            standing.agrees replays joins (.around bound rfl) here there standingFresh
          obtain rfl := Sight.text.inj seen
          rw [same, sameFresh, Dom.textRow]
          split <;> rfl
  | bare kindFresh readFresh vacantFresh emptyFresh sameFresh =>
      cases holds with
      | garbled demand faulty =>
          rw [readFresh] at demand
          contradiction
      | bare kind read vacant empty same =>
          rw [same, sameFresh]
          rfl
      | repeated place depth kind read first standing =>
          rw [emptyFresh] at first
          contradiction
      | text kind read standing =>
          rw [kindFresh] at kind
          contradiction
  | @repeated _ demandFresh template rest _ placeFresh depthFresh kindFresh readFresh firstFresh
      standingFresh =>
      cases holds with
      | garbled demand faulty =>
          rw [readFresh] at demand
          contradiction
      | bare kind read vacant empty same =>
          rw [firstFresh] at empty
          contradiction
      | text kind read standing =>
          rw [kindFresh] at kind
          contradiction
      | @repeated _ demand _ _ _ place depth kind read first standing =>
          obtain rfl := Except.ok.inj (readFresh.symm.trans read)
          obtain ⟨rfl, rfl⟩ := List.cons.inj (firstFresh.symm.trans first)
          obtain ⟨sight, after, afterFresh, later, carries, ⟨items, rfl, same, frames⟩,
              ⟨itemsFresh, seen, sameFresh, framesFresh⟩⟩ :=
            standing.agrees replays joins (.around bound (by rfl)) here there standingFresh
          obtain rfl := Sight.items.inj seen
          have list : ((items.map fun list => list.map later.names.value).getD []) =
              (items.getD []).map later.names.value := by
            cases items <;> rfl
          rw [list, List.map_map] at framesFresh
          rw [same, sameFresh, List.map_map, List.map_map]
          refine map_eq_of_frames frames framesFresh
            fun item member part listed other listedFresh frame frameFresh => ?_
          exact each part listed other listedFresh later carries.joins
            (.item carries bound member frame frameFresh)

/-- A live part shows the same as one that was bound just now. -/
theorem Live.agrees (replays : Replays data kept view fresh) {binder : Binder} {part other : Part}
    (live : view.Live data kept binder part) (liveFresh : fresh.Live data kept binder other)
    (joins : link.Joins kept view.store.heap fresh.store.heap) (pairs : Pairs kept link part other)
    (depth : Nat) :
    view.dom.childWithin depth part.child = fresh.dom.childWithin depth other.child := by
  induction live generalizing other link depth with
  | text content bindings since =>
      cases liveFresh with
      | text contentFresh bindingsFresh sinceFresh =>
          obtain rfl := Tree.text.inj pairs.tree
          rfl
      | element parts node below => exact nomatch pairs.tree
  | @element tag attributes style children bindings since id parts node below ih =>
      cases liveFresh with
      | text contentFresh bindingsFresh sinceFresh => exact nomatch pairs.tree
      | @element _ _ _ _ bindingsFresh sinceFresh idFresh others nodeFresh belowFresh =>
          obtain ⟨rfl, rfl, rfl, rfl⟩ := Tree.element.inj pairs.tree
          obtain rfl : bindingsFresh = link.names.bindings bindings := pairs.bindings
          cases depth with
          | zero => rfl
          | succ depth =>
              change view.dom.treeWithin (depth + 1) id = fresh.dom.treeWithin (depth + 1) idFresh
              rw [Dom.treeWithin_succ, Dom.treeWithin_succ, node.sameTag, nodeFresh.sameTag,
                node.sameAttributes, nodeFresh.sameAttributes,
                node.style.agrees replays joins pairs.bound pairs.here pairs.there nodeFresh.style,
                node.content.agrees replays joins pairs.bound pairs.here pairs.there depth
                  nodeFresh.content fun part listed other listedFresh later joins pairs =>
                    ih part listed (belowFresh other listedFresh) joins pairs depth]

end View

end LiveMarkup
