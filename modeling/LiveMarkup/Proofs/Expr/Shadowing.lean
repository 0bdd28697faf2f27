import LiveMarkup.Proofs.Expr.Lockstep

/-!
# Bindings shadow data

What is bound comes before the properties of the data, wherever a name may stand: where it is read,
where it is the target of an assignment or an update, and in functions, which take along what was
bound around them and bind their parameters besides.  So code over one data object and the same code
over another one that differs in nothing but a property whose name is bound do the same, and neither
writes to that property.
-/

namespace LiveMarkup

variable {σ : Type}

namespace Veil

/-- What the first run can see. -/
def left (veil : Veil) : Scope := ⟨veil.tracker, some veil.first⟩

/-- What the second run can see. -/
def right (veil : Veil) : Scope := ⟨veil.tracker, some veil.second⟩

variable {veil : Veil} {bound : Nat} {alarm : Fault} {bindings : Bindings}

/-- A name that is not bound is another one than the hidden one. -/
theorem Hides.differs (hides : veil.Hides bindings) {name : String}
    (free : bindings.contains name = false) : Key.ofText name ≠ veil.key := by
  intro same
  obtain rfl := Key.ofText_inj.mp same
  rw [hides.bound] at free
  exact Bool.noConfusion free

/-- Whether code may write to a place: to a variable that is not bound, or into what is in reach. -/
def Reaches (veil : Veil) (bindings : Bindings) : Place → Prop
  | .binding name => bindings.contains name = false
  | .property base _ => base.In veil.inside

theorem lookup_lockstep (hides : veil.Hides bindings) (name : String) :
    veil.Lockstep (σ := σ) bound alarm (Value.In veil.inside) (Expr.lookup veil.left bindings name)
      (Expr.lookup veil.left bindings name) (Expr.lookup veil.right bindings name) := by
  unfold Expr.lookup
  split
  next value found => exact Lockstep.pure (hides.within _ (Assoc.mem_of_lookup found))
  next missing =>
    have differs : Key.ofText name ≠ veil.key :=
      hides.differs (by rw [Assoc.contains, missing]; rfl)
    have has : veil.Lockstep (σ := σ) bound alarm (fun _ => True)
        (TaskM.has veil.first (Key.ofText name)) (TaskM.has veil.first (Key.ofText name))
        (TaskM.has veil.second (Key.ofText name)) :=
      Lockstep.has fun _ _ alike => alike.contains _ differs
    have get : veil.Lockstep (σ := σ) bound alarm (Value.In veil.inside)
        (TaskM.watch fun heap => heap.get veil.first (Key.ofText name))
        (TaskM.watch fun heap => heap.get veil.first (Key.ofText name))
        (TaskM.watch fun heap => heap.get veil.second (Key.ofText name)) :=
      Lockstep.watch fun _ _ alike => ⟨alike.peek _ differs, alike.left.within _ differs⟩
    refine has.bind fun present _ => get.bind fun value within => ?_
    split
    · exact Lockstep.pure within
    · exact Lockstep.fail _

theorem readPlace_lockstep (hides : veil.Hides bindings) {place : Place}
    (reaches : veil.Reaches bindings place) :
    veil.Lockstep (σ := σ) bound alarm (Value.In veil.inside)
      (Expr.readPlace veil.left bindings place) (Expr.readPlace veil.left bindings place)
      (Expr.readPlace veil.right bindings place) := by
  cases place with
  | binding name => exact lookup_lockstep hides name
  | property base key => exact keeps_getProperty reaches key

theorem writePlace_lockstep (hides : veil.Hides bindings) {place : Place}
    (reaches : veil.Reaches bindings place) {value : Value} (within : value.In veil.inside) :
    veil.Lockstep (σ := σ) bound alarm (fun _ => True) (Expr.writePlace veil.left place value)
      (Expr.writePlace veil.left place value) (Expr.writePlace veil.right place value) := by
  cases place with
  | property base key => exact keeps_setProperty reaches key within
  | binding name =>
      have differs := hides.differs reaches
      have written : veil.Lockstep (σ := σ) bound alarm (fun _ => True)
          (TaskM.tryWrite veil.first (Key.ofText name) value)
          (TaskM.tryWrite veil.first (Key.ofText name) value)
          (TaskM.tryWrite veil.second (Key.ofText name) value) :=
        Lockstep.tryWrite (.inr ⟨rfl, differs⟩) (.inr ⟨rfl, differs⟩) fun _ _ alike =>
          Alike.put_data alike differs within
      refine written.bind fun result _ => ?_
      cases result with
      | ok done => exact Lockstep.pure trivial
      | error fault => exact Lockstep.fail _

/-! ## Calls -/

/-- Whether calls run in lockstep. -/
def Calls (veil : Veil) (bound : Nat) (alarm : Fault) (guarded left right : Expr.Caller σ) : Prop :=
  ∀ (id : FunctionId) (args : List Value), (∀ arg ∈ args, arg.In veil.inside) →
    veil.Lockstep bound alarm (Value.In veil.inside) (guarded id args) (left id args) (right id args)

section Evaluation

variable {guarded first second : Expr.Caller σ} (calls : veil.Calls bound alarm guarded first second)

include calls

theorem callProperty_lockstep {receiver : Value} (there : receiver.In veil.inside) (key : Key)
    {args : List Value} (within : ∀ arg ∈ args, arg.In veil.inside) :
    veil.Lockstep bound alarm (Value.In veil.inside) (Expr.callProperty guarded receiver key args)
      (Expr.callProperty first receiver key args) (Expr.callProperty second receiver key args) := by
  cases receiver with
  | undefined => exact Lockstep.fail _
  | null => exact Lockstep.fail _
  | container id =>
      refine (keeps_has (there id rfl) key).bind fun present _ => ?_
      split
      · refine (keeps_get (there id rfl) key).bind fun value _ => ?_
        cases value with
        | function id => exact calls id args within
        | _ => exact Lockstep.fail _
      · exact keeps_callMethod there key within
  | _ => exact keeps_callMethod there key within

theorem callValue_lockstep {callee : Value} (there : callee.In veil.inside) {args : List Value}
    (within : ∀ arg ∈ args, arg.In veil.inside) :
    veil.Lockstep bound alarm (Value.In veil.inside) (Expr.callValue guarded callee args)
      (Expr.callValue first callee args) (Expr.callValue second callee args) := by
  have refused (value : Value) (there : value.In veil.inside) :
      veil.Keeps (σ := σ) bound alarm (Value.In veil.inside)
        (do Value.evalFail (.notCallable (.value (← TaskM.look fun heap => heap.typeName value)))) :=
    (keeps_typeName there).bind fun _ _ => Lockstep.fail _
  cases callee with
  | function id => exact calls id args within
  | _ => exact refused _ there

/-! ## Evaluation -/

set_option linter.unusedSectionVars false in
mutual

theorem evalWith_lockstep : (expr : Expr) → veil.Hides bindings →
    veil.Lockstep bound alarm (Value.In veil.inside)
      (Expr.evalWith guarded veil.left bindings expr) (Expr.evalWith first veil.left bindings expr)
      (Expr.evalWith second veil.right bindings expr)
  | .literal value, _ => keeps_plain (by cases value <;> trivial)
  | .ident name, hides => lookup_lockstep hides name
  | .array items, hides => by
      refine (evalItems_lockstep items hides).bind fun values within => ?_
      exact Lockstep.make fun _ _ alike => Alike.array alike veil.tracker within
  | .object entries, hides => by
      refine (evalEntries_lockstep entries hides).bind fun properties within => ?_
      exact Lockstep.make fun _ _ alike => Alike.object alike veil.tracker within
  | .member holder property, hides =>
      (evalWith_lockstep holder hides).bind fun _ within =>
        keeps_getProperty within (Key.ofText property)
  | .index holder position, hides => by
      refine (evalWith_lockstep holder hides).bind fun base within => ?_
      refine (evalWith_lockstep position hides).bind fun place there => ?_
      exact (keeps_keyOf there).bind fun key _ => keeps_getProperty within key
  | .call callee args, hides => by
      cases callee with
      | member holder property =>
          refine (evalItems_lockstep args hides).bind fun values within => ?_
          refine (evalWith_lockstep holder hides).bind fun receiver there => ?_
          exact callProperty_lockstep calls there _ within
      | index holder position =>
          refine (evalItems_lockstep args hides).bind fun values within => ?_
          refine (evalWith_lockstep holder hides).bind fun receiver there => ?_
          refine (evalWith_lockstep position hides).bind fun place at_ => ?_
          exact (keeps_keyOf at_).bind fun key _ => callProperty_lockstep calls there key within
      | _ =>
          refine (evalItems_lockstep args hides).bind fun values within => ?_
          refine (evalWith_lockstep _ hides).bind fun value there => ?_
          exact callValue_lockstep calls there within
  | .unary op operand, hides =>
      (evalWith_lockstep operand hides).bind fun _ within => keeps_unary op within
  | .binary op left right, hides => by
      refine (evalWith_lockstep left hides).bind fun value within => ?_
      exact (evalWith_lockstep right hides).bind fun other there => keeps_binary op within there
  | .logical op left right, hides => by
      refine (evalWith_lockstep left hides).bind fun value within => ?_
      cases op with
      | and =>
          cases value.isTruthy with
          | false => exact Lockstep.pure within
          | true => exact evalWith_lockstep right hides
      | or =>
          cases value.isTruthy with
          | false => exact evalWith_lockstep right hides
          | true => exact Lockstep.pure within
  | .conditional test consequent alternate, hides => by
      refine (evalWith_lockstep test hides).bind fun value _ => ?_
      split
      · exact evalWith_lockstep consequent hides
      · exact evalWith_lockstep alternate hides
  | .assign op target value, hides => by
      refine (evalPlace_lockstep target hides).bind fun place reaches => ?_
      cases op with
      | set =>
          refine (evalWith_lockstep value hides).bind fun result within => ?_
          exact (writePlace_lockstep hides reaches within).bind fun _ _ => Lockstep.pure within
      | compound op =>
          refine (readPlace_lockstep hides reaches).bind fun current within => ?_
          refine (evalWith_lockstep value hides).bind fun operand there => ?_
          refine (keeps_binary op within there).bind fun result held => ?_
          exact (writePlace_lockstep hides reaches held).bind fun _ _ => Lockstep.pure held
  | .update step before target, hides => by
      refine (evalPlace_lockstep target hides).bind fun place reaches => ?_
      refine (readPlace_lockstep hides reaches).bind fun current within => ?_
      have number : veil.Keeps (σ := σ) bound alarm (fun _ => True)
          (TaskM.watch fun heap => heap.toNumber current) :=
        keeps_coerced (fun _ _ shares => shares.toNumber within)
          fun _ encloses => Heap.toNumber_stays encloses within
      refine number.bind fun old _ => ?_
      have new : (Value.number (old + step.amount)).In veil.inside := Value.IsPlain.inside trivial
      exact (writePlace_lockstep hides reaches new).bind fun _ _ => keeps_plain trivial
  | .arrow params body, hides =>
      Lockstep.make fun here there alike => by
        have within : (Value.function ⟨here.heap.closures.size⟩).In veil.inside :=
          fun _ same => Value.noConfusion same
        exact ⟨congrArg (fun size => Value.function ⟨size⟩) alike.size, within,
          alike.newClosure hides⟩
  | .sequence statements, hides => by
      refine (evalItems_lockstep statements hides).bind fun values within => Lockstep.pure ?_
      cases last : values.getLast? with
      | none => exact Value.IsPlain.inside trivial
      | some value => exact within value (List.mem_of_getLast? last)

theorem evalItems_lockstep : (items : List Expr) → veil.Hides bindings →
    veil.Lockstep bound alarm (fun values => ∀ value ∈ values, value.In veil.inside)
      (Expr.evalItems guarded veil.left bindings items)
      (Expr.evalItems first veil.left bindings items)
      (Expr.evalItems second veil.right bindings items)
  | [], _ => Lockstep.pure fun _ member => absurd member List.not_mem_nil
  | item :: rest, hides =>
      (evalWith_lockstep item hides).bind fun _ within =>
        (evalItems_lockstep rest hides).bind fun _ all =>
          Lockstep.pure (List.forall_mem_cons.mpr ⟨within, all⟩)

theorem evalEntries_lockstep : (entries : List (String × Expr)) → veil.Hides bindings →
    veil.Lockstep bound alarm
      (fun properties : List (Key × Value) => ∀ entry ∈ properties, entry.2.In veil.inside)
      (Expr.evalEntries guarded veil.left bindings entries)
      (Expr.evalEntries first veil.left bindings entries)
      (Expr.evalEntries second veil.right bindings entries)
  | [], _ => Lockstep.pure fun _ member => absurd member List.not_mem_nil
  | (_, item) :: rest, hides =>
      (evalWith_lockstep item hides).bind fun _ within =>
        (evalEntries_lockstep rest hides).bind fun _ all =>
          Lockstep.pure (List.forall_mem_cons.mpr ⟨within, all⟩)

theorem evalPlace_lockstep : (target : Expr) → veil.Hides bindings →
    veil.Lockstep bound alarm (veil.Reaches bindings)
      (Expr.evalPlace guarded veil.left bindings target)
      (Expr.evalPlace first veil.left bindings target)
      (Expr.evalPlace second veil.right bindings target)
  | .ident name, _ => by
      simp only [Expr.evalPlace]
      split
      · exact Lockstep.fail _
      next free => exact Lockstep.pure (Bool.eq_false_iff.mpr free)
  | .member holder property, hides =>
      (evalWith_lockstep holder hides).bind fun _ within => Lockstep.pure within
  | .index holder position, hides => by
      refine (evalWith_lockstep holder hides).bind fun base within => ?_
      refine (evalWith_lockstep position hides).bind fun place there => ?_
      exact (keeps_keyOf there).bind fun key _ => Lockstep.pure within
  | .literal _, _ | .array _, _ | .object _, _ | .call _ _, _ | .unary _ _, _ | .binary _ _ _, _
  | .logical _ _ _, _ | .conditional _ _ _, _ | .assign _ _ _, _ | .update _ _ _, _ | .arrow _ _, _
  | .sequence _, _ => Lockstep.fail _

end

end Evaluation

/-- Parameters only hide more names. -/
theorem Hides.bindArguments (hides : veil.Hides bindings) (params : List String) {args : List Value}
    (within : ∀ arg ∈ args, arg.In veil.inside) :
    veil.Hides (Expr.bindArguments bindings params args) := by
  have insert {bindings : Bindings} (hides : veil.Hides bindings) (name : String) {value : Value}
      (within : value.In veil.inside) : veil.Hides (bindings.insert name value) := by
    refine ⟨by simp [Assoc.contains_insert, hides.bound], fun entry member => ?_⟩
    rcases Assoc.mem_put member with old | rfl
    · exact hides.within entry old
    · exact within
  induction params generalizing bindings args with
  | nil => exact hides
  | cons name names ih =>
      cases args with
      | nil =>
          have missing : Value.undefined.In veil.inside := Value.IsPlain.inside trivial
          exact ih (insert hides name missing) within
      | cons value values =>
          rw [List.forall_mem_cons] at within
          exact ih (insert hides name within.1) within.2

/-- A function that was made in a run sees what the run has seen, and the call of any other function
raises the alarm. -/
theorem callFunction_lockstep (depth : Nat) :
    veil.Calls (σ := σ) bound alarm (Expr.callMade veil.origin.closures.size alarm depth)
      (Expr.callFunction depth) (Expr.callFunction depth) := by
  induction depth with
  | zero => exact fun _ _ _ => Lockstep.fail _
  | succ depth ih =>
      intro id args within
      rw [Expr.callMade]
      by_cases earlier : id.index < veil.origin.closures.size
      · rw [if_pos earlier]
        exact Lockstep.raised _ _
      · rw [if_neg earlier]
        refine Lockstep.look_bind fun here there alike => ?_
        cases found : here.closures[id.index]? with
        | none =>
            rw [Array.getElem?_eq_none_iff, ← alike.size, ← Array.getElem?_eq_none_iff] at found
            rw [found]
            exact keeps_plain trivial
        | some code =>
            obtain ⟨twin, foundThere, params, body, bindings, hides, rfl, rfl⟩ :=
              alike.made _ (Nat.le_of_not_lt earlier) code found
            rw [foundThere]
            exact evalWith_lockstep ih body (hides.bindArguments params within)

end Veil

namespace Heap

variable {heap : Heap} {root id other : ContainerId}

/-- What a held container reaches, its holder reaches. -/
theorem Reaches.of_held (held : .container other ∈ (heap.contents root).values)
    (reaches : heap.Reaches other id) : heap.Reaches root id := by
  induction reaches with
  | root => exact .step .root held
  | step _ deeper ih => exact .step ih deeper

/-- What is there cannot be reached from what is not there yet. -/
theorem not_reaches_of_unknown (known : id.index < heap.containers.size)
    (unknown : heap.containers.size ≤ root.index) : ¬heap.Reaches root id := by
  have only {found : ContainerId} (reaches : heap.Reaches root found) : found = root := by
    induction reaches with
    | root => rfl
    | step _ held ih =>
        rw [ih, Heap.contents, container_of_size_le unknown] at held
        exact absurd held List.not_mem_nil
  intro reaches
  rw [only reaches] at known
  exact Nat.not_lt.mpr unknown known

/-- Whether a container cannot be reached from a value. -/
def Misses (heap : Heap) (id : ContainerId) (value : Value) : Prop :=
  ∀ root, value = .container root → ¬heap.Reaches root id

/-- Whether two objects of a tracker have the same properties but for one, and neither of them can be
reached from the others. -/
structure DifferOnly (heap : Heap) (first second : ContainerId) (key : Key) : Prop where
  /-- The first object is there. -/
  known : first.index < heap.containers.size
  /-- The second object is there. -/
  secondKnown : second.index < heap.containers.size
  /-- The first one is an object. -/
  isObject : heap.isArray first = false
  /-- So is the second one. -/
  secondIsObject : heap.isArray second = false
  /-- They belong to the same tracker. -/
  owner : heap.owner second = heap.owner first
  /-- The other properties have the same values. -/
  value : ∀ other, other ≠ key → heap.peek second other = heap.peek first other
  /-- They are there in both objects or in neither. -/
  present : ∀ other, other ≠ key → heap.contains second other = heap.contains first other
  /-- They do not lead to the first object. -/
  misses : ∀ other, other ≠ key → heap.Misses first (heap.peek first other)
  /-- Nor to the second one. -/
  missesSecond : ∀ other, other ≠ key → heap.Misses second (heap.peek first other)

end Heap

namespace Expr

/-- How an evaluation over some data ends that leaves one property of the data and another object
alone: no point of its history is a write to them, so they are as they were. -/
structure EndsApart (world : World σ) (tracker : TrackerId) (data other : ContainerId) (key : Key)
    (bindings : Bindings) (expr : Expr) (result : Except Fault Value) (after : World σ) : Prop where
  /-- The evaluation ends. -/
  ends : world.exec (eval ⟨tracker, some data⟩ bindings expr) = (result, after)
  /-- It never writes to the property, nor to any property of the other object. -/
  history : ∃ passed, Point.Runs ⟨[], .task (eval ⟨tracker, some data⟩ bindings expr).toTask, world⟩
    passed result after ∧ ∀ point ∈ passed, ¬point.Writes data key ∧
      (other ≠ data → ∀ written, ¬point.Writes other written)
  /-- The property has the value that it had. -/
  value : after.store.heap.peek data key = world.store.heap.peek data key
  /-- It is there if it was. -/
  present : after.store.heap.contains data key = world.store.heap.contains data key
  /-- The other object is as it was. -/
  spared : other ≠ data → after.store.heap.container other = world.store.heap.container other

/-- Whether evaluations over two objects have led from a world to the same state of everything else:
of all other properties and of all containers, events and functions, also of new ones.  A new
function has the same code and bindings in both, and the data that it was made over. -/
structure SameChanges (first second : ContainerId) (key : Key) (before here there : Heap) : Prop where
  /-- The other properties have the same values. -/
  value : ∀ other, other ≠ key → there.peek second other = here.peek first other
  /-- They are there in both objects or in neither. -/
  present : ∀ other, other ≠ key → there.contains second other = here.contains first other
  /-- There are as many containers. -/
  size : there.containers.size = here.containers.size
  /-- The other containers are the same. -/
  container : ∀ id, id ≠ first → id ≠ second → there.container id = here.container id
  /-- The events are the same. -/
  events : there.events = here.events
  /-- Functions that were there are the same. -/
  earlier : ∀ index, index < before.closures.size → there.closures[index]? = here.closures[index]?
  /-- New functions are the same but for their data. -/
  later : ∀ index, before.closures.size ≤ index → there.closures[index]? =
    here.closures[index]?.map fun code => { code with scope := ⟨code.scope.tracker, some second⟩ }

end Expr

/-- The veil over two objects that differ in one property, in front of all that does not reach them. -/
def Heap.DifferOnly.veil {heap : Heap} {first second : ContainerId} {name : String}
    (differ : heap.DifferOnly first second (Key.ofText name)) (tracker : TrackerId) : Veil where
  origin := heap
  tracker := tracker
  first := first
  second := second
  name := name
  inside id := ¬heap.Reaches id first ∧ ¬heap.Reaches id second
  first_outside inside := inside.1 .root
  second_outside inside := inside.2 .root
  owner_eq := differ.owner

namespace Veil

/-- Both runs start in the same heap. -/
theorem alike_origin {heap : Heap} {first second : ContainerId} {name : String}
    (differ : heap.DifferOnly first second (Key.ofText name)) (tracker : TrackerId) :
    (differ.veil tracker).Alike heap heap := by
  have within (read : Key) (differs : read ≠ Key.ofText name) :
      (heap.peek first read).In (differ.veil tracker).inside :=
    fun root same => ⟨differ.misses read differs root same, differ.missesSecond read differs root same⟩
  have fresh (id : ContainerId) (unknown : heap.containers.size ≤ id.index) :
      (differ.veil tracker).inside id :=
    ⟨Heap.not_reaches_of_unknown differ.known unknown,
      Heap.not_reaches_of_unknown differ.secondKnown unknown⟩
  have encloses : heap.Encloses (differ.veil tracker).inside := by
    intro id inside value held root same
    rw [same] at held
    exact ⟨fun reaches => inside.1 (reaches.of_held held),
      fun reaches => inside.2 (reaches.of_held held)⟩
  exact
    { shares := ⟨rfl, fun _ _ => rfl, encloses, fresh, rfl⟩
      left := ⟨differ.isObject, rfl, within, rfl, rfl, fun _ _ _ => rfl, fun _ _ => rfl⟩
      right := ⟨differ.secondIsObject, rfl,
        fun read differs => (differ.value read differs).symm ▸ within read differs, rfl, rfl,
        fun _ _ _ => rfl, fun _ _ => rfl⟩
      peek := differ.value
      contains := differ.present
      size := rfl
      made := fun index later code found => by
        have none : heap.closures[index]? = none := Array.getElem?_eq_none later
        rw [none] at found
        cases found }

variable {veil : Veil} {here there : Heap}

theorem Alike.sameChanges (alike : veil.Alike here there) :
    Expr.SameChanges veil.first veil.second veil.key veil.origin here there where
  value := alike.peek
  present := alike.contains
  size := alike.shares.size
  container id notFirst notSecond := by
    by_cases member : veil.inside id
    · exact alike.shares.container id member
    · rw [alike.right.spared id member notSecond, alike.left.spared id member notFirst]
  events := alike.shares.events
  earlier index earlier := by
    rw [alike.right.functions index earlier, alike.left.functions index earlier]
  later index later := by
    cases found : here.closures[index]? with
    | none =>
        rw [Array.getElem?_eq_none_iff, ← alike.size, ← Array.getElem?_eq_none_iff] at found
        rw [found]
        rfl
    | some code =>
        obtain ⟨twin, foundThere, params, body, bindings, -, rfl, rfl⟩ :=
          alike.made index later code found
        rw [foundThere]
        rfl

/-- What comes out of two runs that pass writes to allowed properties only. -/
theorem Side.endsApart {veil : Veil} {world after : World σ} {data other : ContainerId}
    {bindings : Bindings} {expr : Expr} {result : Except Fault Value}
    (passes : (Expr.eval ⟨veil.tracker, some data⟩ bindings expr).Passes (veil.Allows data)
      world.store.room world result after)
    (side : veil.Side data after.store.heap) (origin : veil.origin = world.store.heap)
    (outside : ¬veil.inside data) (otherOutside : ¬veil.inside other) :
    Expr.EndsApart world veil.tracker data other veil.key bindings expr result after where
  ends := passes.ends Task.done
  history := by
    obtain ⟨passed, runs, spares⟩ := passes.history Task.done [] _ result after (.ends .done)
      (List.forall_mem_singleton.mpr fun _ _ writes => by cases writes)
    refine ⟨passed, runs, fun point member => ⟨fun writes => ?_, fun differs written writes => ?_⟩⟩
    · exact (spares point member _ _ writes).elim outside fun allowed => allowed.2 rfl
    · exact (spares point member _ _ writes).elim otherOutside fun allowed => differs allowed.1
  value := origin ▸ side.kept
  present := origin ▸ side.present
  spared differs := origin ▸ side.spared other otherOutside differs

end Veil

namespace Expr

/-- What is bound shadows the data.  Where two objects differ only in a property whose name is bound,
neither of them can be reached from their other properties or from what is bound, and nothing is
subscribed that is not running, code that calls only functions that it made itself ends in the same
way over the one and over the other and changes the same in everything else; it never writes to that
property. -/
theorem bindings_shadow_data {world : World σ} {first second : ContainerId} {name : String}
    {bindings : Bindings} {expr : Expr} (tracker : TrackerId)
    (differ : world.store.heap.DifferOnly first second (Key.ofText name))
    (bound : bindings.contains name = true)
    (misses : ∀ entry ∈ bindings.entries,
      world.store.heap.Misses first entry.2 ∧ world.store.heap.Misses second entry.2)
    (still : world.store.Still)
    (made : CallsOnlyMade world ⟨tracker, some first⟩ bindings expr) :
    ∃ result after afterThere,
      EndsApart world tracker first second (Key.ofText name) bindings expr result after ∧
      EndsApart world tracker second first (Key.ofText name) bindings expr result afterThere ∧
      SameChanges first second (Key.ofText name) world.store.heap after.store.heap
        afterThere.store.heap := by
  obtain ⟨alarm, quiet⟩ := made
  let veil := differ.veil tracker
  have hides : veil.Hides bindings := ⟨bound, fun entry member root same =>
    ⟨(misses entry member).1 root same, (misses entry member).2 root same⟩⟩
  have parallel : veil.Parallel world world := ⟨Veil.alike_origin differ tracker, still, still⟩
  have lockstep : veil.Lockstep (σ := σ) world.store.room alarm (Value.In veil.inside)
      (evalWith (callMade world.store.heap.closures.size alarm callDepthLimit) veil.left bindings expr)
      (eval veil.left bindings expr) (eval veil.right bindings expr) :=
    Veil.evalWith_lockstep (Veil.callFunction_lockstep callDepthLimit) expr hides
  rcases lockstep world world parallel with ⟨after, raises⟩ |
    ⟨result, after, afterThere, -, left, right, parallelAfter, -⟩
  · -- The alarm would be what the watched evaluation ends with.
    refine absurd ?_ quiet
    exact congrArg Prod.fst (raises Task.done)
  · have alike := parallelAfter.heap
    exact ⟨result, after, afterThere,
      alike.left.endsApart left rfl veil.first_outside veil.second_outside,
      alike.right.endsApart right rfl veil.second_outside veil.first_outside, alike.sameChanges⟩

/-- A world with two objects that differ in their only property, in which nobody has read anything. -/
def holdingPair : World Unit :=
  let object (hidden : Value) : Container := ⟨⟨0⟩, .object ⟨[(Key.ofText "x", hidden)]⟩⟩
  ⟨{ Store.new [.default] with heap := ⟨#[object (.bool false), object .null], #[], #[]⟩ }, (), #[]⟩

theorem still_holdingPair : holdingPair.store.Still := by
  refine .of_unsubscribed fun id access _ => ?_
  have tracker : holdingPair.store.tracker id = Tracker.new .default := by
    obtain ⟨index⟩ := id
    cases index with
    | zero => rfl
    | succ index => simp [Store.tracker, holdingPair, Store.new]; rfl
  rw [tracker]
  simp [Tracker.dependents, Tracker.new]

theorem differOnly_holdingPair :
    holdingPair.store.heap.DifferOnly ⟨0⟩ ⟨1⟩ (Key.ofText "x") := by
  have missing (other : Key) (differs : other ≠ Key.ofText "x") (hidden : Value) :
      Assoc.lookup other [(Key.ofText "x", hidden)] = none := if_neg differs.symm
  have first (other : Key) (differs : other ≠ Key.ofText "x") :
      holdingPair.store.heap.peek ⟨0⟩ other = .undefined :=
    congrArg (fun found => found.getD .undefined) (missing other differs (.bool false))
  have second (other : Key) (differs : other ≠ Key.ofText "x") :
      holdingPair.store.heap.peek ⟨1⟩ other = .undefined :=
    congrArg (fun found => found.getD .undefined) (missing other differs .null)
  have misses (id : ContainerId) (other : Key) (differs : other ≠ Key.ofText "x") :
      holdingPair.store.heap.Misses id (holdingPair.store.heap.peek ⟨0⟩ other) := by
    rw [first other differs]
    exact fun _ same => Value.noConfusion same
  exact
    { known := by decide
      secondKnown := by decide
      isObject := rfl
      secondIsObject := rfl
      owner := rfl
      value := fun other differs => (second other differs).trans (first other differs).symm
      present := fun other differs => (congrArg Option.isSome (missing other differs .null)).trans
        (congrArg Option.isSome (missing other differs (.bool false))).symm
      misses := misses ⟨0⟩
      missesSecond := misses ⟨1⟩ }

/-- What is bound. -/
def bindingX : Bindings := ⟨[("x", .text "bound")]⟩

/-- Code that assigns what a new function finds. -/
def assignsFound : Expr := .assign .set (.ident "y") (.call (.arrow [] (.ident "x")) [])

theorem callsOnlyMade_assignsFound :
    CallsOnlyMade holdingPair ⟨⟨0⟩, some ⟨0⟩⟩ bindingX assignsFound := by
  have finds (alarm : Fault) (depth : Nat) : (holdingPair.exec (evalWith
      (callMade 0 alarm (depth + 1)) ⟨⟨0⟩, some ⟨0⟩⟩ bindingX assignsFound)).1 = .ok (.text "bound") :=
    rfl
  refine ⟨.eval .callDepthExceeded, fun fails => ?_⟩
  have ends := finds (.eval .callDepthExceeded) 1048575
  cases fails.symm.trans ends

theorem eval_assignsFound :
    (holdingPair.exec (eval ⟨⟨0⟩, some ⟨0⟩⟩ bindingX assignsFound)).1 = .ok (.text "bound") := by
  have finds (depth : Nat) : (holdingPair.exec (evalWith (callFunction (depth + 1)) ⟨⟨0⟩, some ⟨0⟩⟩
      bindingX assignsFound)).1 = .ok (.text "bound") := rfl
  exact finds 1048575

/-- A new function finds what is bound over both objects. -/
theorem assignsFound_shadows_data : ∃ after afterThere,
    EndsApart holdingPair ⟨0⟩ ⟨0⟩ ⟨1⟩ (Key.ofText "x") bindingX assignsFound (.ok (.text "bound"))
      after ∧
    EndsApart holdingPair ⟨0⟩ ⟨1⟩ ⟨0⟩ (Key.ofText "x") bindingX assignsFound (.ok (.text "bound"))
      afterThere ∧
    SameChanges ⟨0⟩ ⟨1⟩ (Key.ofText "x") holdingPair.store.heap after.store.heap
      afterThere.store.heap := by
  have misses (id : ContainerId) (entry : String × Value) (member : entry ∈ bindingX.entries) :
      holdingPair.store.heap.Misses id entry.2 := by
    obtain rfl := List.mem_singleton.mp member
    exact fun _ same => Value.noConfusion same
  obtain ⟨result, after, afterThere, here, rest⟩ :=
    bindings_shadow_data ⟨0⟩ differOnly_holdingPair rfl
      (fun entry member => ⟨misses _ entry member, misses _ entry member⟩) still_holdingPair
      callsOnlyMade_assignsFound
  obtain rfl : .ok (.text "bound") = result :=
    eval_assignsFound.symm.trans (congrArg Prod.fst here.ends)
  exact ⟨after, afterThere, here, rest⟩

end Expr

end LiveMarkup
