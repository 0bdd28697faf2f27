import LiveMarkup.Heap.Watch

/-!
# The bound on nested arrays

The display text of an array descends into the arrays that it holds, with a bound on how deep.  An
array that is met again on the way down shows as nothing, so the arrays on the way are distinct, and
no bound beyond the number of containers makes a difference.
-/

namespace LiveMarkup

namespace Heap

theorem isArray_known {heap : Heap} {id : ContainerId} (isArray : heap.isArray id = true) :
    id.index < heap.containers.size := by
  refine Nat.lt_of_not_le fun unknown => ?_
  rw [Heap.isArray, contents, container, Array.getElem?_eq_none unknown] at isArray
  contradiction

/-- A path of distinct containers that is as long as the heap goes through all of them. -/
theorem mem_of_size_le_length {heap : Heap} {path : List ContainerId} {id : ContainerId}
    (nodup : path.Nodup) (known : ∀ other ∈ path, other.index < heap.containers.size)
    (long : heap.containers.size ≤ path.length) (inside : id.index < heap.containers.size) :
    id ∈ path := by
  refine Decidable.byContradiction fun missing => ?_
  have distinct : ((id :: path).map ContainerId.index).Nodup := by
    refine List.Pairwise.map ContainerId.index ?_ (List.nodup_cons.mpr ⟨missing, nodup⟩)
    exact fun first second differs same => differs (congrArg ContainerId.mk same)
  have below : (id :: path).map ContainerId.index ⊆ List.range heap.containers.size := by
    intro index member
    obtain ⟨other, listed, rfl⟩ := List.mem_map.mp member
    rcases List.mem_cons.mp listed with rfl | later
    · exact List.mem_range.mpr inside
    · exact List.mem_range.mpr (known other later)
  have short := distinct.length_le_of_subset below
  simp only [List.length_map, List.length_cons, List.length_range] at short
  omega

theorem joinWith_of_mem {heap : Heap} {itemText : List ContainerId → Value → Watch String}
    {separator : String} {path : List ContainerId} {id : ContainerId} (member : id ∈ path) :
    heap.joinWith itemText separator path id = pure "" := by
  rw [joinWith, if_pos member]

theorem joinWith_congr {heap : Heap} {first second : List ContainerId → Value → Watch String}
    {separator : String} {path : List ContainerId} {id : ContainerId}
    (same : id ∉ path → first (id :: path) = second (id :: path)) :
    heap.joinWith first separator path id = heap.joinWith second separator path id := by
  unfold joinWith
  split
  · rfl
  next missing => rw [same missing]

/-- Bounds that leave room for all containers that are not on the path give the same text. -/
theorem displayWithin_eq {heap : Heap} {first second : Nat} {path : List ContainerId}
    (nodup : path.Nodup) (known : ∀ other ∈ path, other.index < heap.containers.size)
    (enough : heap.containers.size ≤ first + path.length)
    (alsoEnough : heap.containers.size ≤ second + path.length) :
    heap.displayWithin first path = heap.displayWithin second path := by
  funext value
  induction first generalizing second path value with
  | zero =>
      cases value with
      | container id =>
          cases second with
          | zero => rfl
          | succ second =>
              simp only [displayWithin]
              split
              next isArray =>
                rw [joinWith_of_mem (mem_of_size_le_length nodup known (by omega)
                  (isArray_known isArray))]
              · rfl
      | _ => cases second <;> rfl
  | succ first ih =>
      cases value with
      | container id =>
          cases second with
          | zero =>
              simp only [displayWithin]
              split
              next isArray =>
                rw [joinWith_of_mem (mem_of_size_le_length nodup known (by omega)
                  (isArray_known isArray))]
              · rfl
          | succ second =>
              simp only [displayWithin]
              split
              next isArray =>
                have inside := isArray_known isArray
                refine joinWith_congr fun missing => funext fun item => ?_
                refine ih (List.nodup_cons.mpr ⟨missing, nodup⟩) ?_ ?_ ?_ item
                · intro other member
                  rcases List.mem_cons.mp member with rfl | later
                  · exact inside
                  · exact known other later
                · rw [List.length_cons]
                  omega
                · rw [List.length_cons]
                  omega
              · rfl
      | _ => cases second <;> rfl

theorem display_eq {heap : Heap} {depth : Nat} (enough : heap.containers.size ≤ depth)
    (value : Value) : heap.display value = heap.displayWithin depth [] value :=
  congrFun (displayWithin_eq .nil (fun _ member => nomatch member) (Nat.le_add_right _ _)
    (Nat.le_trans enough (Nat.le_add_right _ _))) value

theorem join_eq {heap : Heap} {depth : Nat} (enough : heap.containers.size ≤ depth)
    (separator : String) {id : ContainerId} (isArray : heap.isArray id = true) :
    heap.join separator id = heap.joinWith (heap.displayWithin depth) separator [] id := by
  refine joinWith_congr fun _ => displayWithin_eq (List.nodup_cons.mpr ⟨?_, .nil⟩) ?_ ?_ ?_
  · exact List.not_mem_nil
  · intro other member
    rw [List.mem_singleton.mp member]
    exact isArray_known isArray
  · exact Nat.le_add_right _ _
  · exact Nat.le_trans enough (Nat.le_add_right _ _)

end Heap

end LiveMarkup
