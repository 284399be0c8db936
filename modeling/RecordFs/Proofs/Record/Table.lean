import RecordFs.Proofs.Bytes
import RecordFs.Proofs.Path
import RecordFs.Proofs.Record.Reading

/-! Directory tables whose names are all different. Looking up a name, filling the first free slot
and freeing a slot are told by what is in each slot; the other slots stay as they are. -/
namespace RecordFs
open Function

namespace Directory

/-- A table under its own key, whose slots have different names that entries can have. -/
structure Proper (dir : Directory) (id : Id) : Prop where
  self : dir.self = id
  names : ∀ k : Fin dirEntries, (dir.slots.get k).isFree = false → Path.Entry (dir.slots.get k).name
  distinct : ∀ j k : Fin dirEntries, (dir.slots.get j).isFree = false → (dir.slots.get j).name = (dir.slots.get k).name → j = k

/-- No two slots have the same name but free ones. -/
def Distinct (dir : Directory) : Prop :=
  ∀ j k : Fin dirEntries, (dir.slots.get j).isFree = false → (dir.slots.get j).name = (dir.slots.get k).name → j = k

/-- The child in a slot that is not free. -/
def named? (dir : Directory) (k : Fin dirEntries) : Option Id :=
  if (dir.slots.get k).isFree then none else some (dir.slots.get k).child

/-- The table with another slot `k`. -/
def put (dir : Directory) (k : Fin dirEntries) (slot : Slot) : Directory :=
  { dir with slots := dir.slots.set k.val slot k.isLt }

variable {dir dir' : Directory} {id child : Id} {name : String} {j k : Fin dirEntries} {slot : Slot}

theorem isFree_iff : slot.isFree = true ↔ slot.name = "" := by rw [Slot.isFree, decide_eq_true_eq]

theorem isFree_eq_false_iff : slot.isFree = false ↔ slot.name ≠ "" := by rw [Slot.isFree, decide_eq_false_iff_not]

@[simp] theorem self_put : (dir.put k slot).self = dir.self := rfl

theorem slots_put (j : Fin dirEntries) : (dir.put k slot).slots.get j = if j = k then slot else dir.slots.get j :=
  Vector.get_set ..

theorem named?_eq_some : dir.named? k = some id ↔ (dir.slots.get k).isFree = false ∧ (dir.slots.get k).child = id := by
  rw [named?]
  cases (dir.slots.get k).isFree <;> simp

theorem named?_put_of_ne (other : j ≠ k) : (dir.put k slot).named? j = dir.named? j := by
  rw [named?, named?, slots_put, if_neg other]

theorem mem_slots : slot ∈ dir.slots ↔ ∃ k : Fin dirEntries, dir.slots.get k = slot := by
  rw [Vector.mem_iff_getElem]
  exact ⟨fun ⟨n, h, same⟩ => ⟨⟨n, h⟩, same⟩, fun ⟨k, same⟩ => ⟨k, k.isLt, same⟩⟩

theorem isFree_empty (id : Id) (k : Fin dirEntries) : ((empty id).slots.get k).isFree = true := by
  rw [empty, Vector.get_replicate]
  rfl

@[simp] theorem named?_empty (id : Id) (k : Fin dirEntries) : (empty id).named? k = none := if_pos (isFree_empty id k)

theorem proper_empty (id : Id) : (empty id).Proper id :=
  ⟨rfl, fun k hk => (nomatch (isFree_empty id k).symm.trans hk), fun j _ hj => (nomatch (isFree_empty id j).symm.trans hj)⟩

theorem Proper.toDistinct (h : dir.Proper id) : dir.Distinct := h.distinct

theorem Proper.fits (h : dir.Proper id) : dir.Fits := by
  intro slot member
  obtain ⟨k, rfl⟩ := mem_slots.mp (Vector.mem_toList_iff.mp member)
  cases free : (dir.slots.get k).isFree with
  | true =>
    rw [Slot.Fits, isFree_iff.mp free]
    decide
  | false => exact (h.names k free).short

theorem Distinct.find?_of_slot (h : dir.Distinct) (used : (dir.slots.get k).isFree = false) :
    dir.find? (dir.slots.get k).name = some (dir.slots.get k).child := by
  rw [find?, if_neg (isFree_eq_false_iff.mp used)]
  cases found : dir.slots.find? (·.name = (dir.slots.get k).name) with
  | none =>
    have := Vector.find?_eq_none.mp found (dir.slots.get k) (mem_slots.mpr ⟨k, rfl⟩)
    simp at this
  | some slot =>
    have same := Vector.find?_some found
    rw [decide_eq_true_eq] at same
    obtain ⟨j, rfl⟩ := mem_slots.mp (Vector.mem_of_find?_eq_some found)
    rw [h k j used same.symm]
    rfl

theorem exists_of_find? (h : dir.find? name = some id) :
    ∃ k : Fin dirEntries, (dir.slots.get k).isFree = false ∧ (dir.slots.get k).name = name ∧ (dir.slots.get k).child = id := by
  rw [find?] at h
  split at h
  · cases h
  · rename_i nonempty
    obtain ⟨slot, found, rfl⟩ := Option.map_eq_some_iff.mp h
    have same := Vector.find?_some found
    rw [decide_eq_true_eq] at same
    obtain ⟨k, rfl⟩ := mem_slots.mp (Vector.mem_of_find?_eq_some found)
    exact ⟨k, isFree_eq_false_iff.mpr (same ▸ nonempty), same, rfl⟩

theorem find?_eq_none_iff (nonempty : name ≠ "") :
    dir.find? name = none ↔ ∀ k : Fin dirEntries, (dir.slots.get k).name ≠ name := by
  rw [find?, if_neg nonempty, Option.map_eq_none_iff, Vector.find?_eq_none]
  constructor
  · intro h k same
    exact h _ (mem_slots.mpr ⟨k, rfl⟩) (decide_eq_true same)
  · rintro h slot member same
    obtain ⟨k, rfl⟩ := mem_slots.mp member
    exact h k (of_decide_eq_true same)

/-- The first slot that fits. -/
theorem findFinIdx?_eq_some {p : Slot → Bool} :
    dir.slots.findFinIdx? p = some k ↔ p (dir.slots.get k) = true ∧ ∀ j < k, p (dir.slots.get j) = false := by
  rw [Vector.findFinIdx?, Option.map_eq_some_iff]
  constructor
  · rintro ⟨i, found, rfl⟩
    obtain ⟨fits, before⟩ := Array.findFinIdx?_eq_some_iff.mp found
    refine ⟨fits, fun j hj => ?_⟩
    have := before ⟨j, by simp⟩ hj
    rwa [Bool.not_eq_true] at this
  · rintro ⟨fits, before⟩
    refine ⟨⟨k, by simp⟩, Array.findFinIdx?_eq_some_iff.mpr ⟨fits, fun j hj => ?_⟩, rfl⟩
    rw [Bool.not_eq_true]
    exact before ⟨j, Nat.lt_trans hj k.isLt⟩ hj

theorem findFinIdx?_eq_none {p : Slot → Bool} :
    dir.slots.findFinIdx? p = none ↔ ∀ k : Fin dirEntries, p (dir.slots.get k) = false := by
  rw [Vector.findFinIdx?_eq_none_iff]
  constructor
  · intro h k
    exact Bool.not_eq_true _ ▸ h _ (mem_slots.mpr ⟨k, rfl⟩)
  · rintro h slot member
    obtain ⟨k, rfl⟩ := mem_slots.mp member
    rw [h k]
    exact Bool.false_ne_true

theorem insert?_eq_some : dir.insert? name child = some (k, dir') ↔
    (dir.slots.get k).isFree = true ∧ (∀ j < k, (dir.slots.get j).isFree = false) ∧ dir' = dir.put k ⟨name, child⟩ := by
  rw [insert?, Option.map_eq_some_iff]
  constructor
  · rintro ⟨i, found, same⟩
    cases same
    obtain ⟨free, before⟩ := findFinIdx?_eq_some.mp found
    exact ⟨free, before, rfl⟩
  · rintro ⟨free, before, rfl⟩
    exact ⟨k, findFinIdx?_eq_some.mpr ⟨free, before⟩, rfl⟩

theorem insert?_eq_none : dir.insert? name child = none ↔ ∀ k : Fin dirEntries, (dir.slots.get k).isFree = false := by
  rw [insert?, Option.map_eq_none_iff, findFinIdx?_eq_none]

theorem remove?_eq_some (h : dir.remove? name = some (child, dir')) :
    ∃ k : Fin dirEntries, (dir.slots.get k).isFree = false ∧ (dir.slots.get k).name = name ∧
      (dir.slots.get k).child = child ∧ dir' = dir.put k {} := by
  rw [remove?] at h
  split at h
  · cases h
  · rename_i nonempty
    obtain ⟨k, found, same⟩ := Option.map_eq_some_iff.mp h
    cases same
    have named := of_decide_eq_true (findFinIdx?_eq_some.mp found).1
    exact ⟨k, isFree_eq_false_iff.mpr (named ▸ nonempty), named, rfl, rfl⟩

theorem remove?_eq_none_iff : dir.remove? name = none ↔ dir.find? name = none := by
  rw [remove?, find?]
  split
  · exact ⟨fun _ => rfl, fun _ => rfl⟩
  · rw [Option.map_eq_none_iff, Option.map_eq_none_iff, Vector.find?_eq_map_findFinIdx?_getElem,
      Option.map_eq_none_iff]

theorem Distinct.insert (h : dir.Distinct) (k : Fin dirEntries) (nonempty : name ≠ "") (new : dir.find? name = none) (child : Id) :
    (dir.put k ⟨name, child⟩).Distinct := by
  have others := (find?_eq_none_iff nonempty).mp new
  intro i j used same
  rw [slots_put] at used same
  rw [slots_put] at same
  by_cases hi : i = k <;> by_cases hj : j = k
  · exact hi.trans hj.symm
  · rw [if_pos hi, if_neg hj] at same
    exact absurd same.symm (others j)
  · rw [if_neg hi, if_pos hj] at same
    exact absurd same (others i)
  · rw [if_neg hi] at used
    rw [if_neg hi, if_neg hj] at same
    exact h i j used same

theorem isFree_default : ({} : Slot).isFree = true := rfl

theorem Distinct.remove (h : dir.Distinct) (k : Fin dirEntries) : (dir.put k {}).Distinct := by
  intro i j used same
  rw [slots_put] at used same
  rw [slots_put] at same
  split at used
  · cases isFree_default.symm.trans used
  · rename_i hi
    by_cases hj : j = k
    · rw [if_neg hi, if_pos hj] at same
      exact absurd same (isFree_eq_false_iff.mp used)
    · rw [if_neg hi, if_neg hj] at same
      exact h i j used same

theorem Proper.insert (h : dir.Proper id) (k : Fin dirEntries) (entry : Path.Entry name)
    (new : dir.find? name = none) (child : Id) : (dir.put k ⟨name, child⟩).Proper id := by
  refine ⟨h.self, fun j used => ?_, h.toDistinct.insert k entry.nonempty new child⟩
  rw [slots_put] at used ⊢
  split
  · exact entry
  · rename_i other
    rw [if_neg other] at used
    exact h.names j used

theorem Proper.remove (h : dir.Proper id) (k : Fin dirEntries) : (dir.put k {}).Proper id := by
  refine ⟨h.self, fun j used => ?_, h.toDistinct.remove k⟩
  rw [slots_put] at used ⊢
  split at used
  · cases isFree_default.symm.trans used
  · rename_i other
    rw [if_neg other]
    exact h.names j used

theorem Distinct.find?_eq_some (h : dir.Distinct) : dir.find? name = some child ↔
    ∃ k : Fin dirEntries, (dir.slots.get k).isFree = false ∧ (dir.slots.get k).name = name ∧ (dir.slots.get k).child = child :=
  ⟨exists_of_find?, fun ⟨_, used, named, here⟩ => named ▸ here ▸ h.find?_of_slot used⟩

/-- A slot that had and has another name, or none, does not matter. -/
theorem Distinct.find?_put_of_ne (h : dir.Distinct) (h' : (dir.put k slot).Distinct)
    (old : (dir.slots.get k).isFree = false → (dir.slots.get k).name ≠ name) (new : slot.isFree = false → slot.name ≠ name) :
    (dir.put k slot).find? name = dir.find? name := by
  refine Option.ext fun child => ?_
  rw [h.find?_eq_some, h'.find?_eq_some]
  refine exists_congr fun j => ?_
  rw [slots_put]
  split
  · rename_i here
    subst here
    exact ⟨fun ⟨used, named, _⟩ => absurd named (new used), fun ⟨used, named, _⟩ => absurd named (old used)⟩
  · exact Iff.rfl

theorem Distinct.find?_put_self (slot : Slot) (h : (dir.put k slot).Distinct) (used : slot.isFree = false) :
    (dir.put k slot).find? slot.name = some slot.child := by
  have here : (dir.put k slot).slots.get k = slot := by rw [slots_put, if_pos rfl]
  exact h.find?_eq_some.mpr ⟨k, by rw [here, used], by rw [here], by rw [here]⟩

theorem Distinct.find?_put_empty (h : dir.Distinct) (used : (dir.slots.get k).isFree = false) :
    (dir.put k {}).find? (dir.slots.get k).name = none := by
  rw [find?_eq_none_iff (isFree_eq_false_iff.mp used)]
  intro j same
  rw [slots_put] at same
  split at same
  · exact isFree_eq_false_iff.mp used same.symm
  · rename_i other
    exact other (h k j used same.symm).symm

theorem mem_occupied : slot ∈ dir.occupied ↔ ∃ k : Fin dirEntries, dir.slots.get k = slot ∧ slot.isFree = false := by
  rw [occupied, List.mem_filter, Vector.mem_toList_iff, mem_slots, Bool.not_eq_true']
  exact ⟨fun ⟨⟨k, same⟩, used⟩ => ⟨k, same, used⟩, fun ⟨k, same, used⟩ => ⟨⟨k, same⟩, used⟩⟩

theorem isEmpty_iff : dir.isEmpty = true ↔ ∀ k : Fin dirEntries, (dir.slots.get k).isFree = true := by
  rw [isEmpty, List.isEmpty_iff, List.eq_nil_iff_forall_not_mem]
  constructor
  · intro none k
    cases free : (dir.slots.get k).isFree with
    | true => rfl
    | false => exact absurd (mem_occupied.mpr ⟨k, rfl, free⟩) (none _)
  · intro free slot member
    obtain ⟨k, rfl, used⟩ := mem_occupied.mp member
    exact absurd ((free k).symm.trans used) Bool.noConfusion

theorem find?_of_isEmpty (empty : dir.isEmpty = true) (name : String) : dir.find? name = none := by
  cases found : dir.find? name with
  | none => rfl
  | some child =>
    obtain ⟨k, used, _⟩ := exists_of_find? found
    exact absurd ((isEmpty_iff.mp empty k).symm.trans used) Bool.noConfusion

theorem find?_empty (id : Id) (name : String) : (empty id).find? name = none :=
  find?_of_isEmpty (isEmpty_iff.mpr (isFree_empty id)) name

/-- The name in a slot that is not free. -/
def names (dir : Directory) (k : Fin dirEntries) : Option String :=
  if (dir.slots.get k).isFree then none else some (dir.slots.get k).name

theorem names_eq_some : dir.names k = some name ↔ (dir.slots.get k).isFree = false ∧ (dir.slots.get k).name = name := by
  rw [names]
  cases (dir.slots.get k).isFree <;> simp

theorem isNone_names (k : Fin dirEntries) : (dir.names k).isNone = (dir.slots.get k).isFree := by
  rw [names]
  cases (dir.slots.get k).isFree <;> rfl

theorem names_put (nonempty : name ≠ "") : (dir.put k ⟨name, child⟩).names = update dir.names k (some name) := by
  funext j
  rw [names, slots_put]
  by_cases here : j = k
  · rw [if_pos here, here, update_self]
    exact if_neg fun free => nonempty (isFree_iff.mp free)
  · rw [if_neg here, update_of_ne here, names]

theorem names_put_empty : (dir.put k {}).names = update dir.names k none := by
  funext j
  rw [names, slots_put]
  by_cases here : j = k
  · rw [if_pos here, here, update_self]
    rfl
  · rw [if_neg here, update_of_ne here, names]

theorem names_empty (id : Id) : (empty id).names = fun _ => none := funext fun k => if_pos (isFree_empty id k)

theorem toList_slots (dir : Directory) : dir.slots.toList = (List.finRange dirEntries).map fun k => dir.slots.get k := by
  refine List.ext_getElem (by simp) fun n _ _ => ?_
  rw [List.getElem_map, List.getElem_finRange, Vector.getElem_toList]
  rfl

theorem occupied_eq (dir : Directory) :
    dir.occupied = (List.finRange dirEntries).filterMap fun k =>
      if (dir.slots.get k).isFree then none else some (dir.slots.get k) := by
  rw [occupied, toList_slots, List.filter_map, ← List.filterMap_eq_map, List.filterMap_filter]
  refine congrArg (List.filterMap · _) (funext fun k => ?_)
  cases free : (dir.slots.get k).isFree <;> simp [free]

theorem map_name_occupied (dir : Directory) : dir.occupied.map (·.name) = (List.finRange dirEntries).filterMap dir.names := by
  rw [occupied_eq, List.map_filterMap]
  refine congrArg (List.filterMap · _) (funext fun k => ?_)
  rw [names]
  split <;> rfl

theorem find?_eq_none_iff_names (nonempty : name ≠ "") : dir.find? name = none ↔ ∀ k, dir.names k ≠ some name := by
  rw [find?_eq_none_iff nonempty]
  refine forall_congr' fun k => not_congr ?_
  rw [names_eq_some, isFree_eq_false_iff]
  exact ⟨fun same => ⟨same ▸ nonempty, same⟩, And.right⟩

end Directory
end RecordFs
