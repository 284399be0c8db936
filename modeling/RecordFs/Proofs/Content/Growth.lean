import RecordFs.Proofs.Content.Allocating

/-! Layouts that grow. Allocating fills empty slots with new identifiers and names an indirect map
where none was named; what a file already had stays where it was. -/
namespace RecordFs

namespace Layout

/-- The layout with `id` in the slot of block `k`. -/
def set (l : Layout) (k : Fin maxBlocks) (id : Id) : Layout :=
  match Content.place k with
  | .inl i => { l with map := { l.map with direct := l.map.direct.set i.val id i.isLt } }
  | .inr i => { l with table := ⟨l.table.blocks.set i.val id i.isLt⟩ }

theorem set_of_direct {l : Layout} {k : Fin maxBlocks} {i : Fin directBlocks} (h : Content.place k = .inl i)
    (id : Id) : l.set k id = { l with map := { l.map with direct := l.map.direct.set i.val id i.isLt } } := by
  rw [set, h]

theorem set_of_beyond {l : Layout} {k : Fin maxBlocks} {i : Fin indirectBlocks} (h : Content.place k = .inr i)
    (id : Id) : l.set k id = { l with table := ⟨l.table.blocks.set i.val id i.isLt⟩ } := by
  rw [set, h]

theorem slot_set (l : Layout) (k j : Fin maxBlocks) (id : Id) :
    (l.set k id).slot j = if j = k then id else l.slot j := by
  by_cases same : j = k
  · subst same
    rw [if_pos rfl, set, slot]
    cases h : Content.place j <;> simp [Vector.get_set]
  · have apart : Content.place j ≠ Content.place k := fun h => same (Content.place_injective h)
    rw [if_neg same, set, slot, slot]
    cases hk : Content.place k <;> cases hj : Content.place j <;> rw [hk, hj] at apart <;>
      simp_all [Vector.get_set]

@[simp] theorem indirect_set (l : Layout) (k : Fin maxBlocks) (id : Id) :
    (l.set k id).map.indirect = l.map.indirect := by
  rw [set]
  split <;> rfl

/-- What `l` names and `l₀` did not has been handed out between `w₀` and `w`. -/
structure Grown (l₀ l : Layout) (w₀ w : World) : Prop where
  slots : ∀ k, l.slot k = l₀.slot k ∨ l₀.slot k = .zero ∧ ¬ w₀.taken (l.slot k) ∧ w.taken (l.slot k)
  indirect : l.map.indirect = l₀.map.indirect ∨
    l₀.map.indirect = .zero ∧ ¬ w₀.taken l.map.indirect ∧ w.taken l.map.indirect

theorem Grown.refl (l : Layout) (w w' : World) : Grown l l w w' := ⟨fun _ => .inl rfl, .inl rfl⟩

theorem Grown.slot_of_ne {l₀ l : Layout} {w₀ w : World} (h : Grown l₀ l w₀ w) {k : Fin maxBlocks}
    (nonzero : l₀.slot k ≠ .zero) : l.slot k = l₀.slot k :=
  (h.slots k).resolve_right fun new => nonzero new.1

theorem Grown.indirect_of_ne {l₀ l : Layout} {w₀ w : World} (h : Grown l₀ l w₀ w)
    (nonzero : l₀.map.indirect ≠ .zero) : l.map.indirect = l₀.map.indirect :=
  h.indirect.resolve_right fun new => nonzero new.1

/-- A slot that is empty has been empty all the time. -/
theorem Grown.zero_of_slot {l₀ l : Layout} {w₀ w : World} (h : Grown l₀ l w₀ w) {k : Fin maxBlocks}
    (zero : l.slot k = .zero) : l₀.slot k = .zero :=
  (h.slots k).elim (fun same => same.symm.trans zero) fun new => new.1

theorem Grown.zero_of_indirect {l₀ l : Layout} {w₀ w : World} (h : Grown l₀ l w₀ w)
    (zero : l.map.indirect = .zero) : l₀.map.indirect = .zero :=
  h.indirect.elim (fun same => same.symm.trans zero) fun new => new.1

theorem Grown.later {l₀ l : Layout} {w₀ w w' : World} (h : Grown l₀ l w₀ w)
    (taken : ∀ id, w.taken id → w'.taken id) : Grown l₀ l w₀ w' :=
  ⟨fun k => (h.slots k).imp_right fun ⟨zero, new, used⟩ => ⟨zero, new, taken _ used⟩,
    h.indirect.imp_right fun ⟨zero, new, used⟩ => ⟨zero, new, taken _ used⟩⟩

end Layout

namespace Content
open Layout (Grown)
variable {faulty : Prop} {l₀ l : Layout} {w₀ w : World} {a : Allocation}

/-- How far allocating has come: the layout that `a` stands for has grown out of `l₀`, which is
stored in `w₀`, and nothing but its blocks has been stored since. -/
structure Allocated (l₀ : Layout) (w₀ : World) (l : Layout) (a : Allocation) (w : World) : Prop where
  map : a.map = l.map
  known : Known l a.indirect
  same : a.changed = false → l.table = l₀.table ∧ l.map.indirect = l₀.map.indirect
  at_hand : a.changed = true → a.indirect = some l.table ∧ l.map.indirect ≠ .zero
  none : l.map.indirect = .zero → l.table = .empty
  grown : Grown l₀ l w₀ w
  distinct : ∀ j k, l.slot j ≠ .zero → l.slot j = l.slot k → j = k
  apart : ∀ k, l.slot k ≠ .zero → l.slot k ≠ l.map.indirect
  taken : ∀ id, w₀.taken id → w.taken id
  cache : w.cache = w₀.cache
  find : ∀ id, w.find id = w₀.find id ∨ id ≠ .zero ∧ ∃ k, l.slot k = id

namespace Allocated

theorem start (held : l.Held w) : Allocated l w l { map := l.map } w where
  map := rfl
  known _ h := nomatch h
  same _ := ⟨rfl, rfl⟩
  at_hand h := nomatch h
  none := held.table_of_zero
  grown := .refl l w w
  distinct := held.distinct
  apart k nonzero same := by
    obtain ⟨b, stored⟩ := held.blocks k nonzero
    have table := World.get_none_of_kind (σ := IndirectMap) stored (by decide)
    rw [same] at nonzero table
    rw [held.table_of_ne nonzero] at table
    cases table
  taken _ h := h
  cache := rfl
  find _ := .inl rfl

/-- The indirect map of `l₀` is still stored, since no block stands under its key. -/
theorem find_indirect (h : Allocated l₀ w₀ l a w) (nonzero : l₀.map.indirect ≠ .zero) :
    w.find l₀.map.indirect = w₀.find l₀.map.indirect := by
  rcases h.find l₀.map.indirect with same | ⟨_, k, slot⟩
  · exact same
  · rw [← slot] at nonzero
    exact absurd (slot.trans (h.grown.indirect_of_ne (slot ▸ nonzero)).symm) (h.apart k nonzero)

theorem of_find (h : Allocated l₀ w₀ l a w) {w' : World} (find : w'.find = w.find) (cache : w'.cache = w.cache)
    (taken : ∀ id, w.taken id → w'.taken id) : Allocated l₀ w₀ l a w' :=
  { h with
    grown := h.grown.later taken
    taken := fun id hid => taken id (h.taken id hid)
    cache := cache.trans h.cache
    find := fun id => find ▸ h.find id }

/-- What the layout names has been handed out. -/
theorem used (h : Allocated l₀ w₀ l a w) (closed : w₀.Closed) (held : l₀.Held w₀) (k : Fin maxBlocks)
    (nonzero : l.slot k ≠ .zero) : w.taken (l.slot k) := by
  rcases h.grown.slots k with same | ⟨_, _, used⟩
  · rw [same] at nonzero ⊢
    obtain ⟨b, stored⟩ := held.blocks k nonzero
    exact h.taken _ (closed.taken_of_get stored)
  · exact used

theorem used_indirect (h : Allocated l₀ w₀ l a w) (closed : w₀.Closed) (held : l₀.Held w₀) :
    w.taken l.map.indirect := by
  rcases h.grown.indirect with same | ⟨_, _, used⟩
  · rw [same]
    by_cases zero : l₀.map.indirect = .zero
    · exact zero ▸ h.taken _ closed.zero
    · exact h.taken _ (closed.taken_of_get (held.table_of_ne zero))
  · exact used

theorem nonzero_of_new (h : Allocated l₀ w₀ l a w) (closed : w₀.Closed) {id : Id} (new : ¬ w.taken id) :
    id ≠ .zero := fun zero => new (h.taken _ (zero ▸ closed.zero))

/-- Names a new indirect map. -/
theorem name (h : Allocated l₀ w₀ l a w) (closed : w₀.Closed) (held : l₀.Held w₀)
    (zero : l.map.indirect = .zero) {id : Id} (new : ¬ w.taken id) :
    Allocated l₀ w₀ { l with map := { l.map with indirect := id } }
      { map := { l.map with indirect := id }, indirect := some .empty, changed := true } (w.take id) := by
  have nonzero := h.nonzero_of_new closed new
  have taken (x : Id) (hx : w.taken x) : (w.take id).taken x := .inr hx
  refine {
    map := rfl
    known := ?known
    same := nofun
    at_hand := fun _ => ⟨?_, nonzero⟩
    none := fun zero => absurd zero nonzero
    grown := ⟨(h.grown.later taken).slots, .inr ⟨h.grown.zero_of_indirect zero, fun old => new (h.taken _ old), .inl rfl⟩⟩
    distinct := h.distinct
    apart := fun k used same => ?apart
    taken := fun x used => taken x (h.taken x used)
    cache := h.cache
    find := h.find }
  case known =>
    rintro t ⟨⟩
    exact (h.none zero).symm
  · rw [h.none zero]
  case apart =>
    have slot : l.slot k = id := same
    exact new (slot ▸ h.used closed held k used)

/-- Fills an empty slot. -/
theorem fill (h : Allocated l₀ w₀ l a w) (closed : w₀.Closed) (held : l₀.Held w₀) {k : Fin maxBlocks}
    (zero : l.slot k = .zero) {id : Id} (new : ¬ w.taken id) {a' : Allocation}
    (map : a'.map = (l.set k id).map) (known : Known (l.set k id) a'.indirect)
    (same : a'.changed = false → (l.set k id).table = l₀.table ∧ l.map.indirect = l₀.map.indirect)
    (at_hand : a'.changed = true → a'.indirect = some (l.set k id).table ∧ l.map.indirect ≠ .zero)
    (none : l.map.indirect = .zero → (l.set k id).table = .empty) :
    Allocated l₀ w₀ (l.set k id) a' (w.take id) := by
  have nonzero := h.nonzero_of_new closed new
  have taken (x : Id) (hx : w.taken x) : (w.take id).taken x := .inr hx
  refine {
    map
    known
    same := by simpa using same
    at_hand := by simpa using at_hand
    none := by simpa using none
    grown := ⟨fun j => ?slots, ?indirect⟩
    distinct := fun i j used same => ?distinct
    apart := fun j used => ?apart
    taken := fun x used => taken x (h.taken x used)
    cache := h.cache
    find := fun x => ?find }
  case slots =>
    rw [Layout.slot_set]
    split
    · rename_i here
      exact .inr ⟨here ▸ h.grown.zero_of_slot zero, fun old => new (h.taken _ old), .inl rfl⟩
    · exact (h.grown.later taken).slots j
  case indirect =>
    rw [Layout.indirect_set]
    exact (h.grown.later taken).indirect
  case distinct =>
    rw [Layout.slot_set] at used
    rw [Layout.slot_set, Layout.slot_set] at same
    by_cases first : i = k <;> by_cases second : j = k
    · exact first.trans second.symm
    · rw [if_pos first, if_neg second] at same
      exact absurd (h.used closed held j (same ▸ nonzero)) (same ▸ new)
    · rw [if_neg first, if_pos second] at same
      rw [if_neg first] at used
      exact absurd (h.used closed held i used) (same ▸ new)
    · rw [if_neg first, if_neg second] at same
      rw [if_neg first] at used
      exact h.distinct i j used same
  case apart =>
    rw [Layout.slot_set] at used ⊢
    rw [Layout.indirect_set]
    split
    · rintro rfl
      exact new (h.used_indirect closed held)
    · rename_i off
      rw [if_neg off] at used
      exact h.apart j used
  case find =>
    refine (h.find x).imp_right fun ⟨nonzero, j, slot⟩ => ⟨nonzero, j, ?_⟩
    rw [Layout.slot_set, if_neg, slot]
    rintro rfl
    exact nonzero (slot.symm.trans zero)

end Allocated
end Content
end RecordFs
