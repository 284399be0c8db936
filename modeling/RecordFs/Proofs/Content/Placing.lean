import RecordFs.Proofs.Content.Growth

/-! Finding the block to write to. It is the one in the layout or a new one, and in both cases the
layout then has it in the slot of its index and all other slots are as before. -/
namespace RecordFs.Content

variable {faulty : Prop} {l₀ l : Layout} {w₀ w : World} {a : Allocation}

/-- Nothing was stored; identifiers may have been handed out. -/
structure Idle (w w' : World) : Prop where
  find : w'.find = w.find
  cache : w'.cache = w.cache
  taken : ∀ id, w.taken id → w'.taken id

theorem Idle.refl (w : World) : Idle w w := ⟨rfl, rfl, fun _ h => h⟩

theorem Idle.take (w : World) (id : Id) : Idle w (w.take id) := ⟨rfl, rfl, fun _ h => .inr h⟩

theorem Idle.trans {w w' w'' : World} (h : Idle w w') (k : Idle w' w'') : Idle w w'' :=
  ⟨k.find.trans h.find, k.cache.trans h.cache, fun id hid => k.taken id (h.taken id hid)⟩

/-- The layout `l'` is `l` with block `k` under `id`, where `l` had it or, when it is new, had none. -/
structure Placed (l : Layout) (w : World) (k : Fin maxBlocks) (l' : Layout) (id : Id) (isNew : Bool) : Prop where
  slot : l'.slot k = id
  nonzero : id ≠ .zero
  others : ∀ j, j ≠ k → l'.slot j = l.slot j
  old : isNew = false → l.slot k = id
  new : isNew = true → l.slot k = .zero ∧ ¬ w.taken id

theorem placed_set {k : Fin maxBlocks} {id : Id} (zero : l.slot k = .zero) (nonzero : id ≠ .zero)
    (new : ¬ w.taken id) : Placed l w k (l.set k id) id true where
  slot := by rw [Layout.slot_set, if_pos rfl]
  nonzero := nonzero
  others j hj := by rw [Layout.slot_set, if_neg hj]
  old h := Bool.noConfusion h
  new _ := ⟨zero, new⟩

theorem Placed.of_slots {l l' l'' : Layout} {w w' : World} {k : Fin maxBlocks} {id : Id} {isNew : Bool}
    (h : Placed l' w' k l'' id isNew) (slots : ∀ j, l'.slot j = l.slot j) (taken : ∀ x, w.taken x → w'.taken x) :
    Placed l w k l'' id isNew where
  slot := h.slot
  nonzero := h.nonzero
  others j hj := (h.others j hj).trans (slots j)
  old c := (slots k).symm.trans (h.old c)
  new c := ⟨(slots k).symm.trans (h.new c).1, fun used => (h.new c).2 (taken id used)⟩

/-- The outcome of allocating: what came of it fits `P`, or a call failed. Nothing was stored. -/
def Allocates (faulty : Prop) (l₀ : Layout) (w₀ w : World) {α : Type} (P : α → Layout → Allocation → Prop)
    (r : Except Failure α) (a' : Allocation) (w' : World) : Prop :=
  Idle w w' ∧ ((∃ v l', r = .ok v ∧ Allocated l₀ w₀ l' a' w' ∧ P v l' a') ∨
    faulty ∧ ∃ f, r = .error (.ofFault f))

theorem ensures_indirectMap (closed : w₀.Closed) (held : l₀.Held w₀) (h : Allocated l₀ w₀ l a w) :
    EnsuresAlloc faulty indirectMap a w (Allocates faulty l₀ w₀ w fun table l' a' =>
      table = l'.table ∧ l'.map.indirect ≠ .zero ∧ a'.indirect = some l'.table ∧ ∀ k, l'.slot k = l.slot k) := by
  rw [indirectMap, ensuresAlloc_bind, ensuresAlloc_allocation]
  simp only [h.map]
  by_cases zero : l.map.indirect = .zero
  · rw [if_pos zero, ensuresAlloc_bind, ensuresAlloc_act]
    refine Store.ensures_freshId fun id new => ?_
    simp only
    rw [ensuresAlloc_bind, ensuresAlloc_set]
    refine ⟨.take w id, .inl ⟨.empty, _, rfl, h.name closed held zero new, ?_⟩⟩
    exact ⟨(h.none zero).symm, h.nonzero_of_new closed new, congrArg some (h.none zero).symm, fun _ => rfl⟩
  · rw [if_neg zero]
    cases at_hand : a.indirect with
    | some table =>
      have same := h.known table at_hand
      exact ⟨.refl w, .inl ⟨table, l, rfl, h, same, zero, same ▸ at_hand, fun _ => rfl⟩⟩
    | none =>
      have unchanged : a.changed = false := by
        cases c : a.changed with
        | false => rfl
        | true =>
          have := (h.at_hand c).1
          rw [at_hand] at this
          cases this
      obtain ⟨table, indirect⟩ := h.same unchanged
      have stored : w.get IndirectMap l.map.indirect = some l.table := by
        rw [indirect] at zero ⊢
        rw [World.get_of_find_eq (h.find_indirect zero), table]
        exact held.table_of_ne zero
      rw [ensuresAlloc_bind, ensuresAlloc_act]
      refine Store.ensures_load stored (fun hf f => ⟨.refl w, .inr ⟨hf, f, rfl⟩⟩) ?_
      simp only
      rw [ensuresAlloc_bind, ensuresAlloc_set]
      refine ⟨.refl w, .inl ⟨l.table, l, rfl, ?_, rfl, zero, rfl, fun _ => rfl⟩⟩
      exact { h with
        map := rfl
        known := fun t ht => (Option.some.inj ht).symm
        at_hand := fun c => absurd c (by simp [unchanged]) }

section fill
variable {k : Fin maxBlocks} {id : Id} (h : Allocated l₀ w₀ l a w) (closed : w₀.Closed) (held : l₀.Held w₀)
  (zero : l.slot k = .zero) (new : ¬ w.taken id)
include h closed held zero new

/-- A slot of the map itself is filled, and the indirect map is as it was. -/
theorem Allocated.fill_direct {i : Fin directBlocks} (at_ : place k = .inl i) : Allocated l₀ w₀ (l.set k id)
    { a with map := { l.map with direct := l.map.direct.set i.val id i.isLt } } (w.take id) := by
  have layout := Layout.set_of_direct at_ (l := l) id
  have table : (l.set k id).table = l.table := by rw [layout]
  refine h.fill closed held zero new ?map ?known ?same ?at_hand ?none
  case map => rw [layout]
  case known =>
    rw [Known, table]
    exact h.known
  case same =>
    rw [table]
    exact h.same
  case at_hand =>
    rw [table]
    exact h.at_hand
  case none =>
    rw [table]
    exact h.none

/-- A slot of an indirect map is filled, which is at hand and differs from the stored one then. -/
theorem Allocated.fill_beyond {i : Fin indirectBlocks} (at_ : place k = .inr i) (named : l.map.indirect ≠ .zero) :
    Allocated l₀ w₀ (l.set k id) { a with indirect := some ⟨l.table.blocks.set i.val id i.isLt⟩, changed := true }
      (w.take id) := by
  have layout := Layout.set_of_beyond at_ (l := l) id
  refine h.fill closed held zero new ?map ?known (fun c => Bool.noConfusion c) ?at_hand fun none => absurd none named
  case map =>
    rw [layout]
    exact h.map
  case known =>
    rintro t ⟨⟩
    rw [layout]
  case at_hand =>
    rw [layout]
    exact fun _ => ⟨rfl, named⟩

end fill

theorem ensures_blockFor (closed : w₀.Closed) (held : l₀.Held w₀) (h : Allocated l₀ w₀ l a w)
    (k : Fin maxBlocks) :
    EnsuresAlloc faulty (blockFor k) a w (Allocates faulty l₀ w₀ w fun v l' _ => Placed l w k l' v.1 v.2) := by
  unfold blockFor
  cases at_ : place k with
  | inl i =>
    simp only
    rw [ensuresAlloc_bind, ensuresAlloc_allocation]
    simp only [h.map]
    have slot : l.map.direct[i] = l.slot k := (Layout.slot_of_direct at_).symm
    by_cases zero : l.slot k = .zero
    · rw [slot, if_neg (not_not_intro zero), ensuresAlloc_bind, ensuresAlloc_act]
      refine Store.ensures_freshId fun id new => ?_
      simp only
      rw [ensuresAlloc_bind, ensuresAlloc_set]
      have placed := placed_set zero (h.nonzero_of_new closed new) new
      exact ⟨.take w id, .inl ⟨_, _, rfl, h.fill_direct closed held zero new at_, placed⟩⟩
    · rw [slot, if_pos zero]
      exact ⟨.refl w, .inl ⟨_, l, rfl, h, rfl, zero, fun _ _ => rfl, fun _ => rfl, fun c => Bool.noConfusion c⟩⟩
  | inr i =>
    simp only
    rw [ensuresAlloc_bind]
    refine (ensures_indirectMap closed held h).mono ?_
    rintro r a' w' ⟨idle, ⟨table, l', rfl, h', rfl, named, at_hand, slots⟩ | ⟨hf, f, rfl⟩⟩
    · have slot : l'.table.blocks[i] = l.slot k := (Layout.slot_of_beyond at_).symm.trans (slots k)
      simp only [slot]
      by_cases zero : l.slot k = .zero
      · rw [if_neg (not_not_intro zero), ensuresAlloc_bind, ensuresAlloc_act]
        refine Store.ensures_freshId fun id new => ?_
        simp only
        rw [ensuresAlloc_bind, ensuresAlloc_modify]
        have zero' := (slots k).trans zero
        have placed := placed_set zero' (h'.nonzero_of_new closed new) new
        have filled := h'.fill_beyond closed held zero' new at_ named
        exact ⟨idle.trans (.take w' id), .inl ⟨_, _, rfl, filled, placed.of_slots slots idle.taken⟩⟩
      · rw [if_pos zero]
        exact ⟨idle, .inl ⟨_, l', rfl, h', slots k, zero, fun j _ => slots j, fun _ => rfl, fun c => Bool.noConfusion c⟩⟩
    · exact ⟨idle, .inr ⟨hf, f, rfl⟩⟩

end RecordFs.Content
