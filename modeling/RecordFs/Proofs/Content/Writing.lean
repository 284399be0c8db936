import RecordFs.Proofs.Content.Placing

/-! Writing goes along the spans of the range. Up to the position it has reached the file has the
new bytes and from there on the old ones; positions between two spans are block boundaries. -/
namespace RecordFs.Content
open Layout (Grown)

variable {faulty : Prop} {l₀ l : Layout} {w₀ w : World} {a : Allocation} {data : ByteArray} {offset stop pos : Nat}

/-- The bytes of a file with `data` laid over them at `offset`, done as far as `pos`. -/
def overlaid (old : Nat → UInt8) (data : ByteArray) (offset pos n : Nat) : UInt8 :=
  if offset ≤ n ∧ n < pos then byteAt data (n - offset) else old n

theorem overlaid_stay {old : Nat → UInt8} {pos' n : Nat} (le : pos ≤ pos') (h : ¬ (pos ≤ n ∧ n < pos')) :
    overlaid old data offset pos n = overlaid old data offset pos' n := by
  rw [overlaid, overlaid]
  have same : (offset ≤ n ∧ n < pos) ↔ offset ≤ n ∧ n < pos' := by omega
  simp only [same]

/-- The state of a write that has reached `pos`. -/
structure Filling (l₀ : Layout) (w₀ : World) (data : ByteArray) (offset stop pos : Nat) (l : Layout)
    (a : Allocation) (w : World) : Prop extends Allocated l₀ w₀ l a w where
  blocks : ∀ k, l.slot k ≠ .zero → ∃ b, w.get Block (l.slot k) = some b
  view : ∀ n, l.view w n = overlaid (l₀.view w₀) data offset pos n
  started : offset ≤ pos
  within : pos ≤ stop
  aligned : pos = offset ∨ pos = stop ∨ blockSize ∣ pos

namespace Allocated

theorem apart_root (h : Allocated l₀ w₀ l a w) (closed : w₀.Closed) (held : l₀.Held w₀) {k : Fin maxBlocks}
    (nonzero : l.slot k ≠ .zero) : w.Apart (l.slot k) := by
  rw [World.apart_congr h.cache]
  rcases h.grown.slots k with same | ⟨_, new, _⟩
  · rw [same] at nonzero ⊢
    exact held.apart k nonzero
  · intro root cached same
    exact new (same ▸ closed.root root cached)

theorem closed (h : Allocated l₀ w₀ l a w) (closed : w₀.Closed) (held : l₀.Held w₀) : w.Closed where
  zero := h.taken _ closed.zero
  stored id bytes found := by
    rcases h.find id with same | ⟨nonzero, k, rfl⟩
    · rw [same] at found
      exact h.taken _ (closed.stored id bytes found)
    · exact h.used closed held k nonzero
  root r cached := h.taken _ (closed.root r (h.cache ▸ cached))

theorem store (h : Allocated l₀ w₀ l a w) (closed : w₀.Closed) (held : l₀.Held w₀) {k : Fin maxBlocks}
    (nonzero : l.slot k ≠ .zero) (b : Block) : Allocated l₀ w₀ l a (w.save (l.slot k) b) :=
  { h with
    grown := h.grown.later fun _ used => used
    taken := h.taken
    cache := (World.cache_save_of_apart (h.apart_root closed held nonzero) b).trans h.cache
    find := fun id => by
      by_cases same : id = l.slot k
      · exact .inr ⟨same ▸ nonzero, k, same.symm⟩
      · rw [World.find_save_of_ne w b same]
        exact h.find id }

end Allocated

namespace Filling

theorem start (held : l.Held w) (fits : offset ≤ stop) : Filling l w data offset stop offset l { map := l.map } w :=
  { Allocated.start held with
    blocks := held.blocks
    view := fun n => (if_neg (by omega)).symm
    started := Nat.le_refl _
    within := fits
    aligned := .inl rfl }

theorem idle {w' : World} (h : Filling l₀ w₀ data offset stop pos l a w) (idle : Idle w w') :
    Filling l₀ w₀ data offset stop pos l a w' :=
  { h.toAllocated.of_find idle.find idle.cache idle.taken with
    blocks := fun k hk => by
      rw [World.get_of_find_eq (congrFun idle.find _)]
      exact h.blocks k hk
    view := fun n => by
      rw [Layout.view_congr (fun _ => rfl) (fun k _ => congrFun idle.find (l.slot k))]
      exact h.view n
    started := h.started
    within := h.within
    aligned := h.aligned }

section step
variable {rest : List Span} {span : Span} (h : Filling l₀ w₀ data offset stop pos l a w)
  (cuts : Cuts stop pos (span :: rest)) (stops : stop = offset + data.size) {l' : Layout} {a' : Allocation}
  {w' : World} {id : Id} {isNew : Bool} (idle : Idle w w') (allocated : Allocated l₀ w₀ l' a' w')
  (placed : Placed l w span.index l' id isNew) {base : Block}
  (kept : ¬ (span.start = 0 ∧ span.length = blockSize) → base = l.block w span.index)
  {chunk : ByteArray} (piece : chunk = data.extract (pos - offset) (pos - offset + span.length))
  (fits : span.start + chunk.size ≤ blockSize)
include h cuts stops idle allocated placed kept piece

/-- The bytes of the span are the new ones. -/
theorem view_step (n : Nat) : l'.view (w'.save id (base.overlay span.start chunk fits)) n =
    overlaid (l₀.view w₀) data offset (pos + span.length) n := by
  have started := h.started
  have size : chunk.size = span.length := by
    have := cuts.length_le
    rw [piece, ByteArray.size_extract]
    omega
  obtain rfl := placed.slot
  rw [Layout.view_save_slot placed.nonzero (base.overlay span.start chunk fits) placed.others allocated.distinct
    idle.find, h.view]
  split
  · rename_i here
    have view := h.view n
    rw [Layout.view_eq here] at view
    have split_n := Nat.div_add_mod n blockSize
    rw [here, Nat.mul_comm] at split_n
    rw [Block.byteAt_overlay, size]
    cases cuts with
    | cons at_pos before length inside tail =>
    split
    · rename_i on
      have here : pos - offset + (n % blockSize - span.start) = n - offset := by omega
      rw [piece, byteAt_extract, if_pos (by omega), here, overlaid, if_pos (by omega)]
    · rename_i off
      have small := Nat.mod_lt n (show blockSize > 0 by decide)
      rw [kept (by omega), view]
      exact overlaid_stay (Nat.le_add_right _ _) (by omega)
  · rename_i away
    exact overlaid_stay (Nat.le_add_right _ _) fun between => away (cuts.div_eq between.1 between.2)

/-- The block under a span is stored over what was in it. -/
theorem step (closed : w₀.Closed) (held : l₀.Held w₀) :
    Filling l₀ w₀ data offset stop (pos + span.length) l' a' (w'.save id (base.overlay span.start chunk fits)) := by
  have view := view_step h cuts stops idle allocated placed kept piece fits
  have nonzero := placed.nonzero
  obtain rfl := placed.slot
  refine { allocated.store closed held nonzero _ with
    blocks := fun k hk => ?_, view, started := Nat.le_add_right_of_le h.started
    within := cuts.length_le, aligned := .inr cuts.aligned }
  rw [World.get_save]
  by_cases same : k = span.index
  · subst same
    exact ⟨_, Function.update_self ..⟩
  · have apart : l'.slot k ≠ l'.slot span.index := fun slot => same (allocated.distinct k _ hk slot)
    rw [Function.update_of_ne apart, World.get_of_find_eq (congrFun idle.find _), placed.others k same]
    exact h.blocks k (placed.others k same ▸ hk)

end step

section base
variable {span : Span} {l' : Layout} {w' : World} {id : Id} {isNew : Bool} (placed : Placed l w span.index l' id isNew)
include placed

/-- A block that is not fetched is new or is written whole. -/
theorem zero_of_unfetched (unfetched : (isNew || span.length = blockSize) = true)
    (partly : ¬ (span.start = 0 ∧ span.length = blockSize)) : Block.zero = l.block w span.index := by
  rw [Bool.or_eq_true, decide_eq_true_eq] at unfetched
  rcases unfetched with new | whole
  · exact (Layout.block_of_zero (placed.new new).1).symm
  · have := span.fits
    exact absurd whole (by omega)

/-- A block that is fetched is the one that the file has. -/
theorem stored_of_fetched (h : Filling l₀ w₀ data offset stop pos l a w) (idle : Idle w w')
    (fetched : ¬ (isNew || span.length = blockSize) = true) :
    ∃ b, w'.get Block id = some b ∧ b = l.block w span.index := by
  rw [Bool.or_eq_true, not_or, Bool.not_eq_true] at fetched
  have slot := placed.old fetched.1
  have nonzero : l.slot span.index ≠ .zero := slot ▸ placed.nonzero
  obtain ⟨b, stored⟩ := h.blocks span.index nonzero
  refine ⟨b, ?_, (Layout.block_of_get nonzero stored).symm⟩
  rw [World.get_of_find_eq (congrFun idle.find _), ← stored, slot]

end base
end Filling

/-- Either the whole range is written or a call failed on the way. -/
theorem ensures_writeSpans {spans : List Span} (closed : w₀.Closed) (held : l₀.Held w₀)
    (cuts : Cuts stop pos spans) (stops : stop = offset + data.size) (h : Filling l₀ w₀ data offset stop pos l a w)
    {position : Nat} (reached : position = pos - offset) :
    EnsuresAlloc faulty (writeSpans data spans position) a w fun r a' w' =>
      (r = .ok () ∧ ∃ l', Filling l₀ w₀ data offset stop stop l' a' w') ∨
        faulty ∧ (∃ f, r = .error (.ofFault f)) ∧ ∃ pos' l' a'', Filling l₀ w₀ data offset stop pos' l' a'' w' := by
  induction spans generalizing pos position l a w with
  | nil =>
    cases cuts with
    | nil done =>
      obtain rfl := Nat.le_antisymm h.within done
      exact .inl ⟨rfl, l, h⟩
  | cons span rest ih =>
    have next : position + span.length = pos + span.length - offset := by
      have := h.started
      omega
    rw [writeSpans, ensuresAlloc_bind]
    refine (ensures_blockFor closed held h.toAllocated span.index).mono ?_
    rintro r a' w' ⟨idle, ⟨⟨id, isNew⟩, l', rfl, allocated, placed⟩ | ⟨hf, f, rfl⟩⟩
    · have saves (base : Block)
          (kept : ¬ (span.start = 0 ∧ span.length = blockSize) → base = l.block w span.index) fits :
          EnsuresAlloc faulty (do
            act (Store.save id (base.overlay span.start (data.extract position (position + span.length)) fits))
            writeSpans data rest (position + span.length)) a' w' fun r a' w' =>
            (r = .ok () ∧ ∃ l', Filling l₀ w₀ data offset stop stop l' a' w') ∨
              faulty ∧ (∃ f, r = .error (.ofFault f)) ∧
                ∃ pos' l' a'', Filling l₀ w₀ data offset stop pos' l' a'' w' := by
        have apart : w'.Apart id := by
          obtain rfl := placed.slot
          exact allocated.apart_root closed held placed.nonzero
        rw [ensuresAlloc_bind, ensuresAlloc_act]
        refine Store.ensures_save_of_apart apart (fun hf f => .inr ⟨hf, ⟨f, rfl⟩, pos, l, a, h.idle idle⟩) ?_
        exact ih cuts.tail (h.step cuts stops idle allocated placed kept (by rw [reached]) fits closed held) next
      simp only
      split
      · rename_i unfetched
        rw [ensuresAlloc_bind, ensuresAlloc_pure]
        exact saves Block.zero (Filling.zero_of_unfetched placed unfetched) _
      · rename_i fetched
        obtain ⟨b, stored, same⟩ := h.stored_of_fetched placed idle fetched
        rw [ensuresAlloc_bind, ensuresAlloc_act]
        refine Store.ensures_load stored (fun hf f => .inr ⟨hf, ⟨f, rfl⟩, pos, l, a, h.idle idle⟩) ?_
        exact saves b (fun _ => same) _
    · exact .inr ⟨hf, ⟨f, rfl⟩, pos, l, a, h.idle idle⟩

end RecordFs.Content
