import RecordFs.Proofs.Content.Written
import RecordFs.Proofs.Store.Careful

/-! Writing and clearing put only what is admitted: blocks that the file has or that are new, and maps that
name at least what the stored ones name. -/
namespace RecordFs
open Stored

namespace Layout
variable {l₀ l : Layout} {w₀ w : World}

/-- Each slot is that of some block. -/
theorem place_surjective (p : Fin directBlocks ⊕ Fin indirectBlocks) : ∃ k, Content.place k = p := by
  cases p with
  | inl i =>
    have small : i.val < maxBlocks := Nat.lt_of_lt_of_le i.isLt (by decide)
    exact ⟨⟨i, small⟩, dif_pos i.isLt⟩
  | inr i =>
    have small : directBlocks + i.val < maxBlocks := Nat.add_lt_add_left i.isLt _
    refine ⟨⟨directBlocks + i, small⟩, ?_⟩
    rw [Content.place, dif_neg (Nat.not_lt.mpr (Nat.le_add_right ..))]
    simp

theorem Grown.keeps (h : Grown l₀ l w₀ w) : l₀.map.Keeps l.map where
  direct i nonzero := by
    obtain ⟨k, at_⟩ := place_surjective (.inl i)
    rw [← slot_of_direct at_] at nonzero ⊢
    rw [← slot_of_direct at_]
    exact h.slot_of_ne nonzero
  indirect := h.indirect_of_ne

theorem Grown.keeps_table (h : Grown l₀ l w₀ w) : l₀.table.Keeps l.table := by
  intro i nonzero
  obtain ⟨k, at_⟩ := place_surjective (.inr i)
  rw [← slot_of_beyond at_] at nonzero ⊢
  rw [← slot_of_beyond at_]
  exact h.slot_of_ne nonzero

end Layout

namespace Content
variable {α β : Type} {l₀ l : Layout} {w₀ w : World} {a : Allocation} {data : ByteArray} {offset stop pos : Nat} {mapId : Id}

theorem careful_clearSpans {stop pos : Nat} {spans : List Span} (cuts : Cuts stop pos spans) (held : l.Held w)
    {indirect : Option IndirectMap} (known : Known l indirect) : Careful (clearSpans l.map spans indirect) w := by
  induction spans generalizing pos indirect w with
  | nil => exact .pure ()
  | cons span rest ih =>
    obtain ⟨indirect', known', block⟩ := yields_blockAt True held known span.index
    refine .after block ?_
    rintro _ ⟨⟩
    dsimp only
    split
    · exact ih cuts.tail held known'
    · rename_i nonzero
      obtain ⟨b, stored⟩ := held.blocks span.index nonzero
      refine .after (Store.yields_load stored) ?_
      rintro _ ⟨⟩
      refine .save_bind (World.admits_again (κ := .dataBlock) stored trivial) (fun r cached same => absurd same (held.apart _ nonzero r cached)) ?_
      exact ih cuts.tail (held.save nonzero _) known'

theorem careful_clear (held : l.Held w) (start stop : Nat) : Careful (clear l.map start stop) w :=
  careful_clearSpans (cuts_spans _) held nofun

/-- Every put of a program that allocates blocks is admitted. -/
def CarefulAlloc (x : Allocating α) (a : Allocation) (w : World) : Prop := ((x.run.run a).run w.cache).Careful w.toStock

namespace CarefulAlloc

theorem bind {x : Allocating α} {f : α → Allocating β} (h : CarefulAlloc x a w)
    (next : EnsuresAlloc True x a w fun r a' w' =>
      match r with
      | .ok b => CarefulAlloc (f b) a' w'
      | .error _ => True) : CarefulAlloc (x >>= f) a w := by
  refine Access.Careful.bind (x := (x.run.run a).run w.cache) h (Access.ensures_mono ?_ next)
  rintro ⟨⟨r, a'⟩, cache⟩ s careful
  cases r with
  | ok b => exact careful
  | error e => trivial

/-- The next part is careful wherever it starts. -/
theorem seq {x : Allocating α} {f : α → Allocating β} (h : CarefulAlloc x a w) (next : ∀ b a w, CarefulAlloc (f b) a w) :
    CarefulAlloc (x >>= f) a w := by
  refine h.bind (Access.ensures_of_forall (fun done s => ?_) _ _)
  cases done.1.1 with
  | ok b => exact next b _ _
  | error e => trivial

theorem pure (b : α) : CarefulAlloc (pure b) a w := trivial

theorem act {x : Action α} (h : Careful x w) : CarefulAlloc (act x) a w :=
  Access.Careful.bind h (Access.ensures_of_forall (fun _ _ => trivial) _ _)

end CarefulAlloc

/-- Finding the indirect map puts nothing. -/
theorem careful_indirectMap (a : Allocation) (w : World) : CarefulAlloc indirectMap a w := by
  have loaded (id : Id) (a : Allocation) (w : World) : CarefulAlloc (Content.act (Store.load IndirectMap id)) a w :=
    have ⟨_, yields, _⟩ := Store.exists_yields_load True IndirectMap w id
    .act (.of_yields yields)
  refine .seq (x := allocation) trivial fun a _ w => ?_
  split
  · exact .seq (x := Content.act Store.freshId) (fun _ _ => trivial) fun _ _ _ => trivial
  · split
    · trivial
    · exact .seq (loaded _ _ _) fun _ _ _ => trivial

/-- Finding a block to write to puts nothing. -/
theorem careful_blockFor (k : Fin maxBlocks) (a : Allocation) (w : World) : CarefulAlloc (blockFor k) a w := by
  have fresh {β : Type} {f : Id → Allocating β} (next : ∀ id a w, CarefulAlloc (f id) a w) (a : Allocation) (w : World) :
      CarefulAlloc (Content.act Store.freshId >>= f) a w :=
    .seq (x := Content.act Store.freshId) (fun _ _ => trivial) next
  unfold blockFor
  split
  · refine .seq (x := allocation) trivial fun a _ w => ?_
    split
    · trivial
    · refine fresh (fun _ _ _ => ?_) _ _
      trivial
  · refine .seq (careful_indirectMap a w) fun table a w => ?_
    split
    · trivial
    · refine fresh (fun _ _ _ => ?_) _ _
      trivial

section write
variable (closed : w₀.Closed) (held : l₀.Held w₀) (used : w₀.taken .rootPointer)
include closed held used

/-- What is new can be put, since the fixed key is taken from the start. -/
theorem Allocated.admits_new {ρ : Type} [Stored ρ] [Sized ρ] {id : Id} (h : Allocated l₀ w₀ l a w) (new : ¬ w.taken id) (r : ρ) :
    Admits w.find id (encode r) :=
  World.admits_new ((h.closed closed held).find_of_new new) (fun same => new (h.taken _ (same ▸ used))) r

theorem careful_writeSpans {spans : List Span} (cuts : Cuts stop pos spans) (stops : stop = offset + data.size)
    (h : Filling l₀ w₀ data offset stop pos l a w) {position : Nat} (reached : position = pos - offset) :
    CarefulAlloc (writeSpans data spans position) a w := by
  induction spans generalizing pos position l a w with
  | nil => exact .pure ()
  | cons span rest ih =>
    have next : position + span.length = pos + span.length - offset := by
      have := h.started
      omega
    refine .bind (careful_blockFor span.index a w) ?_
    refine (ensures_blockFor closed held h.toAllocated span.index).mono ?_
    rintro _ a' w' ⟨idle, ⟨⟨id, isNew⟩, l', rfl, allocated, placed⟩ | ⟨hf, f, rfl⟩⟩
    rotate_left
    · trivial
    -- The block is new, or the file had it.
    have admits (block : Block) : Admits w'.find id (encode block) := by
      rw [idle.find]
      cases isNew with
      | true => exact h.toAllocated.admits_new closed held used (placed.new rfl).2 block
      | false =>
        have slot := placed.old rfl
        obtain ⟨b, stored⟩ := h.blocks span.index (slot ▸ placed.nonzero)
        exact World.admits_again (κ := .dataBlock) (slot ▸ stored) trivial
    have saves (base : Block)
        (kept : ¬ (span.start = 0 ∧ span.length = blockSize) → base = l.block w span.index) fits :
        CarefulAlloc (do
          Content.act (Store.save id (base.overlay span.start (data.extract position (position + span.length)) fits))
          writeSpans data rest (position + span.length)) a' w' := by
      have apart : w'.Apart id := by
        obtain rfl := placed.slot
        exact allocated.apart_root closed held placed.nonzero
      refine .bind (.act (.save (admits _))) ?_
      rw [ensuresAlloc_act]
      refine Store.ensures_save_of_apart apart (fun _ _ => trivial) ?_
      exact ih cuts.tail (h.step cuts stops idle allocated placed kept (by rw [reached]) fits closed held) next
    dsimp only
    split
    · rename_i unfetched
      exact saves Block.zero (Filling.zero_of_unfetched placed unfetched) _
    · rename_i fetched
      obtain ⟨b, stored, same⟩ := h.stored_of_fetched placed idle fetched
      refine .bind (.act (.of_yields (Store.yields_load stored))) ?_
      rw [ensuresAlloc_act]
      refine Store.ensures_load stored (fun _ _ => trivial) ?_
      exact saves b (fun _ => same) _

/-- The indirect map of a file is new, or it is stored and names no less than before. -/
theorem Filling.admits_indirect (h : Filling l₀ w₀ data offset stop pos l a w) (nonzero : l.map.indirect ≠ .zero) :
    Admits w.find l.map.indirect (encode l.table) := by
  rcases h.grown.indirect with same | ⟨_, new, _⟩
  · rw [same] at nonzero ⊢
    have stored : w.get IndirectMap l₀.map.indirect = some l₀.table := by
      rw [World.get_of_find_eq (h.find_indirect nonzero)]
      exact held.table_of_ne nonzero
    exact World.admits_again (κ := .indirectMap) stored h.grown.keeps_table
  · refine World.admits_new ?_ (fun same : l.map.indirect = .rootPointer => new (same ▸ used)) _
    rcases h.find l.map.indirect with same | ⟨nonzero, k, slot⟩
    · rw [same, closed.find_of_new new]
    · exact absurd slot (h.apart k (slot ▸ nonzero))

theorem careful_writeBlocks (stored : w₀.get BlockMap mapId = some l₀.map) (fits : offset + data.size ≤ maxFileSize) :
    CarefulAlloc (writeBlocks mapId data offset) { map := l₀.map } w₀ := by
  have start : Filling l₀ w₀ data offset (offset + data.size) offset l₀ { map := l₀.map } w₀ :=
    .start held (Nat.le_add_right _ _)
  have reached : 0 = offset - offset := (Nat.sub_self _).symm
  rw [writeBlocks, checkExtent_of_le fits]
  refine .bind (x := MonadExcept.ofExcept (.ok _)) trivial ?_
  refine .bind (careful_writeSpans closed held used (cuts_spans fits) rfl start reached) ?_
  refine (ensures_writeSpans closed held (cuts_spans fits) rfl start reached).mono ?_
  rintro _ a w (⟨rfl, l, h⟩ | ⟨_, ⟨f, rfl⟩, _⟩)
  rotate_left
  · trivial
  have last {w' : World} (t : Tabled l₀ mapId w₀ l w w') :
      CarefulAlloc (do Content.act (Store.save mapId a.map); return data.size) a w' := by
    rw [h.map]
    refine .seq (.act (.save ?_)) fun _ _ _ => .pure _
    have found : w'.get BlockMap mapId = some l₀.map := by
      rw [World.get_of_find_eq (t.find_map h (keyed_of_stored closed held stored)), stored]
    exact World.admits_again (κ := .blockMap) found h.grown.keeps
  refine .bind (x := allocation) trivial ?_
  rw [ensuresAlloc_allocation]
  dsimp only
  cases changed : a.changed with
  | false => exact last (h.tabled_of_unchanged closed held changed)
  | true =>
    obtain ⟨at_hand, nonzero⟩ := h.at_hand changed
    simp only [if_true, at_hand, h.map]
    refine .bind (.act (.save (h.admits_indirect closed held used nonzero))) ?_
    rw [ensuresAlloc_act]
    refine Store.ensures_save_of_apart (h.apart_indirect closed held nonzero) (fun _ _ => trivial) ?_
    have rest := last (h.tabled_of_changed closed held nonzero)
    rwa [h.map] at rest

/-- Every put of a write is admitted. -/
theorem careful_write (stored : w₀.get BlockMap mapId = some l₀.map) (fits : offset + data.size ≤ maxFileSize) :
    Careful (write mapId l₀.map data offset) w₀ := by
  refine Access.Careful.bind ?_ (Access.ensures_of_forall (fun _ _ => trivial) _ _)
  refine Access.Careful.bind ?_ (Access.ensures_of_forall (fun _ _ => trivial) _ _)
  exact careful_writeBlocks closed held used stored fits

end write

end Content
end RecordFs
