import RecordFs.Content.Mapping
import RecordFs.Proofs.Bytes
import RecordFs.Proofs.Content.Cuts
import RecordFs.Proofs.Store.Ensures

/-! The layout of a file: which block stands at which index, and the flat bytes that these
blocks make up. Missing blocks are zeros. -/
namespace RecordFs

/-- A block map and its indirect map, which is empty when the block map names none. -/
structure Layout where
  map : BlockMap
  table : IndirectMap

/-- The layout of a file whose block map is `map`. -/
def World.layout (w : World) (map : BlockMap) : Layout :=
  ⟨map, if map.indirect = .zero then .empty else (w.get IndirectMap map.indirect).getD .empty⟩

namespace Block

theorem byteAt_overlay (b : Block) (start : Nat) (data : ByteArray) (fits : start + data.size ≤ blockSize)
    (i : Nat) : byteAt (b.overlay start data fits).bytes i =
      if start ≤ i ∧ i < start + data.size then byteAt data (i - start) else byteAt b.bytes i := by
  have size := b.size_bytes
  have spliced : (b.overlay start data fits).bytes = splice b.bytes data start := by
    have none : zeros (start - b.bytes.size) = ByteArray.empty := by
      rw [Nat.sub_eq_zero_of_le (by omega)]
      rfl
    rw [splice, none, ByteArray.append_empty, size]
    rfl
  rw [spliced, byteAt_splice]

theorem byteAt_slice (b : Block) (start length i : Nat) :
    byteAt (b.slice start length) i = if i < length then byteAt b.bytes (start + i) else 0 := by
  rw [slice, byteAt_extract]
  simp only [Nat.add_lt_add_iff_left]

@[simp] theorem byteAt_zero (i : Nat) : byteAt zero.bytes i = 0 := byteAt_zeros _ _

end Block

namespace Layout

def slot (l : Layout) (k : Fin maxBlocks) : Id :=
  match Content.place k with
  | .inl i => l.map.direct.get i
  | .inr i => l.table.blocks.get i

def block (l : Layout) (w : World) (k : Fin maxBlocks) : Block :=
  if l.slot k = .zero then .zero else (w.get Block (l.slot k)).getD .zero

/-- The bytes of the file as far as it can reach. -/
def view (l : Layout) (w : World) (n : Nat) : UInt8 :=
  if h : n < maxFileSize then byteAt (l.block w (blockIndex n h)).bytes (n % blockSize) else 0

/-- The blocks of the layout are stored, each under a key of its own and none under the root's. -/
structure Backed (l : Layout) (w : World) : Prop where
  blocks : ∀ k, l.slot k ≠ .zero → ∃ b, w.get Block (l.slot k) = some b
  distinct : ∀ j k, l.slot j ≠ .zero → l.slot j = l.slot k → j = k
  apart : ∀ k, l.slot k ≠ .zero → w.Apart (l.slot k)

/-- All that the layout names is stored, the indirect map as well. -/
structure Held (l : Layout) (w : World) : Prop extends Backed l w where
  table : if l.map.indirect = .zero then l.table = .empty else w.get IndirectMap l.map.indirect = some l.table
  apart_table : l.map.indirect ≠ .zero → w.Apart l.map.indirect

/-- Nothing was stored but blocks of the layout. -/
structure Touches (l : Layout) (w w' : World) : Prop where
  cache : w'.cache = w.cache
  find : ∀ id, w'.find id = w.find id ∨ id ≠ .zero ∧ (∃ k, l.slot k = id) ∧ ∃ b, w'.get Block id = some b

theorem block_of_zero {l : Layout} {w : World} {k : Fin maxBlocks} (h : l.slot k = .zero) :
    l.block w k = .zero := if_pos h

theorem block_of_get {l : Layout} {w : World} {k : Fin maxBlocks} {b : Block} (nonzero : l.slot k ≠ .zero)
    (h : w.get Block (l.slot k) = some b) : l.block w k = b := by
  rw [block, if_neg nonzero, h]
  rfl

theorem slot_of_direct {l : Layout} {k : Fin maxBlocks} {i : Fin directBlocks} (h : Content.place k = .inl i) :
    l.slot k = l.map.direct.get i := by
  rw [slot, h]

theorem slot_of_beyond {l : Layout} {k : Fin maxBlocks} {i : Fin indirectBlocks} (h : Content.place k = .inr i) :
    l.slot k = l.table.blocks.get i := by
  rw [slot, h]

/-- In block `k`, byte `n` of the view is the byte of that block. -/
theorem view_eq {l : Layout} {w : World} {k : Fin maxBlocks} {n : Nat} (h : n / blockSize = k) :
    l.view w n = byteAt (l.block w k).bytes (n % blockSize) := by
  have small : n < maxFileSize := by
    have := k.isLt
    rw [← h, Nat.div_lt_iff_lt_mul (by decide)] at this
    exact this
  have same : blockIndex n small = k := Fin.ext h
  rw [view, dif_pos small, same]

theorem Held.table_of_ne {l : Layout} {w : World} (h : l.Held w) (nonzero : l.map.indirect ≠ .zero) :
    w.get IndirectMap l.map.indirect = some l.table := by
  simpa only [if_neg nonzero] using h.table

theorem Held.table_of_zero {l : Layout} {w : World} (h : l.Held w) (zero : l.map.indirect = .zero) :
    l.table = .empty := by
  simpa only [if_pos zero] using h.table

theorem Touches.refl (l : Layout) (w : World) : l.Touches w w := ⟨rfl, fun _ => .inl rfl⟩

theorem Touches.trans {l : Layout} {w w' w'' : World} (h : l.Touches w w') (k : l.Touches w' w'') :
    l.Touches w w'' := by
  refine ⟨k.cache.trans h.cache, fun id => ?_⟩
  rcases k.find id with same | changed
  · rcases h.find id with same' | ⟨nonzero, slot, b, stored⟩
    · exact .inl (same.trans same')
    · exact .inr ⟨nonzero, slot, b, (World.get_of_find_eq same).trans stored⟩
  · exact .inr changed

/-- Stored blocks stay what they are when nothing under their keys and no root changes. -/
theorem Backed.congr {l l' : Layout} {w w' : World} (h : l.Backed w) (slots : ∀ k, l'.slot k = l.slot k)
    (find : ∀ k, l.slot k ≠ .zero → w'.find (l.slot k) = w.find (l.slot k)) (cache : w'.cache = w.cache) :
    l'.Backed w' := by
  refine ⟨fun k hk => ?_, fun j k hj => ?_, fun k hk => ?_⟩
  · rw [slots] at hk ⊢
    rw [World.get_of_find_eq (find k hk)]
    exact h.blocks k hk
  · rw [slots, slots] at *
    exact h.distinct j k hj
  · rw [slots] at hk ⊢
    exact (World.apart_congr cache).mpr (h.apart k hk)

/-- A layout that has some of the blocks of another. -/
theorem Backed.of_slots {l l₁ : Layout} {w : World} (h : l.Backed w)
    (slots : ∀ k, l₁.slot k ≠ .zero → l₁.slot k = l.slot k) : l₁.Backed w := by
  refine ⟨fun k hk => ?_, fun j k hj same => ?_, fun k hk => ?_⟩
  · have slot := slots k hk
    rw [slot] at hk ⊢
    exact h.blocks k hk
  · have nonzero := same ▸ hj
    rw [slots j hj] at hj
    rw [slots j (same ▸ nonzero), slots k nonzero] at same
    exact h.distinct j k hj same
  · have slot := slots k hk
    rw [slot] at hk ⊢
    exact h.apart k hk

/-- The view of a block depends on its slot and what is stored there. -/
theorem view_of_slot {l l' : Layout} {w : World} {k : Fin maxBlocks} {n : Nat} (h : n / blockSize = k)
    (slot : l'.slot k = l.slot k) : l'.view w n = l.view w n := by
  rw [view_eq h, view_eq h, block, block, slot]

theorem view_of_zero {l : Layout} {w : World} {k : Fin maxBlocks} {n : Nat} (h : n / blockSize = k)
    (zero : l.slot k = .zero) : l.view w n = 0 := by
  rw [view_eq h, block_of_zero zero, Block.byteAt_zero]

theorem view_congr {l l' : Layout} {w w' : World} (slots : ∀ k, l'.slot k = l.slot k)
    (find : ∀ k, l.slot k ≠ .zero → w'.find (l.slot k) = w.find (l.slot k)) (n : Nat) :
    l'.view w' n = l.view w n := by
  unfold view
  split
  · rename_i h
    have same : l'.block w' (blockIndex n h) = l.block w (blockIndex n h) := by
      unfold block
      rw [slots]
      split
      · rfl
      · rename_i nonzero
        rw [World.get_of_find_eq (find _ nonzero)]
    rw [same]
  · rfl

/-- Storing a block, in a slot that may have been empty, changes the view in that block only. -/
theorem view_save_slot {l l' : Layout} {w w' : World} {k : Fin maxBlocks} (nonzero : l'.slot k ≠ .zero) (b : Block)
    (others : ∀ j, j ≠ k → l'.slot j = l.slot j)
    (distinct : ∀ i j, l'.slot i ≠ .zero → l'.slot i = l'.slot j → i = j) (find : w'.find = w.find) (n : Nat) :
    l'.view (w'.save (l'.slot k) b) n =
      if n / blockSize = k then byteAt b.bytes (n % blockSize) else l.view w n := by
  by_cases here : n / blockSize = k
  · have stored : (w'.save (l'.slot k) b).get Block (l'.slot k) = some b := by
      rw [World.get_save, Function.update_self]
    rw [if_pos here, view_eq here, block_of_get nonzero stored]
  · rw [if_neg here, view, view]
    split
    · rename_i small
      have other : blockIndex n small ≠ k := fun h => here (congrArg Fin.val h)
      have same : l'.block (w'.save (l'.slot k) b) (blockIndex n small) = l.block w (blockIndex n small) := by
        by_cases zero : l.slot (blockIndex n small) = .zero
        · rw [block_of_zero zero, block_of_zero ((others _ other).trans zero)]
        · have slot := others _ other
          have apart : l.slot (blockIndex n small) ≠ l'.slot k := fun same =>
            other (distinct _ _ (slot ▸ zero) (slot.trans same))
          rw [block, block, slot, if_neg zero, if_neg zero, World.get_save, Function.update_of_ne apart,
            World.get_of_find_eq (congrFun find _)]
      rw [same]
    · rfl

section save
variable {l : Layout} {w : World} {k : Fin maxBlocks} (nonzero : l.slot k ≠ .zero) (b : Block)
include nonzero

theorem Backed.touches_save (h : l.Backed w) : l.Touches w (w.save (l.slot k) b) := by
  refine ⟨World.cache_save_of_apart (h.apart k nonzero) b, fun id => ?_⟩
  by_cases same : id = l.slot k
  · refine .inr ⟨same ▸ nonzero, ⟨k, same.symm⟩, b, ?_⟩
    rw [World.get_save, same, Function.update_self]
  · exact .inl (World.find_save_of_ne w b same)

theorem Backed.save (h : l.Backed w) : l.Backed (w.save (l.slot k) b) := by
  refine ⟨fun j hj => ?_, h.distinct, fun j hj => ?_⟩
  · rw [World.get_save]
    by_cases same : l.slot j = l.slot k
    · exact ⟨b, by rw [same, Function.update_self]⟩
    · rw [Function.update_of_ne same]
      exact h.blocks j hj
  · exact (World.apart_congr (World.cache_save_of_apart (h.apart k nonzero) b)).mpr (h.apart j hj)

theorem Held.save (h : l.Held w) : l.Held (w.save (l.slot k) b) := by
  obtain ⟨old, stored⟩ := h.blocks k nonzero
  have table : (w.save (l.slot k) b).get IndirectMap = w.get IndirectMap :=
    World.get_save_of_none w _ b (by decide) (World.get_none_of_kind stored (by decide))
  refine ⟨h.toBacked.save nonzero b, by rw [table]; exact h.table, fun some => ?_⟩
  exact (World.apart_congr (World.cache_save_of_apart (h.apart k nonzero) b)).mpr (h.apart_table some)

/-- Storing a block changes the view in that block only. -/
theorem Backed.view_save (h : l.Backed w) (n : Nat) :
    l.view (w.save (l.slot k) b) n = if n / blockSize = k then byteAt b.bytes (n % blockSize) else l.view w n :=
  view_save_slot nonzero b (fun _ _ => rfl) h.distinct rfl n

end save

theorem view_beyond {l : Layout} {w : World} {n : Nat} (h : maxFileSize ≤ n) : l.view w n = 0 :=
  dif_neg (by omega)

end Layout

/-- An indirect map at hand is the layout's. -/
def Content.Known (l : Layout) (indirect : Option IndirectMap) : Prop := ∀ t, indirect = some t → t = l.table

theorem Content.place_injective {j k : Fin maxBlocks} (h : place j = place k) : j = k := by
  by_cases hj : j.val < directBlocks <;> by_cases hk : k.val < directBlocks
  · simpa [place, hj, hk, Fin.ext_iff] using h
  · simp [place, hj, hk] at h
  · simp [place, hj, hk] at h
  · simp only [place, dif_neg hj, dif_neg hk, Sum.inr.injEq, Fin.mk.injEq] at h
    exact Fin.ext (by omega)

theorem World.layout_held {w : World} {l : Layout} (h : l.Held w) : w.layout l.map = l := by
  have table := h.table
  obtain ⟨map, t⟩ := l
  simp only [World.layout]
  split at table
  · rename_i zero
    rw [if_pos zero]
    exact congrArg (Layout.mk map) table.symm
  · rename_i nonzero
    rw [if_neg nonzero, table]
    rfl

end RecordFs
