import RecordFs.Content.Mapping
import RecordFs.Proofs.Content.Cuts
import RecordFs.Proofs.Strict.Programs

/-! The bytes of files read and written with every step checked: the arithmetic of positions, the slots of the
maps, the slices of blocks and of what is written. -/
namespace RecordFs
open Checked

/-- A part of a block that no bound is known of. -/
structure Piece where
  index : Nat
  start : Nat
  length : Nat

namespace Piece

/-- The pieces of `[pos, stop)`. -/
def cut (pos stop : Nat) : Checked (List Piece) := do
  if pos < stop then
    let length := min (blockSize - pos % blockSize) (stop - pos)
    let _ ← sub blockSize (pos % blockSize)
    let _ ← sub stop pos
    let _ ← add pos length
    return ⟨pos / blockSize, pos % blockSize, length⟩ :: (← cut (pos + length) stop)
  return []
termination_by stop - pos
decreasing_by
  have := Nat.mod_lt pos (show blockSize > 0 by decide)
  omega

end Piece

def Span.piece (span : Span) : Piece := ⟨span.index, span.start, span.length⟩

theorem Piece.cut_eq {pos stop : Nat} {l : List Span} (h : Cuts stop pos l) (small : stop ≤ maxFileSize) :
    cut pos stop = .ok (l.map Span.piece) := by
  induction l generalizing pos with
  | nil =>
    cases h with
    | nil done =>
      rw [cut, if_neg (Nat.not_lt.mpr done)]
      rfl
  | cons span rest ih =>
    obtain ⟨index, start⟩ := h.div_mod_add h.length_pos
    have within := h.length_le
    simp only [Nat.add_zero] at index start
    cases h with
    | cons _ before length inside tail =>
      rw [cut, if_pos before, sub_of_le (Nat.le_of_lt (start ▸ inside)), sub_of_le (Nat.le_of_lt before), index, start, ← length]
      change (add _ _ >>= _) = _
      rw [add_of_le (by omega), ih tail]
      rfl

namespace Content.Strict

/-- A block with `data` laid over the `length` bytes from `start` on. -/
def overlay (block : Block) (start length : Nat) (data : ByteArray) : Checked Block := do
  let _ ← slice block.bytes start (← add start length)
  if h : data.size = length ∧ start + data.size ≤ blockSize then return block.overlay start data h.2 else throw .slice

def blockAt (map : BlockMap) (indirect : Option IndirectMap) (index : Nat) : StrictAction (Id × Option IndirectMap) := do
  if index < directBlocks then return (← element map.direct.toList index, indirect)
  let slot ← sub index directBlocks
  if map.indirect = .zero then return (.zero, indirect)
  let table ← match indirect with
    | some table => pure table
    | none => Store.Strict.load IndirectMap map.indirect
  return (← element table.blocks.toList slot, some table)

def readPieces (map : BlockMap) : List Piece → Option IndirectMap → ByteArray → StrictAction ByteArray
  | [], _, out => return out
  | piece :: rest, indirect, out => do
    let (id, indirect) ← blockAt map indirect piece.index
    if id = .zero then readPieces map rest indirect (← extend out (zeros piece.length))
    else
      let block ← Store.Strict.load Block id
      let bytes ← slice block.bytes piece.start (← add piece.start piece.length)
      readPieces map rest indirect (← extend out bytes)

/-- The buffer for the result is allocated at the start. -/
def read (map : BlockMap) (offset length : Nat) : StrictAction ByteArray := do
  let stop := min (min (offset + length) countMax) maxFileSize
  if stop ≤ offset then return .empty
  allocate (← sub stop offset)
  readPieces map (← Piece.cut offset stop) none .empty

def clearPieces (map : BlockMap) : List Piece → Option IndirectMap → StrictAction Unit
  | [], _ => return ()
  | piece :: rest, indirect => do
    let (id, indirect) ← blockAt map indirect piece.index
    unless id = .zero do
      let block ← Store.Strict.load Block id
      Store.Strict.save id (← overlay block piece.start piece.length (zeros piece.length))
    clearPieces map rest indirect

def clear (map : BlockMap) (start stop : Nat) : StrictAction Unit := do
  clearPieces map (← Piece.cut start (min stop maxFileSize)) none

end Content.Strict

namespace Content

theorem Strict.overlay_eq {block : Block} {start length : Nat} {data : ByteArray} (fits : start + data.size ≤ blockSize)
    (size : data.size = length) : overlay block start length data = .ok (block.overlay start data fits) := by
  subst size
  rw [overlay, add_of_le (Nat.le_trans fits blockSize_le)]
  change (slice _ _ _ >>= _) = _
  rw [slice_of_le (Nat.le_add_right ..) (block.size_bytes.symm ▸ fits)]
  exact dif_pos ⟨rfl, fits⟩

theorem sub_lt_indirectBlocks (index : Fin maxBlocks) : index.val - directBlocks < indirectBlocks := by
  have := index.isLt
  simp only [maxBlocks, directBlocks, indirectBlocks] at *
  omega

theorem inStep_blockAt (map : BlockMap) (indirect : Option IndirectMap) (index : Fin maxBlocks) :
    InStep (fun _ => True) (Strict.blockAt map indirect index) (blockAt map indirect index) := by
  rw [Strict.blockAt, blockAt, place]
  by_cases within : index.val < directBlocks
  · rw [if_pos within, dif_pos within]
    exact .check (element_toList _ within) (.pure trivial)
  · have slot := sub_lt_indirectBlocks index
    have found (table : IndirectMap) : InStep (fun _ => True)
        (do return (← element table.blocks.toList (index - directBlocks), some table))
        (return (table.blocks[(⟨index - directBlocks, slot⟩ : Fin indirectBlocks)], some table)) :=
      .check (element_toList _ slot) (.pure trivial)
    rw [if_neg within, dif_neg within]
    apply InStep.check (sub_of_le (Nat.not_lt.mp within))
    dsimp only
    refine .ite Iff.rfl (fun _ => .pure trivial) fun _ => ?_
    cases indirect with
    | none => exact (Store.inStep_load IndirectMap _).bind fun table _ => found table
    | some table => exact found table

/-- What is read fits into the buffer. -/
theorem inStep_readSpans (map : BlockMap) {stop pos : Nat} {l : List Span} (cuts : Cuts stop pos l) (small : stop ≤ maxFileSize)
    (indirect : Option IndirectMap) {out : ByteArray} (room : out.size ≤ pos) :
    InStep (fun _ => True) (Strict.readPieces map (l.map Span.piece) indirect out) (readSpans map l indirect out) := by
  induction l generalizing pos indirect out with
  | nil => exact .pure trivial
  | cons span rest ih =>
    have within := cuts.length_le
    have fits := span.fits
    apply (inStep_blockAt map indirect span.index).bind
    rintro ⟨id, indirect⟩ _
    have more (bytes : ByteArray) (size : bytes.size = span.length) : InStep (fun _ => True)
        (do Strict.readPieces map (rest.map Span.piece) indirect (← extend out bytes))
        (readSpans map rest indirect (out ++ bytes)) := by
      apply InStep.check (extend_of_le (by omega))
      exact ih cuts.tail indirect (by rw [ByteArray.size_append]; omega)
    refine .ite Iff.rfl (fun _ => more _ (size_zeros _)) fun _ => ?_
    apply (Store.inStep_load Block id).bind
    intro block _
    have whole := block.size_bytes
    have slice : slice block.bytes span.start (span.start + span.length) = .ok (block.slice span.start span.length) :=
      slice_of_le (Nat.le_add_right ..) (by omega)
    apply InStep.check (add_of_le (Nat.le_trans fits blockSize_le))
    apply InStep.check slice
    exact more _ (by rw [Block.slice, ByteArray.size_extract]; omega)

theorem inStep_read (map : BlockMap) (offset length : Nat) :
    InStep (fun _ => True) (Strict.read map offset length) (read map offset length) := by
  have small : min (min (offset + length) countMax) maxFileSize ≤ maxFileSize := Nat.min_le_right ..
  rw [Strict.read, read]
  by_cases before : min (min (offset + length) countMax) maxFileSize ≤ offset
  · rw [if_pos before, spans, if_neg (Nat.not_lt.mpr before)]
    exact .pure trivial
  · rw [if_neg before]
    apply InStep.check (sub_of_le (Nat.le_of_not_le before))
    apply InStep.check (allocate_of_le (Nat.le_trans (Nat.sub_le ..) small))
    apply InStep.check (Piece.cut_eq (cuts_spans small) small)
    exact inStep_readSpans map (cuts_spans small) small none (Nat.zero_le _)

theorem inStep_clearSpans (map : BlockMap) (l : List Span) (indirect : Option IndirectMap) :
    InStep (fun _ => True) (Strict.clearPieces map (l.map Span.piece) indirect) (clearSpans map l indirect) := by
  induction l generalizing indirect with
  | nil => exact .pure trivial
  | cons span rest ih =>
    apply (inStep_blockAt map indirect span.index).bind
    rintro ⟨id, indirect⟩ _
    refine .ite Iff.rfl (fun _ => ih indirect) fun _ => ?_
    apply (Store.inStep_load Block id).bind
    intro block _
    apply InStep.check (Strict.overlay_eq (by rw [size_zeros]; exact span.fits) (size_zeros _))
    exact (Store.inStep_save trivial id).bind fun _ _ => ih indirect

theorem inStep_clear (map : BlockMap) (start stop : Nat) :
    InStep (fun _ => True) (Strict.clear map start stop) (clear map start stop) := by
  have small : min stop maxFileSize ≤ maxFileSize := Nat.min_le_right ..
  exact .check (Piece.cut_eq (cuts_spans small) small) (inStep_clearSpans map _ none)

end Content
end RecordFs
