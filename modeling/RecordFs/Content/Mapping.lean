import RecordFs.Content.Span
import RecordFs.Record.Content
import RecordFs.Store.Action

/-! Reading and writing a file's bytes through its block map. Blocks are allocated when they are
first written; the block map is stored last, after all that it names. -/
namespace RecordFs.Content
open MonadExcept (ofExcept)

/-- The largest count that offsets and lengths add up to. -/
def countMax : Nat := UInt64.size - 1

/-- The end of a range, when a file can be that long. -/
def checkExtent (offset length : Nat) : Except Failure { stop : Nat // stop ≤ maxFileSize } :=
  let requested := min (offset + length) countMax
  if h : requested ≤ maxFileSize then .ok ⟨requested, h⟩
  else .error (.fileTooLarge requested maxFileSize)

private theorem beyond_direct (index : Fin maxBlocks) (h : ¬ index.val < directBlocks) :
    index.val - directBlocks < indirectBlocks := by
  have := index.isLt
  simp only [maxBlocks] at this
  omega

/-- The slot of a block in the block map or, when the block is beyond those, in the indirect map. -/
def place (index : Fin maxBlocks) : Fin directBlocks ⊕ Fin indirectBlocks :=
  if h : index.val < directBlocks then .inl ⟨index, h⟩
  else .inr ⟨index.val - directBlocks, beyond_direct index h⟩

/-- The block at an index, zero if there is none. The indirect map is loaded when first needed. -/
def blockAt (map : BlockMap) (indirect : Option IndirectMap) (index : Fin maxBlocks) :
    Action (Id × Option IndirectMap) :=
  match place index with
  | .inl i => return (map.direct[i], indirect)
  | .inr i =>
    if map.indirect = .zero then return (.zero, indirect)
    else do
      let table ← match indirect with
        | some table => pure table
        | none => Store.load IndirectMap map.indirect
      return (table.blocks[i], some table)

/-- Reads the spans one after the other and appends them to `out`. -/
def readSpans (map : BlockMap) : List Span → Option IndirectMap → ByteArray → Action ByteArray
  | [], _, out => return out
  | span :: rest, indirect, out => do
    let (id, indirect) ← blockAt map indirect span.index
    if id = .zero then readSpans map rest indirect (out ++ zeros span.length)
    else
      let block ← Store.load Block id
      readSpans map rest indirect (out ++ block.slice span.start span.length)

/-- Up to `length` bytes from `offset` on. Only the greatest file size stops it; what is not
allocated reads as zeros. -/
def read (map : BlockMap) (offset length : Nat) : Action ByteArray :=
  readSpans map (spans offset (min (min (offset + length) countMax) maxFileSize) (Nat.min_le_right _ _))
    none .empty

/-- Zeroes the spans one after the other. -/
def clearSpans (map : BlockMap) : List Span → Option IndirectMap → Action Unit
  | [], _ => return ()
  | span :: rest, indirect => do
    let (id, indirect) ← blockAt map indirect span.index
    unless id = .zero do
      let block ← Store.load Block id
      Store.save id (block.overlay span.start (zeros span.length) (by simpa using span.fits))
    clearSpans map rest indirect

/-- Zeroes `[start, stop)` in the blocks that are allocated and allocates none. -/
def clear (map : BlockMap) (start stop : Nat) : Action Unit :=
  clearSpans map (spans start (min stop maxFileSize) (Nat.min_le_right _ _)) none

/-- A block map that is being filled, with its indirect map once that is at hand. -/
structure Allocation where
  map : BlockMap
  indirect : Option IndirectMap := none
  /-- The indirect map differs from the stored one. -/
  changed : Bool := false

/-- Programs that allocate blocks. A failure keeps what was allocated. -/
abbrev Allocating := ExceptT Failure (StateT Allocation (StateT Cache Access))

/-- Performs an action between allocations. -/
def act {α : Type} (action : Action α) : Allocating α := ExceptT.mk (StateT.lift action.run)

def allocation : Allocating Allocation := MonadState.get

/-- The indirect map, allocated if there is none. -/
def indirectMap : Allocating IndirectMap := do
  let a ← allocation
  if a.map.indirect = .zero then
    let id ← act Store.freshId
    let table := IndirectMap.empty
    set { map := { a.map with indirect := id }, indirect := some table, changed := true : Allocation }
    return table
  match a.indirect with
  | some table => return table
  | none =>
    let table ← act (Store.load IndirectMap a.map.indirect)
    set { a with indirect := some table }
    return table

/-- The block at an index, allocated if there is none, and whether it is new. -/
def blockFor (index : Fin maxBlocks) : Allocating (Id × Bool) := do
  match place index with
  | .inl i =>
    let a ← allocation
    if a.map.direct[i] ≠ .zero then return (a.map.direct[i], false)
    let id ← act Store.freshId
    set { a with map := { a.map with direct := a.map.direct.set i id } }
    return (id, true)
  | .inr i =>
    let table ← indirectMap
    if table.blocks[i] ≠ .zero then return (table.blocks[i], false)
    let id ← act Store.freshId
    modify fun a => { a with indirect := some ⟨table.blocks.set i id⟩, changed := true }
    return (id, true)

/-- Writes the bytes of `data` from `position` on over the spans. A block that is new or written
whole is not fetched. -/
def writeSpans (data : ByteArray) : List Span → Nat → Allocating Unit
  | [], _ => return ()
  | span :: rest, position => do
    let (id, isNew) ← blockFor span.index
    let block ← if isNew || span.length = blockSize then pure Block.zero else act (Store.load Block id)
    let chunk := data.extract position (position + span.length)
    act (Store.save id (block.overlay span.start chunk (by
      have := span.fits
      have : chunk.size ≤ span.length := by simp only [chunk, ByteArray.size_extract]; omega
      omega)))
    writeSpans data rest (position + span.length)

/-- Writes `data` at `offset`; the map under `mapId` is the last record stored. -/
def writeBlocks (mapId : Id) (data : ByteArray) (offset : Nat) : Allocating Nat := do
  let stop ← ofExcept (checkExtent offset data.size)
  writeSpans data (spans offset stop.1 stop.2) 0
  let a ← allocation
  if a.changed then
    if let some table := a.indirect then act (Store.save a.map.indirect table)
  act (Store.save mapId a.map)
  return data.size

/-- The outcome of a write, and the map as it then is in memory, also after a failure. -/
def writeMap (mapId : Id) (map : BlockMap) (data : ByteArray) (offset : Nat) :
    StateT Cache Access (Except Failure Nat × BlockMap) := do
  let (result, a) ← (writeBlocks mapId data offset).run.run { map }
  return (result, a.map)

/-- Writes `data` at `offset` of the file whose map is stored under `mapId`. -/
def write (mapId : Id) (map : BlockMap) (data : ByteArray) (offset : Nat) : Action Nat :=
  ExceptT.mk do return (← writeMap mapId map data offset).1

end RecordFs.Content
