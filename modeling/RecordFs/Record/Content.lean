import RecordFs.Record.Kind

/-! Where a file's bytes are kept: blocks, the map that names the first twelve of them,
and the indirect map that names the rest. A zero identifier stands for a block of zeros. -/
namespace RecordFs

structure Block where
  bytes : ByteArray
  size_bytes : bytes.size = blockSize
  deriving DecidableEq

namespace Block

def zero : Block := ⟨zeros blockSize, size_zeros _⟩

def slice (block : Block) (start length : Nat) : ByteArray := block.bytes.extract start (start + length)

/-- The block with `data` laid over it from `start` on. -/
def overlay (block : Block) (start : Nat) (data : ByteArray) (fits : start + data.size ≤ blockSize) :
    Block where
  bytes := block.bytes.extract 0 start ++ data ++ block.bytes.extract (start + data.size) blockSize
  size_bytes := by
    have := block.size_bytes
    simp only [ByteArray.size_append, ByteArray.size_extract]
    omega

/-- Bytes up to the last that is not zero, of the first `n`. -/
private def used (bytes : ByteArray) : Nat → Nat
  | 0 => 0
  | n + 1 => if bytes.get! n ≠ 0 then n + 1 else used bytes n

/-- A block's content is not shown, only how much of it is in use. -/
def describe (block : Block) : String :=
  s!"DataBlock({used block.bytes block.bytes.size} of {block.bytes.size} bytes used)"

instance : Stored Block where
  kind := .dataBlock
  encode block := block.bytes
  decode bytes :=
    if h : bytes.size = blockSize then .ok ⟨bytes, h⟩
    else .error (.size .dataBlock bytes.size blockSize)

end Block

structure BlockMap where
  direct : Vector Id directBlocks
  indirect : Id
  deriving DecidableEq, Repr

namespace BlockMap

def empty : BlockMap := ⟨Vector.replicate directBlocks .zero, .zero⟩

def field : FixedWidth BlockMap :=
  ((FixedWidth.id.repeated directBlocks).pair FixedWidth.id).convert (fun (direct, indirect) => ⟨direct, indirect⟩)
    (fun m => (m.direct, m.indirect)) (fun _ => rfl) (fun _ => rfl)

instance : Stored BlockMap := .ofField .blockMap field

end BlockMap

structure IndirectMap where
  blocks : Vector Id indirectBlocks
  deriving DecidableEq, Repr

namespace IndirectMap

def empty : IndirectMap := ⟨Vector.replicate indirectBlocks .zero⟩

def field : FixedWidth IndirectMap :=
  (FixedWidth.id.repeated indirectBlocks).convert (⟨·⟩) (·.blocks) (fun _ => rfl) (fun _ => rfl)

instance : Stored IndirectMap := .ofField .indirectMap field

end IndirectMap
end RecordFs
