import RecordFs.Bytes
import RecordFs.Geometry
import RecordFs.Record.FixedWidth

/-! The kinds of record in a store. Each kind has one size and no two share it,
so the length of stored bytes says what they can be. -/
namespace RecordFs

inductive Kind where
  | rootPointer
  | inode
  | directory
  | blockMap
  | dataBlock
  | indirectMap
  deriving DecidableEq, Repr

namespace Kind

def all : List Kind := [rootPointer, inode, directory, blockMap, dataBlock, indirectMap]

def size : Kind → Nat
  | rootPointer => idSize
  | inode => 2 * idSize + 3 * 4 + 3 * 8 + 8
  | directory => idSize + dirEntries * slotSize
  | blockMap => (directBlocks + 1) * idSize
  | dataBlock => blockSize
  | indirectMap => indirectBlocks * idSize

def name : Kind → String
  | rootPointer => "root pointer"
  | inode => "inode"
  | directory => "directory"
  | blockMap => "block map"
  | dataBlock => "data block"
  | indirectMap => "indirect map"

theorem size_injective {a b : Kind} (h : a.size = b.size) : a = b := by
  cases a <;> cases b <;> first | rfl | exact absurd h (by decide)

end Kind

/-- Why bytes are not a record. -/
inductive Malformed where
  | size (kind : Kind) (actual expected : Nat)
  | name (slot : Nat)
  deriving DecidableEq, Repr

def Malformed.message : Malformed → String
  | size kind actual expected => s!"{kind.name} record is {actual} bytes, expected {expected}"
  | name slot => s!"Directory slot {slot} holds an invalid name"

def Kind.check (kind : Kind) (bytes : ByteArray) : Except Malformed Unit :=
  if bytes.size = kind.size then .ok () else .error (.size kind bytes.size kind.size)

/-- A type of records of one kind. `decode` is only given bytes of the kind's size. -/
class Stored (ρ : Type) where
  kind : Kind
  encode : ρ → ByteArray
  decode : ByteArray → Except Malformed ρ

namespace Stored

/-- Decodes bytes of any length; those of the wrong length are refused unread. -/
def read (ρ : Type) [Stored ρ] (bytes : ByteArray) : Except Malformed ρ := do
  (kind ρ).check bytes
  decode bytes

/-- Records whose every run of bytes of the right length is one of them. -/
@[reducible] def ofField {ρ : Type} (kind : Kind) (field : FixedWidth ρ) : Stored ρ where
  kind := kind
  encode r := (field.write r).toByteArray
  decode bytes := .ok (field.read bytes.data.toList)

end Stored
end RecordFs
