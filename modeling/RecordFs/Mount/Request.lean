import RecordFs.Mount.Clock
import RecordFs.Record.Kind
import RecordFs.Volume.Attributes

/-! What a kernel asks of a mounted volume, by number, and what it is answered. -/
namespace RecordFs.Mount

/-- Changes of one entry; what is missing stays. -/
structure Changes where
  mode : Option UInt32 := none
  uid : Option UInt32 := none
  gid : Option UInt32 := none
  size : Option UInt64 := none
  atime : Option TimeChange := none
  mtime : Option TimeChange := none
  deriving DecidableEq, Repr

/-- The user in whose name a request is made. -/
structure Caller where
  uid : UInt32 := 0
  gid : UInt32 := 0
  deriving DecidableEq, Repr

/-- One line of a listing; `next` is where the listing goes on after it. -/
structure Row where
  number : Nat
  next : Nat
  kind : EntryKind
  name : String
  deriving DecidableEq, Repr

/-- What a page of a listing is put into. -/
structure Buffer where
  room : Nat
  /-- How much of the room a row takes. -/
  size : Row → Nat

/-- The size of a row that has a fixed part and its name, filled up to a multiple of eight bytes. -/
def Row.padded (row : Row) : Nat := (24 + row.name.utf8ByteSize + 7) / 8 * 8

def Buffer.padded (room : Nat) : Buffer := ⟨room, Row.padded⟩

instance : Coe Nat Buffer := ⟨Buffer.padded⟩

inductive Request where
  | lookup (parent : Nat) (name : ByteArray)
  | forget (nodes : List (Nat × Nat))
  | attributes (node : Nat)
  | change (node : Nat) (changes : Changes)
  | openNode (node : Nat)
  | read (node : Nat) (offset : Int64) (length : Nat)
  | write (node : Nat) (offset : Int64) (data : ByteArray)
  | flush (node : Nat)
  | release (node : Nat)
  | list (node : Nat) (offset : Int64) (buffer : Buffer)
  | makeFile (parent : Nat) (name : ByteArray) (mode umask : UInt32) (caller : Caller)
  | makeDirectory (parent : Nat) (name : ByteArray) (mode umask : UInt32) (caller : Caller)
  | removeFile (parent : Nat) (name : ByteArray)
  | removeDirectory (parent : Nat) (name : ByteArray)

structure NodeAttributes where
  number : Nat
  kind : EntryKind
  permissions : UInt32
  size : UInt64
  /-- Units of 512 bytes, the last of which need not be full. -/
  blocks : Nat
  atime : Instant
  mtime : Instant
  ctime : Instant
  links : Nat
  uid : UInt32
  gid : UInt32
  deriving DecidableEq, Repr

def NodeAttributes.of (number : Nat) (a : Volume.Attributes) : NodeAttributes where
  number := number
  kind := a.kind
  permissions := a.permissions
  size := a.size
  blocks := (a.size.toNat + 511) / 512
  atime := .ofSeconds a.atime
  mtime := .ofSeconds a.mtime
  ctime := .ofSeconds a.ctime
  links := a.links
  uid := a.uid
  gid := a.gid

inductive Response where
  /-- An entry that the kernel now knows once more. -/
  | entry (attributes : NodeAttributes)
  | made (attributes : NodeAttributes)
  | attributes (attributes : NodeAttributes)
  | opened
  | data (bytes : ByteArray)
  | written (count : Nat)
  | done
  | rows (rows : List Row)
  | silent
  deriving DecidableEq

end RecordFs.Mount
