import RecordFs.Record.Kind

/-! Inodes: the metadata of one entry, and the record that names the root's inode. -/
namespace RecordFs

structure RootPointer where
  root : Id
  deriving DecidableEq, Repr

def RootPointer.field : FixedWidth RootPointer :=
  FixedWidth.id.convert (⟨·⟩) (·.root) (fun _ => rfl) (fun _ => rfl)

instance : Stored RootPointer := .ofField .rootPointer RootPointer.field

inductive EntryKind where
  | directory
  | file
  deriving DecidableEq, Repr

structure Inode where
  /-- The key of this record. -/
  self : Id
  /-- The directory table or the block map. -/
  data : Id
  uid : UInt32
  gid : UInt32
  mode : UInt32
  atime : Int64
  mtime : Int64
  ctime : Int64
  /-- Bytes of a file, entries of a directory. -/
  size : UInt64
  deriving DecidableEq, Repr

namespace Inode

/-- An entry of size zero whose three times are `now`. -/
def new (self data : Id) (mode uid gid : UInt32) (now : Int64) : Inode :=
  { self, data, uid, gid, mode, atime := now, mtime := now, ctime := now, size := 0 }

/-- Whatever is not marked as a directory is a file. -/
def kind (inode : Inode) : EntryKind :=
  if inode.mode &&& Mode.typeMask = Mode.directory then .directory else .file

def isDirectory (inode : Inode) : Bool := inode.kind = .directory

def permissions (inode : Inode) : UInt32 := inode.mode &&& Mode.permissionMask

open FixedWidth in
def field : FixedWidth Inode :=
  (id.pair <| id.pair <| word32.pair <| word32.pair <| word32.pair <|
    signed64.pair <| signed64.pair <| signed64.pair word64).convert
    (fun (self, data, uid, gid, mode, atime, mtime, ctime, size) =>
      { self, data, uid, gid, mode, atime, mtime, ctime, size })
    (fun i => (i.self, i.data, i.uid, i.gid, i.mode, i.atime, i.mtime, i.ctime, i.size))
    (fun _ => rfl) (fun _ => rfl)

end Inode

instance : Stored Inode := .ofField .inode Inode.field

end RecordFs
