import RecordFs.Lookup

/-! What a volume tells about its entries, and the changes of an entry's metadata. -/
namespace RecordFs.Volume

structure Attributes where
  id : Id
  kind : EntryKind
  /-- Type and permissions. -/
  mode : UInt32
  permissions : UInt32
  uid : UInt32
  gid : UInt32
  size : UInt64
  atime : Int64
  mtime : Int64
  ctime : Int64
  links : Nat
  deriving DecidableEq, Repr

def Attributes.ofInode (inode : Inode) : Attributes where
  id := inode.self
  kind := inode.kind
  mode := inode.mode
  permissions := inode.permissions
  uid := inode.uid
  gid := inode.gid
  size := inode.size
  atime := inode.atime
  mtime := inode.mtime
  ctime := inode.ctime
  links := match inode.kind with
    | .directory => 2
    | .file => 1

structure Entry where
  name : String
  attributes : Attributes
  deriving DecidableEq, Repr

def attributes (path : String) : Action Attributes := return .ofInode (← Lookup.resolve path)

/-- The table of the directory at a path. -/
def table (path : String) : Action Directory := do
  Lookup.directory (← Lookup.resolve path) path

/-- The names in a directory after those of itself and its parent. -/
def names (path : String) : Action (List String) := do
  return "." :: ".." :: (← table path).occupied.map (·.name)

/-- The entries of a directory, without itself and its parent. -/
def entries (path : String) : Action (List Entry) := do
  (← table path).occupied.mapM fun slot => do
    return ⟨slot.name, .ofInode (← Store.load Inode slot.child)⟩

/-- Changes the metadata of the entry at a path, and notes the time. -/
def change (path : String) (now : Int64) (f : Inode → Inode) : Action Unit := do
  let inode ← Lookup.resolve path
  Store.saveInode { f inode with ctime := now }

/-- Replaces the permissions and keeps the type. -/
def setMode (now : Int64) (path : String) (mode : UInt32) : Action Unit :=
  change path now fun i =>
    { i with mode := (i.mode &&& Mode.typeMask) ||| (mode &&& Mode.permissionMask) }

/-- What is not given stays. -/
def setOwner (now : Int64) (path : String) (uid gid : Option UInt32) : Action Unit :=
  change path now fun i => { i with uid := uid.getD i.uid, gid := gid.getD i.gid }

/-- What is not given stays. -/
def setTimes (now : Int64) (path : String) (atime mtime : Option Int64) : Action Unit :=
  change path now fun i => { i with atime := atime.getD i.atime, mtime := mtime.getD i.mtime }

end RecordFs.Volume
