import RecordFs.Lookup
import RecordFs.Store.Action

/-! Opening a volume: the root that the store names, or a new one. The record that names a new
root is stored last, so a store that could not be written still has none. -/
namespace RecordFs.Volume

structure Options where
  uid : UInt32 := 0
  gid : UInt32 := 0
  /-- Permissions of a root that has to be made. -/
  rootPermissions : UInt32 := 0o775
  deriving DecidableEq, Repr

def Options.withRootPermissions (options : Options) (permissions : UInt32) : Options :=
  { options with rootPermissions := permissions &&& Mode.permissionMask }

/-- The root that the store names. -/
def loadRoot : Action Inode := do
  let pointer ← Store.load RootPointer .rootPointer
  let root ← Store.load Inode pointer.root
  unless root.isDirectory do throw (.notADirectory "/")
  return root

/-- An empty root, stored before the record that names it. -/
def makeRoot (options : Options) (now : Int64) : Action Inode := do
  let self ← Store.freshId
  let data ← Store.freshId
  let mode := Mode.directory ||| (options.rootPermissions &&& Mode.permissionMask)
  let root := Inode.new self data mode options.uid options.gid now
  Store.save data (Directory.empty data)
  Store.saveInode root
  Store.save .rootPointer (RootPointer.mk self)
  return root

/-- Makes the store's root the root in memory. A root that is named but cannot be loaded is a failure. -/
def openRoot (options : Options) (now : Int64) : Action Unit := do
  let root ← if ← Store.contains .rootPointer then loadRoot else makeRoot options now
  let _ ← Store.attachRoot root

/-- An open volume as text: the key of its root and what it was opened with. -/
def describe (root : Id) (options : Options) : String :=
  s!"KvFs \x7b root_id: {root.describe}, options: FsOptions \x7b uid: {options.uid}, gid: {options.gid}, " ++
    s!"root_perm: {options.rootPermissions} \x7d, .. \x7d"

end RecordFs.Volume
