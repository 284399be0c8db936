import RecordFs.Volume.Attributes
import RecordFs.Record.Content

/-! Making and removing entries. A new entry is stored before the table that names it, so a table
never names what is not there; what is removed stays in the store. -/
namespace RecordFs.Volume

/-- Stores a changed table and brings its directory's size and times up to date. -/
def saveTable (now : Int64) (parent : Inode) (dir : Directory) : Action Unit := do
  Store.save parent.data dir
  Store.saveInode { parent with size := UInt64.ofNat dir.count, mtime := now, ctime := now }

/-- Makes an entry; what its mode says is what it becomes. -/
def make (now : Int64) (path : String) (mode uid gid : UInt32) : Action Attributes := do
  let (parent, name) ← Lookup.resolveParent path
  let dir ← Lookup.directory parent path
  if (dir.find? name).isSome then throw (.alreadyExists path)
  let self ← Store.freshId
  let data ← Store.freshId
  let inode := Inode.new self data mode uid gid now
  match dir.insert? name self with
  | none => throw (.directoryFull (Path.directoryOf path))
  | some (_, dir) =>
    match inode.kind with
    | .directory => Store.save data (Directory.empty data)
    | .file => Store.save data BlockMap.empty
    Store.saveInode inode
    saveTable now parent dir
    return .ofInode inode

/-- Makes an empty file. Type bits of the mode are ignored. -/
def makeFile (now : Int64) (path : String) (mode uid gid : UInt32) : Action Attributes :=
  make now path (Mode.regular ||| (mode &&& Mode.permissionMask)) uid gid

/-- Makes an empty directory. Type bits of the mode are ignored. -/
def makeDirectory (now : Int64) (path : String) (mode uid gid : UInt32) : Action Attributes :=
  make now path (Mode.directory ||| (mode &&& Mode.permissionMask)) uid gid

/-- Takes an entry out of its directory. -/
def detach (now : Int64) (parent : Inode) (dir : Directory) (name : String) : Action Unit := do
  match dir.remove? name with
  | none => throw (.notFound name)
  | some (_, dir) => saveTable now parent dir

def removeFile (now : Int64) (path : String) : Action Unit := do
  let (parent, name) ← Lookup.resolveParent path
  let dir ← Lookup.directory parent path
  match dir.find? name with
  | none => throw (.notFound path)
  | some id =>
    if (← Store.load Inode id).isDirectory then throw (.isADirectory path)
    detach now parent dir name

/-- Removes a directory that has no entries. -/
def removeDirectory (now : Int64) (path : String) : Action Unit := do
  let target ← Lookup.resolve path
  unless target.isDirectory do throw (.notADirectory path)
  unless (← Lookup.directory target path).isEmpty do throw (.directoryNotEmpty path)
  let (parent, name) ← Lookup.resolveParent path
  detach now parent (← Lookup.directory parent path) name

end RecordFs.Volume
