import RecordFs.Mount.Failure
import RecordFs.Mount.NodeTable
import RecordFs.Mount.Request
import RecordFs.Volume.Call

/-! Answering a kernel's requests: numbers become paths, paths go to the volume. Only replies that
carry an entry count as lookups; a request that fails leaves the table of numbers as it was. -/
namespace RecordFs.Mount

/-- Programs that answer requests, with the table of numbers as their state. -/
abbrev Serving := ExceptT Failure (StateT NodeTable (StateT Cache Access))

namespace Serving

/-- Performs an action on the volume. -/
def volume {α : Type} (action : Action α) : Serving α := ExceptT.mk <| StateT.lift do
  match ← action.run with
  | .ok a => return .ok a
  | .error e => return .error (.volume e)

def table : Serving NodeTable := MonadState.get

def pathOf (node : Nat) : Serving String := do
  match (← table).path? node with
  | some path => return path
  | none => throw (.unknownNode node)

/-- The path of a name in a directory. The name is judged before the directory. -/
def childOf (parent : Nat) (name : ByteArray) : Serving String := do
  match String.fromUTF8? name with
  | some name => return Path.child (← pathOf parent) name
  | none => throw (.badName name)

def lookUp (path : String) (kind : EntryKind) : Serving Nat :=
  modifyGet fun t => t.lookUp path kind

def mention (path : String) (kind : EntryKind) : Serving Nat :=
  modifyGet fun t => t.mention path kind

def lookup (parent : Nat) (name : ByteArray) : Serving NodeAttributes := do
  let path ← childOf parent name
  let a ← volume (Volume.attributes path)
  return .of (← lookUp path a.kind) a

def attributes (node : Nat) : Serving NodeAttributes := do
  return .of node (← volume (Volume.attributes (← pathOf node)))

/-- Mode, owner, size and times, in this order, each as a call that reads the clock for itself. The times
given win over those a new size brings. -/
def change (now : Clock Reading) (node : Nat) (c : Changes) : Serving NodeAttributes := do
  let path ← pathOf node
  if let some mode := c.mode then volume (Volume.setMode (now .mode) path mode)
  if c.uid.isSome || c.gid.isSome then volume (Volume.setOwner (now .owner) path c.uid c.gid)
  if let some size := c.size then volume (Volume.resize (now .size) path size)
  if c.atime.isSome || c.mtime.isSome then
    let atime := c.atime.map (·.seconds (now .atime))
    let mtime := c.mtime.map (·.seconds (now .mtime))
    volume (Volume.setTimes (now .times) path atime mtime)
  attributes node

/-- The whole listing of a directory: itself, its parent, and its entries. -/
def listing (node : Nat) : Serving (List Row) := do
  let path ← pathOf node
  let entries ← volume (Volume.entries path)
  let above := (← table).number? (Path.parent path)
  let parent := if node = rootNumber then rootNumber else above.getD rootNumber
  let children ← entries.mapM fun e => do
    return (← mention (Path.child path e.name) e.attributes.kind, e.attributes.kind, e.name)
  return ((node, .directory, ".") :: (parent, .directory, "..") :: children).zipIdx.map
    fun ((number, kind, name), i) => ⟨number, i + 1, kind, name⟩

/-- As many rows as there is room for; a row that does not fit ends the page. -/
def page (size : Row → Nat) (room : Nat) : List Row → List Row
  | [] => []
  | row :: rest => if size row ≤ room then row :: page size (room - size row) rest else []

def position (offset : Int64) : Serving UInt64 :=
  if offset < 0 then throw (.badOffset offset) else return offset.toUInt64

/-- Makes an entry, which the kernel then knows. -/
def make (kind : EntryKind) (now : Int64) (parent : Nat) (name : ByteArray)
    (mode umask : UInt32) (caller : Caller) : Serving NodeAttributes := do
  let path ← childOf parent name
  let mode := mode &&& ~~~umask
  let a ← volume <| match kind with
    | .directory => Volume.makeDirectory now path mode caller.uid caller.gid
    | .file => Volume.makeFile now path mode caller.uid caller.gid
  return .of (← lookUp path kind) a

/-- Removes an entry. Its number stays until the kernel forgets it. -/
def remove (kind : EntryKind) (now : Int64) (parent : Nat) (name : ByteArray) : Serving Unit := do
  let path ← childOf parent name
  volume <| match kind with
    | .directory => Volume.removeDirectory now path
    | .file => Volume.removeFile now path
  modify (·.invalidate path)

/-- Answers a request. -/
def answer (now : Clock Reading) : Request → Serving Response
  | .lookup parent name => .entry <$> lookup parent name
  | .forget nodes => do
    modify fun t => nodes.foldl (fun t (node, count) => (t.forget node count).2) t
    return .silent
  | .attributes node => .attributes <$> attributes node
  | .change node changes => .attributes <$> change now node changes
  | .openNode node => do
    let _ ← volume (Volume.attributes (← pathOf node))
    return .opened
  | .read node offset length => do
    let offset ← position offset
    return .data (← volume (Volume.read (← pathOf node) offset length))
  | .write node offset data => do
    let offset ← position offset
    return .written (← volume (Volume.write (now .call) (← pathOf node) data offset))
  | .flush node => do
    let _ ← pathOf node
    return .done
  | .release node => do
    let _ ← pathOf node
    return .done
  | .list node offset buffer => do
    return .rows (page buffer.size buffer.room ((← listing node).drop offset.toNatClampNeg))
  | .makeFile parent name mode umask caller =>
    .made <$> make .file (now .call) parent name mode umask caller
  | .makeDirectory parent name mode umask caller =>
    .entry <$> make .directory (now .call) parent name mode umask caller
  | .removeFile parent name => do
    remove .file (now .call) parent name
    return .done
  | .removeDirectory parent name => do
    remove .directory (now .call) parent name
    return .done

end Serving
end RecordFs.Mount
