import RecordFs.Clock
import RecordFs.Shell.Command
import RecordFs.Shell.Trouble
import RecordFs.Volume.Attributes
import RecordFs.Volume.Content
import RecordFs.Volume.Names

/-! Commands that change a volume, by the calls that they make one after the other. A call that
fails ends the command, and what the earlier calls did stays. -/
namespace RecordFs.Shell

/-- When a command reads the clock. -/
inductive Moment where
  /-- When the volume is opened, for a root that has to be made. -/
  | opening
  | making
  /-- When the directory at the end of so many names is made, with those above it. -/
  | chaining (depth : Nat)
  | removing
  | resizing
  | writing
  /-- For the time that a file is to show. -/
  | stamping
  /-- In the call that sets this time. -/
  | touching
  deriving DecidableEq, Repr

/-- Whom new entries belong to, and what the clock shows while they are made. -/
structure Author where
  uid : UInt32
  gid : UInt32
  now : Clock Moment

namespace Author

/-- The attributes of a file, which is made if there is none. -/
def ensureFile (author : Author) (path : String) (permissions : UInt32) : Action Volume.Attributes :=
  tryCatch (Volume.attributes path) fun e =>
    if e.isNotFound then Volume.makeFile (author.now .making) path permissions author.uid author.gid
    else throw e

/-- Puts content into a file. A file to be replaced is emptied first. -/
def place (author : Author) (path : String) (content : ByteArray) (placement : Placement)
    (permissions : UInt32) : Action Nat := do
  let size := (← author.ensureFile path permissions).size
  match placement with
  | .replace =>
    Volume.resize (author.now .resizing) path 0
    Volume.write (author.now .writing) path content 0
  | .append => Volume.write (author.now .writing) path content size
  | .offset offset => Volume.write (author.now .writing) path content offset

/-- Makes a file, or gives what is there the present time. -/
def touch (author : Author) (path : String) (permissions : UInt32) : Action Unit := do
  let found ← tryCatch (some <$> Volume.attributes path) fun e =>
    if e.isNotFound then return none else throw e
  match found with
  | some _ =>
    let stamp := author.now .stamping
    Volume.setTimes (author.now .touching) path (some stamp) (some stamp)
  | none => let _ ← Volume.makeFile (author.now .making) path permissions author.uid author.gid

/-- Sets the size of a file; with `create` it is made if there is none. -/
def resize (author : Author) (path : String) (size : UInt64) (create : Bool) : Action Unit := do
  let _ ← if create then author.ensureFile path 0o644 else Volume.attributes path
  Volume.resize (author.now .resizing) path size

/-- Removes a file; with `force` it need not be there. -/
def remove (author : Author) (path : String) (force : Bool) : Action Unit :=
  tryCatch (Volume.removeFile (author.now .removing) path) fun e =>
    if force && e.isNotFound then return () else throw e

end Author

/-- Actions of commands, which have failures of their own. -/
abbrev Edit := ExceptT Trouble (StateT Cache Access)

namespace Edit

def volume {α : Type} (action : Action α) : Edit α := ExceptT.mk do
  match ← action.run with
  | .ok a => return .ok a
  | .error e => return .error [.volume e]

/-- Makes sure that there is a directory at a path, which has so many names. -/
def ensureDirectory (author : Author) (permissions : UInt32) (depth : Nat) (path : String) : Edit Unit := do
  let found ← volume <| tryCatch (some <$> Volume.attributes path) fun e =>
    if e.isNotFound then return none else throw e
  match found with
  | some a =>
    if a.kind ≠ .directory then throw [.note s!"Path component is a file: {path}"]
  | none =>
    let now := author.now (.chaining depth)
    let _ ← volume (Volume.makeDirectory now path permissions author.uid author.gid)

/-- Makes sure that there is a directory at a path and at each of those above it, from the top down. -/
def ensureDirectories (author : Author) (permissions : UInt32) (path : String) : Edit Unit :=
  go 0 "" (Path.segments path)
where
  go (depth : Nat) (above : String) : List String → Edit Unit
    | [] => return ()
    | name :: names => do
      let path := above ++ "/" ++ name
      ensureDirectory author permissions (depth + 1) path
      go (depth + 1) path names

end Edit
end RecordFs.Shell
