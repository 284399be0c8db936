import RecordFs.Shell.Permissions
import RecordFs.Volume.Attributes

/-! What commands print about entries. -/
namespace RecordFs.Shell.Listing

open Volume (Attributes Entry)

private def right (width : Nat) (text : String) : String :=
  String.ofList (List.replicate (width - text.length) ' ') ++ text

/-- One line about an entry. The directory that is listed shows as a dot. -/
def longLine (name : String) (a : Attributes) : String :=
  let mark := if a.kind = .directory ∧ name ≠ "." then "/" else ""
  let columns := [Permissions.letters a.kind a.permissions, right 2 (toString a.links),
    right 5 (toString a.uid), right 5 (toString a.gid), right 10 (toString a.size),
    right 12 (toString a.mtime.toInt), name ++ mark]
  " ".intercalate columns

private def lines (l : List String) : String := String.join (l.map (· ++ "\n"))

/-- One line for each entry, after one for the directory itself if that is given. -/
def long (self : Option Attributes) (entries : List Entry) : String :=
  lines (self.toList.map (longLine ".") ++ entries.map fun e => longLine e.name e.attributes)

/-- Names alone: side by side up to ten, else one on a line. -/
def short (all onePerLine : Bool) (entries : List Entry) : String :=
  let names := (if all then [".", ".."] else []) ++
    entries.map fun e => if e.attributes.kind = .directory then e.name ++ "/" else e.name
  if names = [] then ""
  else if onePerLine ∨ names.length > 10 then lines names
  else lines ["  ".intercalate names]

def details (path : String) (a : Attributes) : String :=
  let kind := match a.kind with
    | .directory => "directory"
    | .file => "regular file"
  lines [
    s!"  Path: {path}",
    s!"  Type: {kind}",
    s!"  Size: {a.size}",
    s!"  Mode: {Permissions.octal a.permissions} ({Permissions.letters a.kind a.permissions})",
    s!"   Uid: {a.uid}  Gid: {a.gid}",
    s!" Links: {a.links}",
    s!"Access: {a.atime.toInt}",
    s!"Modify: {a.mtime.toInt}",
    s!"Change: {a.ctime.toInt}",
    s!"    Id: {a.id}"]

end RecordFs.Shell.Listing
