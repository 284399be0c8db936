import Mathlib.Data.Fin.Tuple.Basic
import RecordFs.Proofs.Record.Modes
import RecordFs.Volume.Call

/-! Volumes as trees: every call as one step on nested directories. There are no records, no
identifiers and no bytes of files here. -/
namespace RecordFs
open Function Volume

/-- What an entry carries besides its kind. -/
structure Facts where
  permissions : UInt32
  uid : UInt32
  gid : UInt32
  atime : Int64
  mtime : Int64
  ctime : Int64
  /-- Bytes of a file, entries of a directory. -/
  size : Nat

namespace Facts

/-- Those of a new entry. Type bits of its mode are ignored. -/
def new (mode uid gid : UInt32) (now : Int64) : Facts :=
  { permissions := mode &&& Mode.permissionMask, uid, gid, atime := now, mtime := now, ctime := now, size := 0 }

/-- Those of an entry whose content was changed just now. -/
def touched (facts : Facts) (now : Int64) (size : Nat) : Facts := { facts with size, mtime := now, ctime := now }

/-- The attributes that are told of an entry, without its identifier. -/
def attributes (facts : Facts) (kind : EntryKind) : Attributes where
  id := .zero
  kind
  mode := kind.bits ||| facts.permissions
  permissions := facts.permissions
  uid := facts.uid
  gid := facts.gid
  size := UInt64.ofNat facts.size
  atime := facts.atime
  mtime := facts.mtime
  ctime := facts.ctime
  links := match kind with
    | .directory => 2
    | .file => 1

end Facts

inductive Tree where
  | file (facts : Facts)
  | directory (facts : Facts) (slots : Fin dirEntries → Option (String × Tree))

/-- The slots of a directory: each is empty or has a name and an entry. -/
abbrev Slots := Fin dirEntries → Option (String × Tree)

namespace Slots

/-- The entry in the first slot of that name. -/
def find? (slots : Slots) (name : String) : Option Tree :=
  (List.finRange dirEntries).findSome? fun k => ((slots k).filter (·.1 = name)).map (·.2)

/-- The first empty slot. -/
def free? (slots : Slots) : Option (Fin dirEntries) := (List.finRange dirEntries).find? fun k => (slots k).isNone

/-- The names and entries in slot order. -/
def occupied (slots : Slots) : List (String × Tree) := (List.finRange dirEntries).filterMap slots

/-- The slots without those of a name. -/
def erase (slots : Slots) (name : String) : Slots := fun k => (slots k).filter (·.1 ≠ name)

end Slots

namespace Tree

def facts : Tree → Facts
  | file facts => facts
  | directory facts _ => facts

def attributes : Tree → Attributes
  | file facts => facts.attributes .file
  | directory facts _ => facts.attributes .directory

/-- An entry with nothing in it. -/
def empty (facts : Facts) : EntryKind → Tree
  | .file => file facts
  | .directory => directory facts fun _ => none

/-- The same entry with other facts. -/
def withFacts (facts : Facts) : Tree → Tree
  | file _ => file facts
  | directory _ slots => directory facts slots

/-- The entry at the end of these segments; `path` is what a refusal names. -/
def walk (path : String) : List String → Tree → Except Failure Tree
  | [], node => .ok node
  | _ :: _, file _ => .error (.notADirectory path)
  | name :: rest, directory _ slots =>
    match Slots.find? slots name with
    | some child => walk path rest child
    | none => .error (.notFound path)

/-- The tree with another entry at the end of these segments. -/
def set : Tree → List String → Tree → Tree
  | _, [], node => node
  | file facts, _ :: _, _ => file facts
  | directory facts slots, name :: rest, node =>
    directory facts fun k => (slots k).map fun (n, child) => (n, if n = name then child.set rest node else child)

/-- The parts between slashes that are not empty. -/
def segments (path : String) : List String := ((path.toList.splitOn '/').filter (· ≠ [])).map String.ofList

def resolve (tree : Tree) (path : String) : Except Failure Tree :=
  if maxPathLength < path.utf8ByteSize then .error (.nameTooLong path.utf8ByteSize maxPathLength)
  else tree.walk path (segments path)

/-- Where an entry is to be made or removed: the segments of its directory, and its name. -/
def target (path : String) : Except Failure (List String × String) :=
  if maxPathLength < path.utf8ByteSize then .error (.nameTooLong path.utf8ByteSize maxPathLength)
  else match (segments path).getLast? with
    | none => .error (.invalidPath path)
    | some name =>
      if maxNameLength < name.utf8ByteSize then .error (.nameTooLong name.utf8ByteSize maxNameLength)
      else if name = "." ∨ name = ".." then .error (.invalidPath path)
      else .ok ((segments path).dropLast, name)

/-- A directory, the segments that lead to it, and a name for one of its entries. -/
structure Parent where
  place : List String
  name : String
  facts : Facts
  slots : Slots

def parent (tree : Tree) (path : String) : Except Failure Parent := do
  let (place, name) ← target path
  match ← tree.walk path place with
  | file _ => .error (.notADirectory path)
  | directory facts slots => .ok ⟨place, name, facts, slots⟩

/-- The tree after a directory got other slots. -/
def refill (tree : Tree) (now : Int64) (parent : Parent) (slots : Slots) : Tree :=
  tree.set parent.place (directory (parent.facts.touched now slots.occupied.length) slots)

/-- The facts of the file at a path. -/
def fileAt (tree : Tree) (path : String) : Except Failure Facts := do
  match ← tree.resolve path with
  | file facts => .ok facts
  | directory .. => .error (.isADirectory path)

/-- The slots of the directory at a path. -/
def slotsAt (tree : Tree) (path : String) : Except Failure Slots := do
  match ← tree.resolve path with
  | file _ => .error (.notADirectory path)
  | directory _ slots => .ok slots

/-! A call gives its answer and the tree that it leaves; one that is refused leaves the tree as it is. -/

section calls
variable (tree : Tree) (now : Int64) (path : String)

def change (f : Facts → Facts) : Except Failure (Answer × Tree) := do
  let node ← tree.resolve path
  return (.done, tree.set (segments path) (node.withFacts { f node.facts with ctime := now }))

def make (node : Tree) : Except Failure (Answer × Tree) := do
  let parent ← tree.parent path
  if (parent.slots.find? parent.name).isSome then .error (.alreadyExists path)
  else match parent.slots.free? with
    | none => .error (.directoryFull (Path.directoryOf path))
    | some k => .ok (.attributes node.attributes, tree.refill now parent (update parent.slots k (some (parent.name, node))))

def removeFile : Except Failure (Answer × Tree) := do
  let parent ← tree.parent path
  match parent.slots.find? parent.name with
  | none => .error (.notFound path)
  | some (directory ..) => .error (.isADirectory path)
  | some (file _) => .ok (.done, tree.refill now parent (parent.slots.erase parent.name))

def removeDirectory : Except Failure (Answer × Tree) := do
  let slots ← tree.slotsAt path
  if slots.occupied.isEmpty then do
    let parent ← tree.parent path
    return (.done, tree.refill now parent (parent.slots.erase parent.name))
  else .error (.directoryNotEmpty path)

/-- Only a write of no bytes changes nothing. -/
def write (count offset : Nat) : Except Failure (Answer × Tree) :=
  if maxFileSize < offset + count then .error (.fileTooLarge (min (offset + count) (UInt64.size - 1)) maxFileSize)
  else do
    let facts ← tree.fileAt path
    if count = 0 then return (.count 0, tree)
    return (.count count, tree.set (segments path) (file (facts.touched now (max facts.size (offset + count)))))

def resize (size : Nat) : Except Failure (Answer × Tree) :=
  if maxFileSize < size then .error (.fileTooLarge size maxFileSize)
  else do
    let facts ← tree.fileAt path
    return (.done, tree.set (segments path) (file (facts.touched now size)))

end calls

def step (tree : Tree) (now : Int64) : Call → Except Failure (Answer × Tree)
  | .attributes path => do return (.attributes (← tree.resolve path).attributes, tree)
  | .names path => do return (.names ("." :: ".." :: (← tree.slotsAt path).occupied.map (·.1)), tree)
  | .entries path => do return (.entries ((← tree.slotsAt path).occupied.map fun entry => ⟨entry.1, entry.2.attributes⟩), tree)
  | .setMode path mode => tree.change now path fun facts => { facts with permissions := mode &&& Mode.permissionMask }
  | .setOwner path uid gid => tree.change now path fun facts => { facts with uid := uid.getD facts.uid, gid := gid.getD facts.gid }
  | .setTimes path atime mtime =>
      tree.change now path fun facts => { facts with atime := atime.getD facts.atime, mtime := mtime.getD facts.mtime }
  | .makeFile path mode uid gid => tree.make now path (.empty (.new mode uid gid now) .file)
  | .makeDirectory path mode uid gid => tree.make now path (.empty (.new mode uid gid now) .directory)
  | .removeFile path => tree.removeFile now path
  | .removeDirectory path => tree.removeDirectory now path
  | .read path offset length => do return (.count (min length ((← tree.fileAt path).size - offset.toNat)), tree)
  | .write path data offset => tree.write now path data.size offset.toNat
  | .resize path size => tree.resize now path size.toNat
  | .settle _ => return (.done, tree)

/-- The answers to these calls, each made at its time. -/
def answers (tree : Tree) : List (Int64 × Call) → List (Except Failure Answer)
  | [] => []
  | (now, call) :: rest =>
    match tree.step now call with
    | .ok (answer, next) => .ok answer :: next.answers rest
    | .error e => .error e :: tree.answers rest

/-- The tree of a volume that was just made. -/
def new (options : Options) (now : Int64) : Tree :=
  .empty (.new options.rootPermissions options.uid options.gid now) .directory

end Tree
end RecordFs
