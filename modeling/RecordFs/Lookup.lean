import RecordFs.Path
import RecordFs.Record.Directory
import RecordFs.Store.Action

/-! Finding entries by path: from the root in memory, one directory table a segment. -/
namespace RecordFs.Lookup
open MonadExcept (ofExcept)

def root (path : String) : Action Inode := do
  match ← Store.root? with
  | some root => return root.inode
  | none => throw (.notFound path)

/-- The table of a directory; `path` is what a refusal names. -/
def directory (dir : Inode) (path : String) : Action Directory := do
  if dir.isDirectory then Store.load Directory dir.data else throw (.notADirectory path)

def child (path : String) (dir : Inode) (name : String) : Action Inode := do
  match (← directory dir path).find? name with
  | some id => Store.load Inode id
  | none => throw (.notFound path)

/-- The inode at a path. -/
def resolve (path : String) : Action Inode := do
  ofExcept (Path.check path)
  (Path.segments path).foldlM (child path) (← root path)

/-- The directory that holds the entry at a path, and the entry's name. The name is judged
before any directory is looked at. -/
def resolveParent (path : String) : Action (Inode × String) := do
  ofExcept (Path.check path)
  match (Path.segments path).getLast? with
  | none => throw (.invalidPath path)
  | some name =>
    ofExcept (Path.checkName name)
    if name = "." ∨ name = ".." then throw (.invalidPath path)
    let parent ← (Path.segments path).dropLast.foldlM (child path) (← root path)
    unless parent.isDirectory do throw (.notADirectory path)
    return (parent, name)

end RecordFs.Lookup
