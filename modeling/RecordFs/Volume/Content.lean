import RecordFs.Content.Mapping
import RecordFs.Lookup

/-! The bytes of files by path. -/
namespace RecordFs.Volume
open MonadExcept (ofExcept)

/-- The inode at a path that is not a directory. -/
def resolveFile (path : String) : Action Inode := do
  let inode ← Lookup.resolve path
  if inode.isDirectory then throw (.isADirectory path)
  return inode

/-- A file that was changed just now and has this size. -/
def touched (now : Int64) (inode : Inode) (size : Nat) : Inode :=
  { inode with size := UInt64.ofNat size, mtime := now, ctime := now }

/-- Up to `length` bytes from `offset` on, fewer at the end of the file. -/
def read (path : String) (offset : UInt64) (length : Nat) : Action ByteArray := do
  let inode ← resolveFile path
  if inode.size ≤ offset then return .empty
  let stop := min (min (offset.toNat + length) Content.countMax) inode.size.toNat
  Content.read (← Store.load BlockMap inode.data) offset.toNat (stop - offset.toNat)

/-- Writes bytes at `offset`. What lies between the end of the file and `offset` reads as zeros. -/
def write (now : Int64) (path : String) (data : ByteArray) (offset : UInt64) : Action Nat := do
  let offset := offset.toNat
  let _ ← ofExcept (Content.checkExtent offset data.size)
  let inode ← resolveFile path
  if data.isEmpty then return 0
  let map ← Store.load BlockMap inode.data
  if inode.size.toNat < offset then Content.clear map inode.size.toNat offset
  let written ← Content.write inode.data map data offset
  Store.saveInode (touched now inode (max inode.size.toNat (offset + written)))
  return written

/-- Sets a file's length. Growing writes zeros, shrinking only takes note of the length. -/
def resize (now : Int64) (path : String) (size : UInt64) : Action Unit := do
  if maxFileSize < size.toNat then throw (.fileTooLarge size.toNat maxFileSize)
  let inode ← resolveFile path
  if inode.size < size then
    let map ← Store.load BlockMap inode.data
    let _ ← Content.write inode.data map (zeros (size.toNat - inode.size.toNat)) inode.size.toNat
  Store.saveInode (touched now inode size.toNat)

end RecordFs.Volume
