import RecordFs.Volume.Attributes
import RecordFs.Volume.Content
import RecordFs.Volume.Names
import RecordFs.Volume.Open

/-! Everything that can be asked of an open volume, as one type. -/
namespace RecordFs.Volume

inductive Call where
  | attributes (path : String)
  | names (path : String)
  | entries (path : String)
  | setMode (path : String) (mode : UInt32)
  | setOwner (path : String) (uid gid : Option UInt32)
  | setTimes (path : String) (atime mtime : Option Int64)
  | makeFile (path : String) (mode uid gid : UInt32)
  | makeDirectory (path : String) (mode uid gid : UInt32)
  | removeFile (path : String)
  | removeDirectory (path : String)
  | read (path : String) (offset : UInt64) (length : Nat)
  | write (path : String) (data : ByteArray) (offset : UInt64)
  | resize (path : String) (size : UInt64)
  /-- Nothing is held back and nothing is kept for an open file, so this does nothing. -/
  | settle (path : String)
  deriving DecidableEq

inductive Answer where
  | done
  | attributes (attributes : Attributes)
  | names (names : List String)
  | entries (entries : List Entry)
  | bytes (bytes : ByteArray)
  | count (count : Nat)
  deriving DecidableEq

/-- Performs a call when the clock shows `now`. -/
def Call.perform (now : Int64) : Call → Action Answer
  | attributes path => .attributes <$> Volume.attributes path
  | names path => .names <$> Volume.names path
  | entries path => .entries <$> Volume.entries path
  | setMode path mode => (fun _ => .done) <$> Volume.setMode now path mode
  | setOwner path uid gid => (fun _ => .done) <$> Volume.setOwner now path uid gid
  | setTimes path atime mtime => (fun _ => .done) <$> Volume.setTimes now path atime mtime
  | makeFile path mode uid gid => .attributes <$> Volume.makeFile now path mode uid gid
  | makeDirectory path mode uid gid => .attributes <$> Volume.makeDirectory now path mode uid gid
  | removeFile path => (fun _ => .done) <$> Volume.removeFile now path
  | removeDirectory path => (fun _ => .done) <$> Volume.removeDirectory now path
  | read path offset length => .bytes <$> Volume.read path offset length
  | write path data offset => .count <$> Volume.write now path data offset
  | resize path size => (fun _ => .done) <$> Volume.resize now path size
  | settle _ => return .done

end RecordFs.Volume
