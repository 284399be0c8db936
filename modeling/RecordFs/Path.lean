import RecordFs.Failure
import RecordFs.Text.Pieces

/-! Paths as text. Only the segments between slashes count, however many slashes there are. -/
namespace RecordFs.Path

/-- The segments of a path; the root has none. -/
def segments (path : String) : List String :=
  ((Text.pieces '/' path.toList).filter (· ≠ [])).map String.ofList

/-- A path may be of exactly the greatest length. -/
def check (path : String) : Except Failure Unit :=
  if path.utf8ByteSize > maxPathLength then .error (.nameTooLong path.utf8ByteSize maxPathLength)
  else .ok ()

def checkName (name : String) : Except Failure Unit :=
  if name.utf8ByteSize > maxNameLength then .error (.nameTooLong name.utf8ByteSize maxNameLength)
  else .ok ()

/-- The path of an entry of the directory at `parent`. -/
def child (parent name : String) : String :=
  if parent = "/" then "/" ++ name else parent ++ "/" ++ name

/-- What stands before the last slash; the root when that is nothing. -/
def beforeLastSlash (path : List Char) : List Char :=
  match (path.reverse.dropWhile (· ≠ '/')).drop 1 with
  | [] => ['/']
  | rest => rest.reverse

/-- The path of the directory that holds an entry. -/
def parent (path : String) : String := String.ofList (beforeLastSlash path.toList)

/-- The directory of an entry whose path may end in slashes. -/
def directoryOf (path : String) : String :=
  String.ofList (beforeLastSlash (path.toList.reverse.dropWhile (· = '/')).reverse)

/-- Puts a slash in front where there is none. -/
def absolute (path : String) : String := if path.startsWith "/" then path else "/" ++ path

end RecordFs.Path
