import RecordFs.Record.Kind

/-! Why an operation fails: the causes, one text for each, and the error number a kernel is told. -/
namespace RecordFs

/-- A backend that could not read or write, and what led to it, outermost first. -/
structure Fault where
  message : String
  causes : List String := []
  deriving DecidableEq, Repr

inductive StoreFailure where
  | absent (id : Id)
  | fault (fault : Fault)
  deriving DecidableEq, Repr

namespace StoreFailure

def message : StoreFailure → String
  | absent id => s!"No record stored under {id}"
  | fault f => s!"Store I/O failed: {f.message}"

def isAbsent : StoreFailure → Bool
  | absent _ => true
  | fault _ => false

end StoreFailure

inductive Failure where
  | notFound (path : String)
  | nameTooLong (length max : Nat)
  | fileTooLarge (requested max : Nat)
  | directoryNotEmpty (path : String)
  | directoryFull (path : String)
  | alreadyExists (path : String)
  | notADirectory (path : String)
  | isADirectory (path : String)
  | invalidPath (path : String)
  | malformed (record : Malformed)
  | store (failure : StoreFailure)
  deriving DecidableEq, Repr

namespace Failure

def message : Failure → String
  | notFound path => s!"No such file or directory: {path}"
  | nameTooLong length max => s!"Name too long: {length} bytes (max {max})"
  | fileTooLarge requested max => s!"File too large: {requested} bytes requested (max {max})"
  | directoryNotEmpty path => s!"Directory not empty: {path}"
  | directoryFull path => s!"Directory full: {path}"
  | alreadyExists path => s!"File exists: {path}"
  | notADirectory path => s!"Not a directory: {path}"
  | isADirectory path => s!"Is a directory: {path}"
  | invalidPath path => s!"Invalid path: {path}"
  | malformed record => s!"Corrupt record: {record.message}"
  | store failure => failure.message

/-- True of a missing entry, not of a missing record. -/
def isNotFound : Failure → Bool
  | notFound _ => true
  | _ => false

/-- A store that cannot be read is an input/output error. -/
def errno : Failure → Nat
  | notFound _ => 2
  | nameTooLong .. => 36
  | fileTooLarge .. => 27
  | directoryNotEmpty _ => 39
  | directoryFull _ => 28
  | alreadyExists _ => 17
  | notADirectory _ => 20
  | isADirectory _ => 21
  | invalidPath _ => 22
  | malformed _ => 5
  | store _ => 5

end Failure
end RecordFs
