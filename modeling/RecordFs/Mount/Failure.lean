import RecordFs.Failure
import RecordFs.Text.Quoted

/-! Why a kernel's request is refused, and the error number of the reply. -/
namespace RecordFs.Mount

inductive Failure where
  | volume (failure : RecordFs.Failure)
  | unknownNode (number : Nat)
  | badName (name : ByteArray)
  | badOffset (offset : Int64)
  | unsupported
  deriving DecidableEq

namespace Failure

def message : Failure → String
  | volume failure => failure.message
  | unknownNode number => s!"Invalid inode: {number}"
  | badName name => s!"Invalid file name: {Text.quoteBytes name}"
  | badOffset offset => s!"Invalid offset: {offset.toInt}"
  | unsupported => "Operation not supported"

def errno : Failure → Nat
  | volume failure => failure.errno
  | unknownNode _ => 2
  | badName _ => 22
  | badOffset _ => 22
  | unsupported => 95

end Failure

/-- The number for a failure outside a volume; it may carry one of its own. -/
def systemErrno (code : Option Int) : Int := code.getD 5

end RecordFs.Mount
