import RecordFs.Record.Inode
import RecordFs.Text.Number

/-! Permissions as text: octal digits to give them, letters to show them. -/
namespace RecordFs.Shell.Permissions

inductive Failure where
  | notANumber (text : String) (why : Text.NumberFailure)
  | outOfRange (text : String)
  deriving DecidableEq, Repr

def Failure.message : Failure → String
  | notANumber text why => s!"invalid octal mode '{text}': {why.message}"
  | outOfRange text => s!"mode '{text}' out of range"

/-- What follows the marks for octal digits, however many there are. -/
def afterMarks : List Char → List Char
  | '0' :: 'o' :: cs => afterMarks cs
  | cs => cs

/-- Reads octal digits, which may be marked as such. -/
def read (text : String) : Except Failure UInt32 :=
  match Text.readNumber 8 UInt32.size (String.ofList (afterMarks text.toList)) with
  | .error why => .error (.notANumber text why)
  | .ok n => if n ≤ 0o7777 then .ok (UInt32.ofNat n) else .error (.outOfRange text)

/-- The type, then what the owner, the group and all others may do. -/
def letters (kind : EntryKind) (permissions : UInt32) : String :=
  let letter (bit : Nat) (c : Char) := if permissions.toNat.testBit bit then c else '-'
  String.ofList <|
    (match kind with | .directory => 'd' | .file => '-') ::
      [8, 7, 6, 5, 4, 3, 2, 1, 0].zipWith letter ['r', 'w', 'x', 'r', 'w', 'x', 'r', 'w', 'x']

/-- Four octal digits, or more if it takes more. -/
def octal (permissions : UInt32) : String :=
  let digits := Nat.toDigits 8 permissions.toNat
  String.ofList (List.replicate (4 - digits.length) '0' ++ digits)

end RecordFs.Shell.Permissions
