import RecordFs.Text.Number
import RecordFs.Toml.Token

/-! Quoted pieces of a document: in single quotes as they stand, in double quotes with escapes, and
over several lines in three quotes. -/
namespace RecordFs.Toml.Quotation

open Token (isBlank isControl)

/-- Whether the first character may stand for itself. -/
private def isPlain (long : Bool) (c : Char) (rest : List Char) : Bool :=
  !isControl c || (long && (c = '\n' || (c = '\r' && rest.head? = some '\n')))

/-- The character with this number in hexadecimal digits. -/
private def numbered (digits : List Char) : Option Char :=
  match Text.readDigits 16 0x110000 digits 0 with
  | .ok n => if n.isValidChar then some (Char.ofNat n) else none
  | .error _ => none

/-- The number of blanks and line ends in front. A carriage return alone ends no line. -/
def gapLength : List Char → Nat
  | '\r' :: '\n' :: cs => 2 + gapLength cs
  | c :: cs => if isBlank c || c = '\n' then 1 + gapLength cs else 0
  | [] => 0

/-- The blanks at the end of a line, and all blanks and line ends after them. -/
private def joined? (cs : List Char) : Option Nat :=
  let blanks := (cs.takeWhile isBlank).length
  match cs.drop blanks with
  | '\n' :: _ | '\r' :: '\n' :: _ => some (gapLength cs)
  | _ => none

/-- What an escape stands for, and how many characters it has behind the backslash. One at the end of
a line stands for nothing and hides the gap that follows. -/
def escape? (long : Bool) : List Char → Option (List Char × Nat)
  | [] => none
  | c :: cs =>
    let number (count : Nat) :=
      if count ≤ cs.length then (numbered (cs.take count)).map fun d => ([d], count + 1) else none
    match c with
    | 'b' => some (['\x08'], 1)
    | 't' => some (['\t'], 1)
    | 'n' => some (['\n'], 1)
    | 'f' => some (['\x0c'], 1)
    | 'r' => some (['\r'], 1)
    | 'e' => some (['\x1b'], 1)
    | '"' => some (['"'], 1)
    | '\\' => some (['\\'], 1)
    | 'x' => number 2
    | 'u' => number 4
    | 'U' => number 8
    | _ => if long then (joined? (c :: cs)).map fun n => ([], n) else none

/-- Replaces escapes by what they stand for; `after` characters follow the text in its document. -/
def unescape (long : Bool) (after : Nat) : List Char → Except Problem (List Char)
  | [] => return []
  | c :: cs =>
    if c = '\\' then
      match escape? long cs with
      | some (ds, count) => return ds ++ (← unescape long after (cs.drop count))
      | none => .error ⟨after + cs.length, "invalid escape"⟩
    else if isPlain long c cs then return c :: (← unescape long after cs)
    else .error ⟨after + cs.length + 1, "invalid string character"⟩
termination_by cs => cs.length
decreasing_by all_goals simp only [List.length_drop, List.length_cons]; omega

/-- How many bytes are passed when a character is found that may not stand for itself. That a carriage
return stands alone is found behind it. -/
def faultAfter? (long : Bool) : List Char → Option Nat
  | [] => none
  | c :: cs =>
    if isPlain long c cs then (faultAfter? long cs).map (c.utf8Size + ·)
    else some (if long ∧ c = '\r' then 1 else 0)

/-- What is left when so many bytes are passed. -/
private def dropBytes : Nat → List Char → List Char
  | _, [] => []
  | n, c :: cs => if c.utf8Size ≤ n then dropBytes (n - c.utf8Size) cs else c :: cs

private def dropLineEnd : List Char → List Char
  | '\n' :: cs | '\r' :: '\n' :: cs => cs
  | cs => cs

/-- The text that a quoted piece stands for; `after` characters follow the piece in its document. The
bytes before a fault in single quotes are counted from the opening quote. -/
def read (mark : Char) (long : Bool) (piece : List Char) (after : Nat) :
    Except Problem (List Char) :=
  let marks := List.replicate (if long then 3 else 1) mark
  let rest := piece.drop marks.length
  let rest := if long then dropLineEnd rest else rest
  if marks.isSuffixOf rest then
    let inside := rest.take (rest.length - marks.length)
    if mark = '"' then unescape long (marks.length + after) inside
    else match faultAfter? long inside with
      | none => .ok inside
      | some bytes => .error ⟨after + (dropBytes bytes piece).length, "invalid string character"⟩
  else .error ⟨after, "invalid string, expected a closing quote"⟩

end RecordFs.Toml.Quotation
