import RecordFs.Text.Number
import RecordFs.Text.Pieces

/-! Names of stores. A name is a path, or `file:` and then a path with parts by number and with options
behind a question mark. Some names are of no file: their stores are gone when they are closed. -/
namespace RecordFs.Shell

inductive StoreName where
  | file (path : String) (mayCreate : Bool)
  | temporary
  deriving DecidableEq, Repr

namespace StoreName

/-- Replaces two hexadecimal digits behind a percent sign by the byte that they stand for. The byte zero
hides what follows it. -/
def decode : List Char → List UInt8
  | [] => []
  | '%' :: c :: d :: cs =>
    match Text.digit? 16 c, Text.digit? 16 d with
    | some high, some low =>
      let byte := high * 16 + low
      if byte = 0 then [] else UInt8.ofNat byte :: decode cs
    | _, _ => '%'.toUInt8 :: decode (c :: d :: cs)
  | c :: cs => (String.singleton c).toUTF8.toList ++ decode cs

private def decoded? (cs : List Char) : Option String := String.fromUTF8? (decode cs).toByteArray

private def ofPath (path : String) (mayCreate : Bool) : StoreName :=
  if path = "" ∨ path = ":memory:" then .temporary else .file path mayCreate

/-- What an option makes of a name; nothing if it has a value that it may not have. -/
private def withOption (path : String) (name : StoreName) (option : List Char) : Option StoreName := do
  let value ← decoded? ((option.dropWhile (· ≠ '=')).drop 1)
  match ← decoded? (option.takeWhile (· ≠ '=')), value with
  | "mode", "memory" => some .temporary
  | "mode", "rwc" => some (ofPath path true)
  | "mode", "rw" | "mode", "ro" => some (ofPath path false)
  | "mode", _ => none
  | "cache", "shared" | "cache", "private" => some name
  | "cache", _ => none
  | _, _ => some name

/-- What stands behind two slashes up to the next; this machine has only the empty name and one more. -/
private def withoutHost : List Char → Option (List Char)
  | '/' :: '/' :: cs =>
    if cs.takeWhile (· ≠ '/') = [] ∨ cs.takeWhile (· ≠ '/') = "localhost".toList then
      some (cs.dropWhile (· ≠ '/'))
    else none
  | cs => some cs

private def ofResource (cs : List Char) : Option StoreName := do
  let cs := (← withoutHost cs).takeWhile (· ≠ '#')
  let path ← decoded? (cs.takeWhile (· ≠ '?'))
  let options := Text.pieces '&' ((cs.dropWhile (· ≠ '?')).drop 1)
  options.foldlM (withOption path) (ofPath path true)

/-- The store that a name is of; none if no store can have this name. -/
def read? (name : String) : Option StoreName :=
  if '\x00' ∈ name.toList then none
  else if name.startsWith "file:" then ofResource (name.toList.drop 5)
  else some (ofPath name true)

end StoreName
end RecordFs.Shell
