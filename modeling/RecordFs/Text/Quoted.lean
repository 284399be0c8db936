import RecordFs.Text.Hidden

/-! Text in double quotes. What would end the quotation, break the line or not show is spelled out,
and bytes that are no text are given by number. -/
namespace RecordFs.Text

private def byNumber (c : Char) : List Char :=
  ['\\', 'u', '\x7b'] ++ Nat.toDigits 16 c.toNat ++ ['\x7d']

/-- A character as it stands in a quotation. -/
def spell (c : Char) : List Char :=
  match c with
  | '\x00' => ['\\', '0']
  | '\t' => ['\\', 't']
  | '\r' => ['\\', 'r']
  | '\n' => ['\\', 'n']
  | '"' => ['\\', '"']
  | '\\' => ['\\', '\\']
  | _ => if isHidden c then byNumber c else [c]

def quote (text : String) : String := String.ofList ('"' :: text.toList.flatMap spell ++ ['"'])

private def spellByte (b : UInt8) : List Char :=
  let digit n := (Nat.digitChar n).toUpper
  ['\\', 'x', digit (b.toNat / 16), digit (b.toNat % 16)]

private def spellFrom (bytes : ByteArray) (i : Nat) : List Char :=
  if h : i < bytes.size then
    match bytes.utf8DecodeChar? i with
    | some c => spell c ++ spellFrom bytes (i + c.utf8Size)
    | none => spellByte bytes[i] ++ spellFrom bytes (i + 1)
  else []
termination_by bytes.size - i
decreasing_by
  · have := c.utf8Size_pos
    omega
  · omega

/-- Quotes bytes that need not be text. -/
def quoteBytes (bytes : ByteArray) : String := String.ofList ('"' :: spellFrom bytes 0 ++ ['"'])

end RecordFs.Text
