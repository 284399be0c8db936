import RecordFs.Toml.Value

/-! Tokens of a document: signs, blanks, comments, line ends, quoted pieces and bare pieces. Their
texts put together are the document, so nothing of it is passed over. -/
namespace RecordFs.Toml

inductive Token.Kind where
  | sign (c : Char)
  | blank
  | comment
  | lineEnd
  /-- In quotes; `long` pieces, in three quotes, may go on over several lines. -/
  | quoted (mark : Char) (long : Bool)
  /-- Anything else: a key, a number, a truth value or a moment. -/
  | bare
  | finish
  deriving DecidableEq, Repr

structure Token where
  /-- The number of characters from here to the end of the document. -/
  place : Nat
  kind : Token.Kind
  text : List Char
  deriving DecidableEq, Repr

namespace Token

/-- What follows the last token of every document. -/
def finish : Token := ⟨0, .finish, []⟩

def isSign (c : Char) : Bool := c ∈ ['.', '=', ',', '[', ']', '\x7b', '\x7d']

def isBlank (c : Char) : Bool := c = ' ' || c = '\t'

private def isLineEnd (c : Char) : Bool := c = '\n' || c = '\r'

private def isBare (c : Char) : Bool := !isSign c && !isBlank c && !isLineEnd c && c != '#'

/-- Characters that may not stand for themselves anywhere. -/
def isControl (c : Char) : Bool := (c.toNat < 0x20 && c != '\t') || c = '\x7f'

/-- The number of characters behind the opening mark up to the closing mark, which counts too.
Without a closing mark the piece ends with the line. -/
def shortExtent (mark : Char) : List Char → Nat
  | [] | '\n' :: _ => 0
  | [_] => 1
  | c :: d :: cs =>
    if c = mark then 1
    else if mark = '"' && c = '\\' && (d = mark || d = '\\') then 2 + shortExtent mark cs
    else 1 + shortExtent mark (d :: cs)

/-- The same up to three marks in a row. Of a longer row up to two marks more belong to the piece. -/
def longExtent (mark : Char) : List Char → Nat
  | [] => 0
  | [_] => 1
  | c :: d :: cs =>
    if c = mark ∧ d = mark ∧ cs.head? = some mark then
      3 + min 2 ((cs.drop 1).takeWhile (· = mark)).length
    else if mark = '"' && c = '\\' then 2 + longExtent mark cs
    else 1 + longExtent mark (d :: cs)

/-- The kind of a token, and how many characters it has behind its first. -/
def shape (c : Char) (cs : List Char) : Kind × Nat :=
  if isSign c then (.sign c, 0)
  else if isBlank c then (.blank, (cs.takeWhile isBlank).length)
  else if c = '#' then (.comment, (cs.takeWhile (!isLineEnd ·)).length)
  else if c = '\n' then (.lineEnd, 0)
  else if c = '\r' then (.lineEnd, if cs.head? = some '\n' then 1 else 0)
  else if c = '"' ∨ c = '\'' then
    match cs with
    | d :: e :: rest =>
      if d = c ∧ e = c then (.quoted c true, 2 + longExtent c rest)
      else (.quoted c false, shortExtent c cs)
    | _ => (.quoted c false, shortExtent c cs)
  else (.bare, (cs.takeWhile isBare).length)

/-- The tokens of the last `place` characters of a document. -/
def allFrom (place : Nat) : List Char → List Token
  | [] => []
  | c :: cs =>
    let (kind, more) := shape c cs
    ⟨place, kind, c :: cs.take more⟩ :: allFrom (place - (more + 1)) (cs.drop more)
termination_by cs => cs.length
decreasing_by simp only [List.length_drop, List.length_cons]; omega

/-- The tokens of a document in order. -/
def all (cs : List Char) : List Token := allFrom cs.length cs

/-- A comment holds no control characters, and a carriage return only stands before a line feed. -/
def check (token : Token) : Except Problem Unit :=
  match token.kind with
  | .comment =>
    if token.text.any isControl then .error ⟨token.place, "invalid comment character"⟩ else .ok ()
  | .lineEnd =>
    if token.text = ['\r'] then .error ⟨token.place, "carriage return without line feed"⟩ else .ok ()
  | _ => .ok ()

end Token
end RecordFs.Toml
