import RecordFs.Toml.Bare
import RecordFs.Toml.Quotation

/-! The items of a document, read from its tokens: headers, and keys with their values. A fault of
structure ends the reading. Faults inside keys and values wait until the structure is known to be
sound, because a fault of structure is told first, wherever it is. -/
namespace RecordFs.Toml

/-- Something whose faults wait until the structure of the document is known to be sound. -/
abbrev Delayed (α : Type) := Except Problem α

/-- The keys before the last dot, and the last. -/
abbrev Path := List Key × Key

abbrev Entry := Delayed Path × Delayed Value

inductive Item where
  /-- In one pair of brackets, or in two: then the table is one more of an array, which grows. -/
  | header (grows : Bool) (path : Delayed Path)
  | entry (entry : Entry)

namespace Token

private def missing {α : Type} (token : Token) : Delayed α := .error ⟨token.place, "missing key or value"⟩

private def isName (token : Token) : Bool :=
  match token.kind with
  | .quoted .. | .bare => true
  | _ => false

private def isKeyCharacter (c : Char) : Bool := c.isAlphanum || c = '_' || c = '-'

private def quotation (token : Token) (mark : Char) (long : Bool) : Delayed String :=
  String.ofList <$> Quotation.read mark long token.text (token.place - token.text.length)

/-- A key is one name. It may not go on over several lines. -/
def key (token : Token) : Delayed Key :=
  match token.kind with
  | .quoted mark long =>
    if long then .error ⟨token.place, "a key in three quotes"⟩
    else (⟨token.place, ·⟩) <$> token.quotation mark long
  | _ =>
    if token.text.all isKeyCharacter then .ok ⟨token.place, String.ofList token.text⟩
    else .error ⟨token.place, "invalid unquoted key"⟩

end Token

/-- Programs that take tokens off the front of a document. -/
abbrev Reading := StateT (List Token) (Except Problem)

namespace Reading

def peek : Reading Token := return (← MonadState.get).headD .finish

def place : Reading Nat := return (← peek).place

def stopAt {α : Type} (place : Nat) (message : String) : Reading α := throw ⟨place, message⟩

def stop {α : Type} (message : String) : Reading α := do stopAt (← place) message

def take : Reading Unit := do
  (← peek).check
  modify List.tail

def accept (kind : Token.Kind) : Reading Bool := do
  if (← peek).kind = kind then
    take
    return true
  else return false

def blanks : Reading Unit := do
  let _ ← accept .blank

/-- What may stand between a header or value and the end of its line. -/
def endOfLine : Reading Unit := do
  blanks
  let _ ← accept .comment
  unless (← accept .lineEnd) || (← peek).kind = .finish do
    stop "unexpected key or value, expected newline, `#`"

def skipLine : Reading Unit := do
  modify (·.dropWhile fun token => token.kind ≠ .comment ∧ token.kind ≠ .lineEnd)
  endOfLine

/-- Keys with dots between them, and whether there is one behind the last dot. A key that is missing
is told as a fault of its own. -/
def path : Nat → Reading (Delayed Path × Bool)
  | 0 => return ((← peek).missing, false)
  | fuel + 1 => do
    blanks
    let token ← peek
    let key ← if token.isName then
        take
        blanks
        pure token.key
      else pure token.missing
    if ← accept (.sign '.') then
      let (more, isWhole) ← path fuel
      let joined : Delayed Path := do
        let key ← key
        let (keys, last) ← more
        return (key :: keys, last)
      return (joined, isWhole)
    else return (([], ·) <$> key, token.isName)

/-- One step for each character that is left is enough for any loop over the tokens. -/
def fuel : Reading Nat := return (← place) + 1

def keys : Reading (Delayed Path × Bool) := do path (← fuel)

/-- A bare piece with dots in it, and blanks where another bare piece follows. -/
private def bareText : List Token → List Char × List Token
  | [] => ([], [])
  | token :: rest =>
    let belongs : Bool := match token.kind with
      | .bare | .sign '.' => true
      | .blank => rest.head?.any (·.kind = .bare)
      | _ => false
    if belongs then
      let (text, rest) := bareText rest
      (token.text ++ text, rest)
    else ([], token :: rest)

private def scalar : Reading (Delayed Value) := do
  let token ← peek
  match token.kind with
  | .quoted mark long =>
    take
    return (Value.scalar token.place ∘ Scalar.text) <$> token.quotation mark long
  | _ =>
    let (text, rest) := bareText (← MonadState.get)
    MonadState.set rest
    return match Bare.read? text with
      | some s => .ok (.scalar token.place s)
      | none => .error ⟨token.place, "string values must be quoted"⟩

/-- Whether a value or a dotted key starts here. -/
private def startsValue : Token.Kind → Bool
  | .quoted .. | .bare => true
  | .sign c => c ∈ ['.', '[', '\x7b']
  | _ => false

private def isGap : Token.Kind → Bool
  | .blank | .comment | .lineEnd => true
  | _ => false

/-- Values up to the closing bracket, with commas between them and perhaps after the last. One that is
not closed is told at the place that its last part has `reached`. -/
private def elements (value : Reading (Delayed Value)) (isFilled : Bool) (reached : Nat) :
    Nat → Reading (List (Delayed Value))
  | 0 => stopAt reached "unclosed array"
  | fuel + 1 => do
    let kind := (← peek).kind
    if isGap kind then
      take
      elements value isFilled reached fuel
    else if kind = .finish then stopAt reached "unclosed array, expected `]`"
    else if kind = .sign ']' then
      take
      return []
    else if kind = .sign ',' ∧ isFilled then
      take
      elements value false (← place) fuel
    else if startsValue kind ∧ !isFilled then
      let first ← value
      return first :: (← elements value true (← place) fuel)
    else stop "unexpected sign in an array"

/-- How far an entry in braces has come. -/
private inductive Progress where
  | key
  | equals (path : Delayed Path)
  | value (path : Delayed Path)
  | comma

/-- Entries up to the closing brace, with commas between them and perhaps after the last. One that the
brace cuts short lacks its value. -/
private def entries (value : Reading (Delayed Value)) (progress : Progress) (reached : Nat) :
    Nat → Reading (List Entry)
  | 0 => stopAt reached "unclosed inline table"
  | fuel + 1 => do
    let token ← peek
    if isGap token.kind then
      take
      entries value progress reached fuel
    else match token.kind, progress with
      | .finish, _ => stopAt reached "unclosed inline table, expected a closing brace"
      | .sign '\x7d', .equals path | .sign '\x7d', .value path =>
        take
        return [(path, token.missing)]
      | .sign '\x7d', _ =>
        take
        return []
      | .sign '=', .key =>
        take
        entries value (.value token.missing) (← place) fuel
      | .sign '=', .equals path =>
        take
        entries value (.value path) (← place) fuel
      | .sign ',', .comma =>
        take
        entries value .key (← place) fuel
      | .sign '.', .key | .quoted .., .key | .bare, .key =>
        let (path, _) ← keys
        entries value (.equals path) (← place) fuel
      | kind, .value path =>
        unless startsValue kind do stop "missing value"
        let first ← value
        return (path, first) :: (← entries value .comma (← place) fuel)
      | _, _ => stop "unexpected sign in an inline table"

def enter (table : Table) (entry : Entry) : Delayed Table := do
  let (path, key) ← entry.1
  table.enterDotted path key (← entry.2)

/-- A scalar, or brackets or braces around values that `inner` reads. -/
private def valueAround (inner : Option (Reading (Delayed Value))) : Reading (Delayed Value) := do
  let token ← peek
  match token.kind, inner with
  | .sign '[', some inner =>
    take
    return (Value.array token.place false) <$> (← elements inner false (← place) (← fuel)).mapM id
  | .sign '\x7b', some inner =>
    take
    return (Value.table token.place .braces) <$> (← entries inner .key (← place) (← fuel)).foldlM enter []
  | .sign '[', none | .sign '\x7b', none => stop "cannot recurse further; max recursion depth met"
  | _, _ => scalar

/-- A value with at most so many brackets and braces around any part of it. -/
def value : Nat → Reading (Delayed Value)
  | 0 => valueAround none
  | depth + 1 => valueAround (some (value depth))

/-- The value behind an equals sign. Where the line ends instead, the value is missing. -/
def assigned : Reading (Delayed Value) := do
  blanks
  let token ← peek
  match token.kind with
  | .comment | .lineEnd | .finish | .sign ',' => return token.missing
  | kind => if startsValue kind then value 80 else stop "missing opening bracket or brace"

private def header : Reading Item := do
  let grows ← accept (.sign '[')
  let (path, isWhole) ← keys
  blanks
  if ← accept (.sign ']') then
    if grows then
      unless ← accept (.sign ']') do stop "unclosed array table, expected `]`"
    endOfLine
  else
    if isWhole then stop "unclosed table, expected `]`"
    skipLine
  return .header grows path

private def entry : Reading Item := do
  let (path, _) ← keys
  blanks
  unless ← accept (.sign '=') do stop "key with no value, expected `=`"
  let value ← assigned
  endOfLine
  return .entry (path, value)

def items : Nat → Reading (List Item)
  | 0 => return []
  | fuel + 1 => do
    let token ← peek
    if isGap token.kind then
      take
      items fuel
    else if token.kind = .finish then return []
    else if ← accept (.sign '[') then
      let first ← header
      return first :: (← items fuel)
    else if token.isName ∨ token.kind = .sign '=' ∨ token.kind = .sign '.' then
      let first ← entry
      return first :: (← items fuel)
    else stop "invalid key"

end Reading

/-- The items of a document. A mark of byte order in front is no part of it. -/
def Item.read (text : String) : Except Problem (List Item) := do
  let tokens := Token.all (match text.toList with
    | '\ufeff' :: cs => cs
    | cs => cs)
  let (items, _) ← (Reading.items (tokens.length + 1)).run tokens
  return items

end RecordFs.Toml
