import RecordFs.Text.Number
import RecordFs.Text.Pieces
import RecordFs.Toml.Value

/-! What a bare piece of a document stands for: a truth value, a number, or a moment in time. -/
namespace RecordFs.Toml.Bare

private def isDigitOf (base : Nat) (c : Char) : Bool := (Text.digit? base c).isSome

private def valueOf (base : Nat) (digits : List Char) : Nat :=
  digits.foldl (fun n c => n * base + (Text.digit? base c).getD 0) 0

/-- Whether underscores stand alone and between digits. One character alone, such as a sign, may stand
before the first of them. -/
def isSpaced (isDigit : Char → Bool) (cs : List Char) : Bool :=
  match Text.pieces '_' cs with
  | [_] => true
  | runs =>
    runs.all (· ≠ []) && runs.tail.all (·.head?.any isDigit) &&
      runs.dropLast.all fun run => run.length ≤ 1 || run.getLast?.any isDigit

/-- A whole number is kept if it fits in 128 bits. -/
def kept (n : Int) : Scalar :=
  if -0x80000000000000000000000000000000 ≤ n ∧ n < 0x100000000000000000000000000000000 then .integer n
  else .unkept true

/-- What digits stand for when no underscores are left between them. -/
private def whole (base : Nat) (negative : Bool) (digits : List Char) : Scalar :=
  if digits ≠ [] ∧ digits.all (isDigitOf base) then
    kept (if negative then -(valueOf base digits) else valueOf base digits)
  else .unkept true

/-- A number of a base that its first two characters name. There need be no digits. -/
private def based? (base : Nat) (cs : List Char) : Option Scalar :=
  if cs.all (fun c => isDigitOf base c || c = '_') ∧ isSpaced (isDigitOf base) cs then
    some (whole base false (cs.filter (· ≠ '_')))
  else none

private def cutSign : List Char → List Char × List Char
  | '+' :: cs => (['+'], cs)
  | '-' :: cs => (['-'], cs)
  | cs => ([], cs)

private def hasNeedlessZero (cs : List Char) : Bool := cs.head? = some '0' && 1 < cs.length

private def integer? (sign body : List Char) : Option Scalar :=
  if body ≠ [] ∧ !hasNeedlessZero body ∧ isSpaced (isDigitOf 16) (sign ++ body) then
    some (whole 10 (sign = ['-']) (body.filter (· ≠ '_')))
  else none

private def cut (isMark : Char → Bool) (cs : List Char) : List Char × Option (List Char) :=
  (cs.takeWhile (!isMark ·), ((cs.dropWhile (!isMark ·)).tail?))

private def isDigits (cs : List Char) : Bool :=
  cs.any Char.isDigit && cs.all fun c => c.isDigit || c = '_'

/-- Whether a number, of so many tenths to a power, is nearer to 2 ^ 1024 than to any double. -/
private def exceedsDouble (n : Nat) (power : Int) : Bool :=
  let bound := (Nat.pow 2 54 - 1) * Nat.pow 2 970
  let digits : Int := power + (Nat.toDigits 10 n).length
  n ≠ 0 && (309 < digits || (digits = 309 &&
    bound * Nat.pow 10 (-power).toNat ≤ n * Nat.pow 10 power.toNat))

/-- A whole part, then a fraction, an exponent or both. -/
private def decimal? (sign body : List Char) : Option Scalar :=
  let (mantissa, exponent) := cut (fun c => c = 'e' || c = 'E') body
  let (start, fraction) := cut (· = '.') mantissa
  let (exponentSign, exponentDigits) := cutSign (exponent.getD ['0'])
  if isDigits start ∧ !hasNeedlessZero start ∧ fraction.all isDigits ∧ isDigits exponentDigits ∧
      isSpaced Char.isDigit (sign ++ body) then
    let fraction := (fraction.getD []).filter (· ≠ '_')
    let shift : Int := valueOf 10 (exponentDigits.filter (· ≠ '_'))
    let power := (if exponentSign = ['-'] then -shift else shift) - fraction.length
    if exceedsDouble (valueOf 10 (start.filter (· ≠ '_') ++ fraction)) power then some (.unkept false)
    else some (.decimal (String.ofList (sign ++ body)))
  else none

/-- A number of exactly so many digits. -/
private def field? (width : Nat) (cs : List Char) : Option Nat :=
  if cs.length = width ∧ cs.all Char.isDigit then some (valueOf 10 cs) else none

private def isDate (cs : List Char) : Bool :=
  match Text.pieces '-' cs with
  | [y, m, d] =>
    match field? 4 y, field? 2 m, field? 2 d with
    | some y, some m, some d =>
      let leap := y % 4 = 0 ∧ (y % 100 ≠ 0 ∨ y % 400 = 0)
      let days := if m = 2 then (if leap then 29 else 28) else if m ∈ [4, 6, 9, 11] then 30 else 31
      1 ≤ m && m ≤ 12 && 1 ≤ d && d ≤ days
    | _, _, _ => false
  | _ => false

/-- Hours and minutes, then perhaps seconds, then perhaps a fraction of one. -/
private def isTime (cs : List Char) : Bool :=
  let (clock, fraction) := cut (· = '.') cs
  let upTo (most : Nat) (f : List Char) := (field? 2 f).any (· ≤ most)
  match Text.pieces ':' clock with
  | [h, m] => upTo 23 h && upTo 59 m && fraction.isNone
  | [h, m, s] =>
    upTo 23 h && upTo 59 m && upTo 60 s && fraction.all fun f => f ≠ [] && f.all Char.isDigit
  | _ => false

/-- A time, and perhaps its distance from the time at Greenwich. -/
private def isZonedTime (cs : List Char) : Bool :=
  let ofTime (c : Char) := c.isDigit || c = ':' || c = '.'
  isTime (cs.takeWhile ofTime) && match cs.dropWhile ofTime with
    | [] | ['Z'] | ['z'] => true
    | sign :: zone => (sign = '+' || sign = '-') && zone.length = 5 && isTime zone

private def moment? (cs : List Char) : Option Scalar :=
  let isMoment := isDate cs || isTime cs ||
    (isDate (cs.take 10) && ((cs.drop 10).head?.any fun c => c = 'T' || c = 't' || c = ' ') &&
      isZonedTime (cs.drop 11))
  if isMoment then some .moment else none

/-- What stands behind the first digits decides what a number is to be. -/
private def number? (sign body : List Char) : Option Scalar :=
  match body.dropWhile Char.isDigit with
  | [] => integer? sign body
  | c :: cs =>
    if c = '-' ∨ c = ':' then moment? (sign ++ body)
    else if ' ' ∈ c :: cs then none
    else if (c :: cs).any fun d => d = '.' || d = 'e' || d = 'E' then decimal? sign body
    else if c = '_' then integer? sign body
    else none

def read? (cs : List Char) : Option Scalar :=
  let (sign, body) := cutSign cs
  if cs = "true".toList then some (.boolean true)
  else if cs = "false".toList then some (.boolean false)
  else if body = "inf".toList ∨ body = "nan".toList then some (.decimal (String.ofList cs))
  else match cs with
    | '0' :: 'x' :: ds => based? 16 ds
    | '0' :: 'o' :: ds => based? 8 ds
    | '0' :: 'b' :: ds => based? 2 ds
    | _ => number? sign body

end RecordFs.Toml.Bare
