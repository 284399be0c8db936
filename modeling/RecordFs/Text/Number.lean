/-! Whole numbers written in digits, of any base up to 36. -/
namespace RecordFs.Text

inductive NumberFailure where
  | empty
  | badDigit
  | tooLarge
  deriving DecidableEq, Repr

def NumberFailure.message : NumberFailure → String
  | empty => "cannot parse integer from empty string"
  | badDigit => "invalid digit found in string"
  | tooLarge => "number too large to fit in target type"

/-- The value of a digit; letters of either case follow the nine. -/
def digit? (base : Nat) (c : Char) : Option Nat :=
  let value :=
    if '0' ≤ c ∧ c ≤ '9' then c.toNat - '0'.toNat
    else if 'a' ≤ c ∧ c ≤ 'z' then c.toNat - 'a'.toNat + 10
    else if 'A' ≤ c ∧ c ≤ 'Z' then c.toNat - 'A'.toNat + 10
    else base
  if value < base then some value else none

/-- Reads on from `n`. Of two faults the one further left is told. -/
def readDigits (base bound : Nat) : List Char → Nat → Except NumberFailure Nat
  | [], n => .ok n
  | c :: cs, n =>
    match digit? base c with
    | none => .error .badDigit
    | some d =>
      if n * base + d < bound then readDigits base bound cs (n * base + d) else .error .tooLarge

/-- A number below `bound`, after at most one plus sign. -/
def readNumber (base bound : Nat) (text : String) : Except NumberFailure Nat :=
  match text.toList with
  | [] => .error .empty
  | ['+'] => .error .badDigit
  | '+' :: cs => readDigits base bound cs 0
  | cs => readDigits base bound cs 0

end RecordFs.Text
