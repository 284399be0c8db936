/-! Values of a configuration document, and how keys and headers build its tables. A table that
was once given by a header, by dotted keys or in braces cannot be given again in another way. -/
namespace RecordFs.Toml

/-- What is wrong with a document, and the number of characters from there to its end. -/
structure Problem where
  place : Nat
  message : String
  deriving DecidableEq, Repr

structure Key where
  place : Nat
  name : String
  deriving DecidableEq, Repr

inductive Scalar where
  | text (text : String)
  | integer (n : Int)
  /-- A number with a fraction or exponent, as it is written. -/
  | decimal (text : String)
  /-- A number that is too large to be kept, or digits that are of no number. -/
  | unkept (whole : Bool)
  | boolean (b : Bool)
  /-- A date, a time of day or both. -/
  | moment
  deriving DecidableEq, Repr

/-- How a table came to be. -/
inductive Origin where
  /-- Only as part of a longer header. -/
  | passed
  | dotted
  | header
  | braces
  deriving DecidableEq, Repr

inductive Value where
  | scalar (place : Nat) (scalar : Scalar)
  /-- `grows` marks an array that headers in double brackets extend. -/
  | array (place : Nat) (grows : Bool) (items : List Value)
  | table (place : Nat) (origin : Origin) (entries : List (Key × Value))

namespace Value

def place : Value → Nat
  | scalar place _ => place
  | array place .. => place
  | table place .. => place

end Value

abbrev Table := List (Key × Value)

namespace Table

private def taken {α : Type} (key : Key) : Except Problem α := .error ⟨key.place, "duplicate key"⟩

/-- Gives the entry of a key a new value; a new key comes last. -/
def alter (key : Key) (f : Option Value → Except Problem Value) : Table → Except Problem Table
  | [] => return [(key, ← f none)]
  | entry :: rest =>
    if entry.1.name = key.name then return (entry.1, ← f (some entry.2)) :: rest
    else return entry :: (← alter key f rest)

private def lastTable (f : Table → Except Problem Table) : List Value → Except Problem (List Value)
  | [] => return []
  | [.table place origin entries] => return [.table place origin (← f entries)]
  | item :: rest => return item :: (← lastTable f rest)

/-- Changes the table that a header leads to. -/
def atHeader (f : Table → Except Problem Table) : List Key → Table → Except Problem Table
  | [], entries => f entries
  | key :: path, entries => entries.alter key fun
    | none => return .table key.place .passed (← atHeader f path [])
    | some (.table place origin inner) =>
      if origin = .braces then taken key else return .table place origin (← atHeader f path inner)
    | some (.array place true items) => return .array place true (← lastTable (atHeader f path) items)
    | some _ => taken key

/-- Changes the table that the keys before the last dot lead to. -/
def atDotted (f : Table → Except Problem Table) : List Key → Table → Except Problem Table
  | [], entries => f entries
  | key :: path, entries => entries.alter key fun
    | none => return .table key.place .dotted (← atDotted f path [])
    | some (.table place .dotted inner) => return .table place .dotted (← atDotted f path inner)
    | some (.table place .passed inner) =>
      if path = [] then taken key else return .table place .passed (← atDotted f path inner)
    | some (.array place true items) =>
      if path = [] then taken key else return .array place true (← lastTable (atDotted f path) items)
    | some _ => taken key

/-- Enters a value under a key that must be new. -/
def enter (key : Key) (value : Value) : Table → Except Problem Table :=
  alter key fun
    | none => .ok value
    | some _ => taken key

def enterDotted (path : List Key) (key : Key) (value : Value) : Table → Except Problem Table :=
  atDotted (enter key value) path

/-- Starts the table of a header. One that only longer headers passed through may still be given. -/
def start (path : List Key) (key : Key) : Table → Except Problem Table :=
  atHeader (alter key fun
    | none => .ok (.table key.place .header [])
    | some (.table _ .passed entries) => .ok (.table key.place .header entries)
    | some _ => taken key) path

/-- Adds a table with these entries to the array under a header in double brackets. -/
def addElement (path : List Key) (key : Key) (entries : Table) : Table → Except Problem Table :=
  let item := Value.table key.place .header entries
  atHeader (alter key fun
    | none => .ok (.array key.place true [item])
    | some (.array place true items) => .ok (.array place true (items ++ [item]))
    | some _ => taken key) path

end Table
end RecordFs.Toml
