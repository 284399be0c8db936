import RecordFs.Bytes
import RecordFs.Geometry

/-! Steps that have no result on all of their operands: indices, slices, differences, sums in words of 64
bits, assertions and buffers for content. Each is checked here and slips where it must not be taken. -/
namespace RecordFs

/-- What becomes of a program that takes a step it must not take. -/
inductive Slip where
  /-- An index that no element has. -/
  | index
  /-- A slice that is not within its bytes, or is copied to one of another length. -/
  | slice
  | underflow
  | overflow
  | assertion
  /-- A buffer for content that is longer than every file. -/
  | oversized
  /-- Bytes taken for a record of which they do not have the size. -/
  | misread
  deriving DecidableEq, Repr

abbrev Checked := Except Slip

namespace Checked

/-- Slips unless `p` holds. -/
def demand (p : Prop) [Decidable p] (slip : Slip) : Checked Unit := if p then .ok () else .error slip

def sub (a b : Nat) : Checked Nat := if b ≤ a then .ok (a - b) else .error .underflow

def add (a b : Nat) : Checked Nat := if a + b < UInt64.size then .ok (a + b) else .error .overflow

def allocate (size : Nat) : Checked Unit := demand (size ≤ maxFileSize) .oversized

def element {α : Type} (l : List α) (i : Nat) : Checked α := if h : i < l.length then .ok l[i] else .error .index

def replace {α : Type} {n : Nat} (v : Vector α n) (i : Nat) (a : α) : Checked (Vector α n) :=
  if h : i < n then .ok (v.set i a h) else .error .index

/-- The first `n` of a run. -/
def first {α : Type} (l : List α) (n : Nat) : Checked (List α) := if n ≤ l.length then .ok (l.take n) else .error .slice

/-- The bytes from `start` up to `stop`. -/
def slice (bytes : ByteArray) (start stop : Nat) : Checked ByteArray :=
  if start ≤ stop ∧ stop ≤ bytes.size then .ok (bytes.extract start stop) else .error .slice

/-- A buffer for content with more bytes behind it. -/
def extend (out more : ByteArray) : Checked ByteArray := do
  allocate (← add out.size more.size)
  return out ++ more

theorem demand_of {p : Prop} [Decidable p] (h : p) (slip : Slip) : demand p slip = .ok () := if_pos h

theorem sub_of_le {a b : Nat} (h : b ≤ a) : sub a b = .ok (a - b) := if_pos h

theorem add_of_lt {a b : Nat} (h : a + b < UInt64.size) : add a b = .ok (a + b) := if_pos h

/-- Positions in a file are far from where words end. -/
theorem add_of_le {a b : Nat} (h : a + b ≤ maxFileSize) : add a b = .ok (a + b) :=
  add_of_lt (Nat.lt_of_le_of_lt h (by decide))

/-- Positions in a block are positions in a file. -/
theorem blockSize_le : blockSize ≤ maxFileSize := by decide

theorem allocate_of_le {size : Nat} (h : size ≤ maxFileSize) : allocate size = .ok () := if_pos h

theorem element_of_lt {α : Type} {l : List α} {i : Nat} (h : i < l.length) : element l i = .ok l[i] := dif_pos h

theorem element_toList {α : Type} {n i : Nat} (v : Vector α n) (h : i < n) : element v.toList i = .ok v[i] := by
  rw [element_of_lt (by rwa [Vector.length_toList]), Vector.getElem_toList]

theorem replace_of_lt {α : Type} {n i : Nat} (v : Vector α n) (a : α) (h : i < n) : replace v i a = .ok (v.set i a h) :=
  dif_pos h

theorem first_of_le {α : Type} {l : List α} {n : Nat} (h : n ≤ l.length) : first l n = .ok (l.take n) := if_pos h

theorem slice_of_le {bytes : ByteArray} {start stop : Nat} (ordered : start ≤ stop) (within : stop ≤ bytes.size) :
    slice bytes start stop = .ok (bytes.extract start stop) := if_pos ⟨ordered, within⟩

theorem extend_of_le {out more : ByteArray} (h : out.size + more.size ≤ maxFileSize) : extend out more = .ok (out ++ more) := by
  rw [extend, add_of_le h]
  exact congrArg (· >>= fun _ => pure (out ++ more)) (allocate_of_le h)

end Checked
end RecordFs
