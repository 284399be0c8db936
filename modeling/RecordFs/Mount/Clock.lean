import RecordFs.Clock

/-! Points in time as a kernel and a store write them. A store keeps whole seconds; a kernel's
nanoseconds count away from the epoch on both sides of it. -/
namespace RecordFs.Mount

/-- Nanoseconds from the epoch, negative before it. -/
structure Instant where
  nanos : Int
  deriving DecidableEq, Repr

namespace Instant

def perSecond : Nat := 1000000000

def ofSeconds (seconds : Int64) : Instant := ⟨seconds.toInt * perSecond⟩

def ofParts (seconds : Int64) (nanos : Nat) : Instant :=
  if 0 ≤ seconds then ⟨seconds.toInt * perSecond + nanos⟩
  else ⟨-(seconds.toInt.natAbs * perSecond + nanos : Nat)⟩

/-- Seconds, and the nanoseconds beyond them away from the epoch. -/
def parts (t : Instant) : Int × Nat := (t.nanos.tdiv perSecond, t.nanos.natAbs % perSecond)

/-- Whole seconds, dropping what goes beyond them; the nearest that can be stored. -/
def toSeconds (t : Instant) : Int64 :=
  Int64.ofInt (max Int64.minValue.toInt (min Int64.maxValue.toInt (t.nanos.tdiv perSecond)))

end Instant

/-- When a request reads the clock. -/
inductive Reading where
  /-- In the call of a request that makes but one. -/
  | call
  | mode
  | owner
  | size
  /-- Where the present is to be the time of the last access. -/
  | atime
  | mtime
  /-- In the call that sets these two. -/
  | times
  deriving DecidableEq, Repr

/-- A time in a request: the present, or a given one. -/
inductive TimeChange where
  | now
  | given (instant : Instant)
  deriving DecidableEq, Repr

def TimeChange.seconds (now : Int64) : TimeChange → Int64
  | .now => now
  | .given instant => instant.toSeconds

/-- A span of milliseconds as seconds and nanoseconds. -/
def splitMillis (millis : Nat) : Nat × Nat := (millis / 1000, millis % 1000 * 1000000)

end RecordFs.Mount
