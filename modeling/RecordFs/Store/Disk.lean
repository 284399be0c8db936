import RecordFs.Store.Action

/-! A store that keeps its records in the order in which their keys came in. Which calls fail, and
which identifiers are handed out, is part of its state; a call that fails stores nothing. -/
namespace RecordFs

/-- Stored bytes by key, each key once. -/
structure Records where
  entries : List (Id × ByteArray) := []
  deriving DecidableEq

namespace Records

def get? (records : Records) (id : Id) : Option ByteArray :=
  (records.entries.find? (·.1 = id)).map (·.2)

/-- An entry stays where it is when it is replaced. -/
def putEntry (id : Id) (bytes : ByteArray) : List (Id × ByteArray) → List (Id × ByteArray)
  | [] => [(id, bytes)]
  | entry :: rest => if entry.1 = id then (id, bytes) :: rest else entry :: putEntry id bytes rest

/-- Replaces what is stored under a key; a new key comes last. -/
def put (records : Records) (id : Id) (bytes : ByteArray) : Records :=
  ⟨putEntry id bytes records.entries⟩

def count (records : Records) : Nat := records.entries.length

end Records

/-- A call as seen by the store; `length` is missing when nothing is stored. -/
inductive Event where
  | get (id : Id) (length : Option Nat) (failed : Bool)
  | put (id : Id) (length : Nat) (failed : Bool)
  deriving DecidableEq, Repr

structure Disk where
  records : Records := {}
  /-- Keys that read as absent until they are put again. -/
  hidden : List Id := []
  gets : Nat := 0
  puts : Nat := 0
  /-- Which gets fail, counted from the first. -/
  getFails : Nat → Bool := fun _ => false
  putFails : Nat → Bool := fun _ => false
  /-- What a call that fails replies. -/
  fault : Fault := ⟨"backend I/O", []⟩
  supply : Nat → Id
  issued : Nat := 0
  /-- All calls so far, the last one first. -/
  trace : List Event := []

namespace Disk

def find? (disk : Disk) (id : Id) : Option ByteArray :=
  if id ∈ disk.hidden then none else disk.records.get? id

def get (id : Id) (disk : Disk) : Reply (Option ByteArray) × Disk :=
  let found := disk.find? id
  let failed := disk.getFails disk.gets
  let disk := { disk with
    gets := disk.gets + 1, trace := .get id (found.map ByteArray.size) failed :: disk.trace }
  (if failed then .error disk.fault else .ok found, disk)

def put (id : Id) (bytes : ByteArray) (disk : Disk) : Reply Unit × Disk :=
  let failed := disk.putFails disk.puts
  let disk := { disk with puts := disk.puts + 1, trace := .put id bytes.size failed :: disk.trace }
  if failed then (.error disk.fault, disk)
  else
    (.ok (), { disk with
      records := disk.records.put id bytes, hidden := disk.hidden.filter (· ≠ id) })

def fresh (disk : Disk) : Id × Disk := (disk.supply disk.issued, { disk with issued := disk.issued + 1 })

def backend : Backend Disk := ⟨get, put, fresh⟩

/-- From now on only this many more gets and puts succeed; without a number all do. -/
def limit (disk : Disk) (gets puts : Option Nat) : Disk :=
  { disk with
    getFails := fun k => gets.any fun n => disk.gets + n ≤ k
    putFails := fun k => puts.any fun n => disk.puts + n ≤ k }

def hide (disk : Disk) (id : Id) : Disk := { disk with hidden := id :: disk.hidden }

/-- Performs an action on the disk, with the cache it starts from. -/
def perform {α : Type} (action : StateT Cache Access α) (cache : Cache) (disk : Disk) :
    α × Cache × Disk :=
  let ((result, cache), disk) := (action.run cache).run backend disk
  (result, cache, disk)

end Disk
end RecordFs
