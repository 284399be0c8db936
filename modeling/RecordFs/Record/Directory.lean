import RecordFs.Record.Kind

/-! Directory tables: sixty-four slots, each free or naming a child. A slot with no name is free.
Removing an entry frees its slot and moves no other. -/
namespace RecordFs

structure Slot where
  name : String := ""
  child : Id := .zero
  deriving DecidableEq, Repr, Inhabited

namespace Slot

def isFree (slot : Slot) : Bool := slot.name = ""

/-- A length, the name cut to the room it has and filled up with zeros, and the child. -/
def write (slot : Slot) : List UInt8 :=
  let name := slot.name.toUTF8.data.toList.take maxNameLength
  UInt8.ofNat name.length :: name ++ List.replicate (maxNameLength - name.length) 0 ++ slot.child.bytes

/-- Nothing when the bytes of the name are not UTF-8. What follows the name is not looked at. -/
def read? (bs : List UInt8) : Option Slot :=
  let name := (bs.drop 1).take (bs.headD 0).toNat
  (String.fromUTF8? name.toByteArray).map fun name =>
    { name, child := Id.ofBytes (bs.drop (1 + maxNameLength)) }

end Slot

structure Directory where
  /-- The key of this record. -/
  self : Id
  slots : Vector Slot dirEntries
  deriving DecidableEq, Repr

namespace Directory

def empty (self : Id) : Directory := ⟨self, Vector.replicate dirEntries {}⟩

/-- The child in the first slot of that name; the empty name finds nothing. -/
def find? (dir : Directory) (name : String) : Option Id :=
  if name = "" then none else (dir.slots.find? (·.name = name)).map (·.child)

/-- Fills the first free slot and tells which; nothing when all are taken. -/
def insert? (dir : Directory) (name : String) (child : Id) : Option (Fin dirEntries × Directory) :=
  (dir.slots.findFinIdx? (·.isFree)).map fun i =>
    (i, { dir with slots := dir.slots.set i { name, child } })

/-- Frees the first slot of that name and tells its child. -/
def remove? (dir : Directory) (name : String) : Option (Id × Directory) :=
  if name = "" then none
  else (dir.slots.findFinIdx? (·.name = name)).map fun (i : Fin dirEntries) =>
    (dir.slots[i].child, { dir with slots := dir.slots.set i {} })

/-- The slots that name a child, in slot order. -/
def occupied (dir : Directory) : List Slot := dir.slots.toList.filter (!·.isFree)

def count (dir : Directory) : Nat := dir.occupied.length

def isEmpty (dir : Directory) : Bool := dir.occupied.isEmpty

/-- The next `n` slots, the first of which is slot `i`; the first unreadable name is reported. -/
def readSlots (i : Nat) : (n : Nat) → List UInt8 →
    Except Malformed { slots : List Slot // slots.length = n }
  | 0, _ => .ok ⟨[], rfl⟩
  | n + 1, bs =>
    match Slot.read? (bs.take slotSize) with
    | none => .error (.name i)
    | some slot => do
      let rest ← readSlots (i + 1) n (bs.drop slotSize)
      return ⟨slot :: rest.1, by simp [rest.2]⟩

instance : Stored Directory where
  kind := .directory
  encode dir := (dir.self.bytes ++ dir.slots.toList.flatMap Slot.write).toByteArray
  decode bytes := do
    let bs := bytes.data.toList
    let slots ← readSlots 0 dirEntries (bs.drop idSize)
    return ⟨Id.ofBytes (bs.take idSize), ⟨slots.1.toArray, by simp [slots.2]⟩⟩

end Directory
end RecordFs
