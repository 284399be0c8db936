import RecordFs.Proofs.Record.Reading

/-! The records of all kinds under one type family, and what holds of every kind at once: a record
is read back from its written form, and as a record of no other kind. -/
namespace RecordFs
open Stored

namespace Kind

/-- The records of a kind. -/
@[reducible] def Record : Kind → Type
  | rootPointer => RootPointer
  | inode => Inode
  | directory => Directory
  | blockMap => BlockMap
  | dataBlock => Block
  | indirectMap => IndirectMap

instance : (κ : Kind) → Stored κ.Record
  | rootPointer => inferInstanceAs (Stored RootPointer)
  | inode => inferInstanceAs (Stored Inode)
  | directory => inferInstanceAs (Stored Directory)
  | blockMap => inferInstanceAs (Stored BlockMap)
  | dataBlock => inferInstanceAs (Stored Block)
  | indirectMap => inferInstanceAs (Stored IndirectMap)

@[simp] theorem kind_record (κ : Kind) : kind κ.Record = κ := by cases κ <;> rfl

/-- Only the names in a table can be too long for the room they have. -/
def Fits : (κ : Kind) → κ.Record → Prop
  | directory, table => Directory.Fits table
  | _, _ => True

theorem fits_of_ne {κ : Kind} (other : κ ≠ .directory) (r : κ.Record) : κ.Fits r := by
  cases κ <;> trivial

instance : (κ : Kind) → Sized κ.Record
  | rootPointer => inferInstanceAs (Sized RootPointer)
  | inode => inferInstanceAs (Sized Inode)
  | directory => inferInstanceAs (Sized Directory)
  | blockMap => inferInstanceAs (Sized BlockMap)
  | dataBlock => inferInstanceAs (Sized Block)
  | indirectMap => inferInstanceAs (Sized IndirectMap)

theorem size_record {κ : Kind} (r : κ.Record) : (encode r).size = κ.size := by
  rw [size_encode, kind_record]

theorem reads_back {κ : Kind} {r : κ.Record} (fits : κ.Fits r) : ReadsBack r := by
  cases κ with
  | directory => exact Directory.readsBack fits
  | rootPointer => exact Exact.reads_back (ρ := RootPointer) r
  | inode => exact Exact.reads_back (ρ := Inode) r
  | blockMap => exact Exact.reads_back (ρ := BlockMap) r
  | dataBlock => exact Exact.reads_back (ρ := Block) r
  | indirectMap => exact Exact.reads_back (ρ := IndirectMap) r

/-- Bytes of another size are no record of the kind. -/
theorem read_of_size_ne {κ : Kind} {bytes : ByteArray} (h : bytes.size ≠ κ.size) :
    Stored.read κ.Record bytes = .error (.size κ bytes.size κ.size) := by
  have other : bytes.size ≠ (kind κ.Record).size := by rwa [kind_record]
  rw [Stored.read_of_size_ne other, kind_record]

/-- A record has its kind's size when written and is read back whole; as any other kind it is refused
for its size. -/
theorem read_encode (κ : Kind) (r : κ.Record) (fits : κ.Fits r) :
    (encode r).size = κ.size ∧ Stored.read κ.Record (encode r) = .ok r ∧
      ∀ other, other ≠ κ → Stored.read other.Record (encode r) = .error (.size other κ.size other.size) := by
  refine ⟨size_record r, reads_back fits, fun other different => ?_⟩
  have sizes : (encode r).size ≠ other.size := by
    rw [size_record r]
    exact fun same => different (size_injective same).symm
  rw [read_of_size_ne sizes, size_record r]

/-- A table with one name of two bytes in its last slot and free slots that still carry identifiers. -/
def sparseTable : Directory where
  self := .ofNat 7
  slots := Vector.ofFn fun i => if i.val = 63 then { name := "é", child := .rootPointer } else { child := .ofNat i.val }

theorem sparseTable_fits : sparseTable.Fits := by
  intro slot member
  simp only [sparseTable, Vector.mem_toList_iff, Vector.mem_ofFn] at member
  obtain ⟨i, rfl⟩ := member
  split
  · exact Nat.le_of_ble_eq_true rfl
  · exact Nat.zero_le _

theorem read_encode_sparseTable : Directory.Fits sparseTable ∧
    Stored.read Directory (encode sparseTable) = .ok sparseTable ∧
      Stored.read Inode (encode sparseTable) = .error (.size .inode 17424 76) :=
  have whole := read_encode .directory sparseTable sparseTable_fits
  ⟨sparseTable_fits, whole.2.1, whole.2.2 .inode nofun⟩

end Kind
end RecordFs
