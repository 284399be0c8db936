import RecordFs.Record.Content
import RecordFs.Record.Directory
import RecordFs.Record.Inode

/-! What is written as a record is read back as that record, and as no record of another kind:
the written form has exactly its kind's size. A directory table is read back when its names fit. -/
namespace RecordFs

/-- Records whose written form has the size of their kind. -/
class Stored.Sized (ρ : Type) [Stored ρ] : Prop where
  size_encode : ∀ r : ρ, (Stored.encode r).size = (Stored.kind ρ).size

export Stored.Sized (size_encode)

/-- A record that its written form is read back as. -/
def Stored.ReadsBack {ρ : Type} [Stored ρ] (r : ρ) : Prop := Stored.read ρ (Stored.encode r) = .ok r

/-- Records that are all read back. -/
class Stored.Exact (ρ : Type) [Stored ρ] : Prop extends Stored.Sized ρ where
  reads_back : ∀ r : ρ, Stored.ReadsBack r

namespace Stored
variable {ρ : Type} [Stored ρ]

theorem read_of_size {bytes : ByteArray} (h : bytes.size = (kind ρ).size) :
    read ρ bytes = decode bytes := by
  simp [read, Kind.check, h, bind, Except.bind]

/-- Bytes of another size are refused. -/
theorem read_of_size_ne {bytes : ByteArray} (h : bytes.size ≠ (kind ρ).size) :
    read ρ bytes = .error (.size (kind ρ) bytes.size (kind ρ).size) := by
  simp [read, Kind.check, h, bind, Except.bind]

theorem size_of_read {bytes : ByteArray} {r : ρ} (h : read ρ bytes = .ok r) :
    bytes.size = (kind ρ).size := by
  apply Decidable.byContradiction
  intro hne
  rw [read_of_size_ne hne] at h
  cases h

theorem read_encode_of_kind_ne {σ : Type} [Stored σ] [Sized σ] (r : σ) (h : kind ρ ≠ kind σ) :
    (read ρ (encode r)).toOption = none := by
  rw [read_of_size_ne]
  · rfl
  · rw [size_encode]
    exact fun same => h (Kind.size_injective same).symm

end Stored

open Stored

private theorem ofField_size {ρ : Type} (κ : Kind) (field : FixedWidth ρ) (h : field.width = κ.size)
    (r : ρ) : ((ofField κ field).encode r).size = κ.size := by
  change (field.write r).toByteArray.size = κ.size
  rw [List.size_toByteArray, field.length_write, h]

private theorem ofField_read {ρ : Type} (κ : Kind) (field : FixedWidth ρ) (h : field.width = κ.size)
    (r : ρ) : @Stored.read ρ (ofField κ field) ((ofField κ field).encode r) = .ok r := by
  let := ofField κ field
  rw [@read_of_size ρ (ofField κ field) _ (ofField_size κ field h r)]
  change Except.ok (field.read (field.write r).toByteArray.data.toList) = _
  rw [List.data_toByteArray, List.toList_toArray, field.read_write]

instance : Exact RootPointer where
  size_encode := ofField_size _ _ rfl
  reads_back := ofField_read _ _ rfl

instance : Exact Inode where
  size_encode := ofField_size _ _ rfl
  reads_back := ofField_read _ _ rfl

instance : Exact BlockMap where
  size_encode := ofField_size _ _ rfl
  reads_back := ofField_read _ _ rfl

instance : Exact IndirectMap where
  size_encode := ofField_size _ _ rfl
  reads_back := ofField_read _ _ rfl

instance : Exact Block where
  size_encode b := b.size_bytes
  reads_back b := by
    rw [ReadsBack, read_of_size b.size_bytes]
    change (if h : b.bytes.size = blockSize then Except.ok (Block.mk b.bytes h) else _) = _
    rw [dif_pos b.size_bytes]

namespace Slot

/-- A slot whose name fits into the room it has. -/
def Fits (slot : Slot) : Prop := slot.name.utf8ByteSize ≤ maxNameLength

@[simp] theorem length_write (slot : Slot) : slot.write.length = slotSize := by
  simp only [write, List.cons_append, List.length_cons, List.length_append, List.length_take,
    List.length_replicate, Id.length_bytes, slotSize, idSize]
  omega

theorem read_write {slot : Slot} (fits : slot.Fits) : read? slot.write = some slot := by
  have size : slot.name.toUTF8.data.toList.length ≤ maxNameLength := by
    simpa [Fits] using fits
  have short : slot.name.toUTF8.data.toList.length ≤ 255 := size
  have whole : slot.name.toUTF8.data.toList.take maxNameLength = slot.name.toUTF8.data.toList :=
    List.take_of_length_le size
  have count : (UInt8.ofNat slot.name.toUTF8.data.toList.length).toNat = slot.name.toUTF8.data.toList.length := by
    rw [UInt8.toNat_ofNat']
    omega
  have rebuilt : slot.name.toUTF8.data.toList.toByteArray = slot.name.toByteArray := by
    apply ByteArray.ext
    simp
  simp only [write, whole, read?, List.cons_append, List.drop_succ_cons, List.drop_zero,
    List.headD_cons, count, List.append_assoc, List.take_left' rfl, rebuilt]
  have named : String.fromUTF8? slot.name.toByteArray = some slot.name := by
    simp [String.fromUTF8?, slot.name.isValidUTF8, String.fromUTF8]
  have rest : List.drop (1 + maxNameLength)
      (UInt8.ofNat slot.name.toUTF8.data.toList.length :: (slot.name.toUTF8.data.toList ++
        (List.replicate (maxNameLength - slot.name.toUTF8.data.toList.length) 0 ++ slot.child.bytes))) =
      slot.child.bytes := by
    rw [Nat.add_comm, List.drop_succ_cons, ← List.append_assoc, List.drop_left']
    rw [List.length_append, List.length_replicate]
    omega
  rw [named, rest, Id.ofBytes_bytes]
  rfl

end Slot

namespace Directory

/-- A table of which every name fits into its slot. -/
def Fits (dir : Directory) : Prop := ∀ slot ∈ dir.slots.toList, slot.Fits

private theorem length_slots (l : List Slot) : (l.flatMap Slot.write).length = l.length * slotSize := by
  induction l with
  | nil => simp
  | cons slot l ih =>
    rw [List.flatMap_cons, List.length_append, ih, Slot.length_write, List.length_cons, Nat.succ_mul, Nat.add_comm]

private theorem readSlots_write (l : List Slot) (fits : ∀ slot ∈ l, slot.Fits) {n : Nat} (h : l.length = n)
    (i : Nat) : readSlots i n (l.flatMap Slot.write) = .ok ⟨l, h⟩ := by
  induction l generalizing i n with
  | nil =>
    subst h
    rfl
  | cons slot l ih =>
    subst h
    have first : List.take slotSize (slot.write ++ l.flatMap Slot.write) = slot.write :=
      List.take_left' slot.length_write
    have rest : List.drop slotSize (slot.write ++ l.flatMap Slot.write) = l.flatMap Slot.write :=
      List.drop_left' slot.length_write
    rw [List.flatMap_cons]
    simp only [List.length_cons, readSlots, first, rest, Slot.read_write (fits slot List.mem_cons_self)]
    rw [ih (fun s hs => fits s (List.mem_cons_of_mem _ hs)) rfl]
    rfl

instance : Sized Directory where
  size_encode dir := by
    change (dir.self.bytes ++ dir.slots.toList.flatMap Slot.write).toByteArray.size = _
    rw [List.size_toByteArray, List.length_append, length_slots, Id.length_bytes, Vector.length_toList]
    rfl

theorem readsBack {dir : Directory} (fits : dir.Fits) : ReadsBack dir := by
  have slots := readSlots_write dir.slots.toList fits (dir.slots.length_toList) 0
  rw [ReadsBack, read_of_size (size_encode dir)]
  change (do
    let bs := (dir.self.bytes ++ dir.slots.toList.flatMap Slot.write).toByteArray.data.toList
    let slots ← readSlots 0 dirEntries (bs.drop idSize)
    return ⟨Id.ofBytes (bs.take idSize), ⟨slots.1.toArray, by simp [slots.2]⟩⟩ : Except Malformed Directory) = _
  have self : dir.self.bytes.length = idSize := dir.self.length_bytes
  simp only [List.data_toByteArray, List.drop_left' self, List.take_left' self, slots,
    Id.ofBytes_bytes, bind, Except.bind, pure, Except.pure]
  obtain ⟨self, slots⟩ := dir
  rfl

end Directory
end RecordFs
