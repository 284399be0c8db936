import RecordFs.Proofs.Bytes
import RecordFs.Proofs.Record.Kinds

/-! Which bytes are records. Of all kinds but tables every run of bytes of the right size is the written
form of one record. A table needs names that are UTF-8; what stands behind a name is not looked at, and
is zero when the table is written again. -/
namespace RecordFs
open Stored

/-- Equal pieces laid end to end: position `j` of piece `k`. -/
theorem getElem?_flatMap_pieces {α β : Type} (f : α → List β) {w : Nat} (l : List α) (width : ∀ a ∈ l, (f a).length = w)
    {k j : Nat} (inside : j < w) : (l.flatMap f)[k * w + j]? = l[k]?.bind fun a => (f a)[j]? := by
  induction l generalizing k with
  | nil => simp
  | cons a l ih =>
    have first := width a List.mem_cons_self
    rw [List.flatMap_cons]
    cases k with
    | zero =>
      rw [Nat.zero_mul, Nat.zero_add, List.getElem?_append_left (first ▸ inside)]
      rfl
    | succ k =>
      rw [List.getElem?_append_right (by rw [first, Nat.succ_mul]; omega), first,
        show (k + 1) * w + j - w = k * w + j by rw [Nat.succ_mul]; omega,
        ih fun b hb => width b (List.mem_cons_of_mem _ hb)]
      rfl

/-! ### Records of fields -/

private theorem ofField_onto {ρ : Type} (κ : Kind) (field : FixedWidth ρ) (width : field.width = κ.size)
    {bytes : ByteArray} (size : bytes.size = κ.size) :
    ∃ r : ρ, @Stored.read ρ (ofField κ field) bytes = .ok r ∧ (ofField κ field).encode r = bytes := by
  let := ofField κ field
  refine ⟨field.read bytes.data.toList, read_of_size (ρ := ρ) size, ?_⟩
  have length : bytes.data.toList.length = field.width := by
    rw [width, ← size]
    exact Array.length_toList
  change (field.write (field.read bytes.data.toList)).toByteArray = bytes
  rw [field.write_read _ length]
  exact ByteArray.ext (by simp)

theorem Kind.exists_record {κ : Kind} (other : κ ≠ .directory) {bytes : ByteArray} (size : bytes.size = κ.size) :
    ∃ r : κ.Record, Stored.read κ.Record bytes = .ok r ∧ encode r = bytes := by
  cases κ with
  | directory => exact absurd rfl other
  | rootPointer => exact ofField_onto .rootPointer RootPointer.field rfl size
  | inode => exact ofField_onto .inode Inode.field rfl size
  | blockMap => exact ofField_onto .blockMap BlockMap.field rfl size
  | indirectMap => exact ofField_onto .indirectMap IndirectMap.field rfl size
  | dataBlock =>
    refine ⟨⟨bytes, size⟩, ?_, rfl⟩
    change Stored.read Block bytes = _
    rw [read_of_size size]
    exact dif_pos size

/-! ### One slot -/

namespace Slot

/-- The bytes of the name that a slot is read with. -/
def name? (bs : List UInt8) : ByteArray := ((bs.drop 1).take (bs.headD 0).toNat).toByteArray

/-- A slot is read when its name is UTF-8. -/
theorem isSome_read? (bs : List UInt8) : (read? bs).isSome ↔ (name? bs).IsValidUTF8 := by
  rw [read?, Option.isSome_map, String.fromUTF8?]
  split
  · rename_i valid
    exact ⟨fun _ => valid, fun _ => rfl⟩
  · rename_i invalid
    refine ⟨fun some => ?_, fun valid => absurd valid invalid⟩
    cases some

variable {bs : List UInt8} {slot : Slot}

theorem toUTF8_of_read? (h : read? bs = some slot) : slot.name.toUTF8 = name? bs := by
  obtain ⟨name, named, rfl⟩ := Option.map_eq_some_iff.mp h
  rw [String.fromUTF8?] at named
  split at named
  · obtain rfl := Option.some.inj named
    rfl
  · cases named

theorem child_of_read? (h : read? bs = some slot) : slot.child = Id.ofBytes (bs.drop (1 + maxNameLength)) := by
  obtain ⟨name, -, rfl⟩ := Option.map_eq_some_iff.mp h
  rfl

theorem fits_of_read? (h : read? bs = some slot) : slot.Fits := by
  have size : slot.name.utf8ByteSize = (name? bs).size := by
    rw [← toUTF8_of_read? h]
    rfl
  have short : (bs.headD 0).toNat < 256 := (bs.headD 0).toNat_lt
  rw [Fits, size, name?, List.size_toByteArray, List.length_take, maxNameLength]
  omega

/-- A slot that is read is written as it stood, except for what follows the name. -/
theorem write_of_read? (length : bs.length = slotSize) (h : read? bs = some slot) :
    slot.write = bs.take (1 + (bs.headD 0).toNat) ++ List.replicate (maxNameLength - (bs.headD 0).toNat) 0 ++
      bs.drop (1 + maxNameLength) := by
  have bytes := congrArg (·.data.toList) (toUTF8_of_read? h)
  have behind := child_of_read? h
  cases bs with
  | nil => cases length
  | cons first rest =>
    have room : first.toNat ≤ maxNameLength := Nat.le_of_lt_succ first.toNat_lt
    have long : rest.length = maxNameLength + idSize := by
      rw [List.length_cons, slotSize] at length
      omega
    have name : slot.name.toUTF8.data.toList = rest.take first.toNat := by simpa [name?] using bytes
    have count : (rest.take first.toNat).length = first.toNat := by
      rw [List.length_take]
      omega
    have whole : (rest.take first.toNat).take maxNameLength = rest.take first.toNat :=
      List.take_of_length_le (count.symm ▸ room)
    have child : slot.child.bytes = rest.drop maxNameLength := by
      rw [behind, Nat.add_comm, List.drop_succ_cons]
      exact Id.bytes_ofBytes _ (by rw [List.length_drop, long, Nat.add_sub_cancel_left, idSize])
    simp only [write, name, whole, count, child, List.headD_cons, Nat.add_comm 1, List.take_succ_cons,
      List.drop_succ_cons, UInt8.ofNat_toNat, List.cons_append]

/-- The same by position: what follows the name is zero, everything else is kept. -/
theorem getElem?_write_of_read? (length : bs.length = slotSize) (h : read? bs = some slot) (j : Nat) :
    slot.write[j]? = if (bs.headD 0).toNat < j ∧ j ≤ maxNameLength then some 0 else bs[j]? := by
  have room : (bs.headD 0).toNat ≤ maxNameLength := Nat.le_of_lt_succ (bs.headD 0).toNat_lt
  have named : (bs.take (1 + (bs.headD 0).toNat)).length = 1 + (bs.headD 0).toNat := by
    rw [List.length_take, length, slotSize]
    omega
  rw [write_of_read? length h, List.getElem?_append, List.getElem?_append, List.length_append, named, List.length_replicate,
    List.getElem?_take, List.getElem?_replicate, List.getElem?_drop]
  by_cases inName : j ≤ (bs.headD 0).toNat
  · rw [if_pos (by omega), if_pos (by omega), if_pos (by omega), if_neg (by omega)]
  · by_cases behind : j ≤ maxNameLength
    · rw [if_pos (by omega), if_neg (by omega), if_pos (by omega), if_pos (by omega)]
    · rw [if_neg (by omega), if_neg (by omega)]
      congr 1
      omega

end Slot

/-! ### Tables -/

namespace Directory

/-- The bytes of slot `i`, of those behind the key of a table. -/
def piece (bs : List UInt8) (i : Nat) : List UInt8 := (bs.drop (i * slotSize)).take slotSize

theorem piece_succ (bs : List UInt8) (i : Nat) : piece bs (i + 1) = piece (bs.drop slotSize) i := by
  rw [piece, piece, List.drop_drop, Nat.succ_mul, Nat.add_comm]

/-- Either all slots are read, or the first that cannot be read is reported. -/
theorem readSlots_cases (i n : Nat) (bs : List UInt8) :
    (∃ slots, readSlots i n bs = .ok slots ∧ ∀ k < n, Slot.read? (piece bs k) = slots.1[k]?) ∨
      ∃ k < n, readSlots i n bs = .error (.name (i + k)) ∧ Slot.read? (piece bs k) = none ∧
        ∀ j < k, (Slot.read? (piece bs j)).isSome := by
  induction n generalizing i bs with
  | zero => exact .inl ⟨_, rfl, nofun⟩
  | succ n ih =>
    have first : piece bs 0 = bs.take slotSize := by rw [piece, Nat.zero_mul, List.drop_zero]
    cases read : Slot.read? (bs.take slotSize) with
    | none =>
      refine .inr ⟨0, Nat.succ_pos n, ?_, first ▸ read, nofun⟩
      rw [readSlots, read]
      rfl
    | some slot =>
      rcases ih (i + 1) (bs.drop slotSize) with ⟨slots, found, all⟩ | ⟨k, inside, lost, unread, before⟩
      · refine .inl ⟨⟨slot :: slots.1, by simp [slots.2]⟩, ?_, fun k inside => ?_⟩
        · rw [readSlots, read]
          simp only [found]
          rfl
        · cases k with
          | zero => rw [first, read]; rfl
          | succ k => rw [piece_succ, all k (Nat.lt_of_succ_lt_succ inside)]; rfl
      · refine .inr ⟨k + 1, Nat.succ_lt_succ inside, ?_, by rwa [piece_succ], fun j earlier => ?_⟩
        · rw [readSlots, read]
          simp only [lost, Nat.add_assoc, Nat.add_comm 1]
          rfl
        · cases j with
          | zero => rw [first, read]; rfl
          | succ j => rw [piece_succ]; exact before j (Nat.lt_of_succ_lt_succ earlier)

/-- Where slot `i` begins in the written form of a table. -/
def slotStart (i : Nat) : Nat := idSize + i * slotSize

/-- How many bytes the name in slot `i` has. -/
def nameLength (bytes : ByteArray) (i : Nat) : Nat := (byteAt bytes (slotStart i)).toNat

/-- The bytes of the name in slot `i`. -/
def nameBytes (bytes : ByteArray) (i : Nat) : ByteArray :=
  bytes.extract (slotStart i + 1) (slotStart i + 1 + nameLength bytes i)

/-- Position `n` lies in the room for the name of a slot and behind the name. -/
def Padding (bytes : ByteArray) (n : Nat) : Prop :=
  ∃ i < dirEntries, slotStart i + 1 + nameLength bytes i ≤ n ∧ n < slotStart i + 1 + maxNameLength

instance (bytes : ByteArray) (n : Nat) : Decidable (Padding bytes n) := inferInstanceAs (Decidable (∃ i < dirEntries, _))

/-- The bytes with zeros behind every name. -/
def cleared (bytes : ByteArray) : ByteArray :=
  bytesOf (fun n => if Padding bytes n then 0 else byteAt bytes n) bytes.size

section positions
variable {bytes : ByteArray} {i : Nat} (size : bytes.size = Kind.directory.size) (inside : i < dirEntries)
include size inside

theorem slotStart_lt {j : Nat} (within : j < slotSize) : slotStart i + j < bytes.size := by
  rw [size, Kind.size, slotStart]
  simp only [slotSize, idSize, dirEntries, maxNameLength] at *
  omega

theorem getElem?_piece {j : Nat} (within : j < slotSize) :
    (piece (bytes.data.toList.drop idSize) i)[j]? = some (byteAt bytes (slotStart i + j)) := by
  have here : slotStart i + j < bytes.data.size := slotStart_lt size inside within
  rw [piece, List.getElem?_take_of_lt within, List.getElem?_drop, List.getElem?_drop, Array.getElem?_toList, byteAt,
    ← Nat.add_assoc]
  change bytes.data[slotStart i + j]? = _
  rw [Array.getElem?_eq_getElem here]
  rfl

theorem length_piece : (piece (bytes.data.toList.drop idSize) i).length = slotSize := by
  have length : bytes.data.toList.length = Kind.directory.size := by
    rw [Array.length_toList]
    exact size
  rw [piece, List.length_take, List.length_drop, List.length_drop, length, Kind.size]
  simp only [slotSize, idSize, dirEntries, maxNameLength] at *
  omega

theorem headD_piece : ((piece (bytes.data.toList.drop idSize) i).headD 0).toNat = nameLength bytes i := by
  rw [List.headD_eq_head?_getD, List.head?_eq_getElem?, getElem?_piece size inside (by decide)]
  rfl

theorem name?_piece : Slot.name? (piece (bytes.data.toList.drop idSize) i) = nameBytes bytes i := by
  have short : nameLength bytes i ≤ maxNameLength := Nat.le_of_lt_succ (byteAt bytes (slotStart i)).toNat_lt
  apply ByteArray.ext
  apply Array.toList_inj.mp
  rw [Slot.name?, headD_piece size inside, nameBytes, List.data_toByteArray, List.toList_toArray, ByteArray.data_extract,
    Array.toList_extract, List.extract_eq_take_drop, piece, List.drop_take, List.take_take, List.drop_drop, List.drop_drop,
    Nat.min_eq_left (by rw [slotSize]; omega), Nat.add_sub_cancel_left]
  rfl

end positions

/-- The slots of a table are what its bytes are read as, one by one, and the first that cannot be read is
reported. -/
theorem read_cases {bytes : ByteArray} (size : bytes.size = Kind.directory.size) :
    (∃ dir, Stored.read Directory bytes = .ok dir ∧ dir.self.bytes = bytes.data.toList.take idSize ∧
      ∀ i < dirEntries, Slot.read? (piece (bytes.data.toList.drop idSize) i) = dir.slots.toList[i]?) ∨
    ∃ i < dirEntries, Stored.read Directory bytes = .error (.name i) ∧ ¬(nameBytes bytes i).IsValidUTF8 ∧
      ∀ j < i, (nameBytes bytes j).IsValidUTF8 := by
  have decoded : Stored.read Directory bytes =
      (readSlots 0 dirEntries (bytes.data.toList.drop idSize)).map fun slots =>
        ⟨Id.ofBytes (bytes.data.toList.take idSize), ⟨slots.1.toArray, by simp [slots.2]⟩⟩ := by
    rw [read_of_size size]
    change (do
      let slots ← readSlots 0 dirEntries (bytes.data.toList.drop idSize)
      return ⟨Id.ofBytes (bytes.data.toList.take idSize), ⟨slots.1.toArray, by simp [slots.2]⟩⟩ : Except Malformed Directory) = _
    cases readSlots 0 dirEntries (bytes.data.toList.drop idSize) <;> rfl
  have key : (bytes.data.toList.take idSize).length = 16 := by
    rw [List.length_take, Array.length_toList]
    have long : idSize ≤ bytes.size := size.symm ▸ by decide
    exact Nat.min_eq_left long
  rcases readSlots_cases 0 dirEntries (bytes.data.toList.drop idSize) with ⟨slots, found, all⟩ | ⟨i, inside, lost, unread, before⟩
  · rw [found] at decoded
    exact .inl ⟨_, decoded, Id.bytes_ofBytes _ key, all⟩
  · rw [lost, Nat.zero_add] at decoded
    refine .inr ⟨i, inside, decoded, fun valid => ?_, fun j earlier => ?_⟩
    · rw [← name?_piece size inside, ← Slot.isSome_read?, unread] at valid
      cases valid
    · rw [← name?_piece size (Nat.lt_trans earlier inside)]
      exact (Slot.isSome_read? _).mp (before j earlier)

theorem valid_of_slots {bytes : ByteArray} {dir : Directory} (size : bytes.size = Kind.directory.size)
    (all : ∀ i < dirEntries, Slot.read? (piece (bytes.data.toList.drop idSize) i) = dir.slots.toList[i]?) :
    ∀ i < dirEntries, (nameBytes bytes i).IsValidUTF8 := by
  intro i inside
  have slot : i < dir.slots.toList.length := by rwa [Vector.length_toList]
  rw [← name?_piece size inside, ← Slot.isSome_read?, all i inside, List.getElem?_eq_getElem slot]
  rfl

theorem fits_of_slots {bs : List UInt8} {dir : Directory}
    (all : ∀ i < dirEntries, Slot.read? (piece bs i) = dir.slots.toList[i]?) : dir.Fits := by
  intro slot member
  obtain ⟨i, inside, rfl⟩ := List.getElem_of_mem member
  have slot : i < dirEntries := by rwa [Vector.length_toList] at inside
  exact Slot.fits_of_read? ((all i slot).trans (List.getElem?_eq_getElem inside))

theorem not_padding_self {bytes : ByteArray} {n : Nat} (h : n < idSize) : ¬Padding bytes n := by
  rintro ⟨i, -, behind, -⟩
  rw [slotStart] at behind
  omega

theorem padding_slot {bytes : ByteArray} {i j : Nat} (inside : i < dirEntries) (within : j < slotSize) :
    Padding bytes (slotStart i + j) ↔ nameLength bytes i < j ∧ j ≤ maxNameLength := by
  simp only [Padding, slotStart, slotSize, maxNameLength, idSize] at *
  constructor
  · rintro ⟨k, -, behind, before⟩
    obtain rfl : k = i := by omega
    omega
  · rintro ⟨behind, before⟩
    exact ⟨i, inside, by omega, by omega⟩

theorem exists_slot_of_lt {n : Nat} (behind : idSize ≤ n) (h : n < Kind.directory.size) :
    ∃ i < dirEntries, ∃ j < slotSize, n = slotStart i + j := by
  simp only [Kind.size, slotStart, slotSize, maxNameLength, idSize, dirEntries] at *
  exact ⟨(n - 16) / 272, by omega, (n - 16) % 272, by omega, by omega⟩

theorem byteAt_toByteArray (l : List UInt8) (n : Nat) : byteAt l.toByteArray n = l[n]?.getD 0 := by
  rw [byteAt, List.data_toByteArray, List.getElem?_toArray]

/-- The written form of a table that was read is what was read with zeros behind every name. -/
theorem encode_of_read {bytes : ByteArray} {dir : Directory} (size : bytes.size = Kind.directory.size)
    (self : dir.self.bytes = bytes.data.toList.take idSize)
    (all : ∀ i < dirEntries, Slot.read? (piece (bytes.data.toList.drop idSize) i) = dir.slots.toList[i]?) :
    encode dir = cleared bytes := by
  have width : dir.self.bytes.length = idSize := dir.self.length_bytes
  have sized : (encode dir).size = Kind.directory.size := size_encode dir
  apply ext_byteAt
  · rw [sized, cleared, size_bytesOf, size]
  intro n inside
  rw [sized] at inside
  rw [cleared, byteAt_bytesOf, if_pos (size ▸ inside)]
  change byteAt (dir.self.bytes ++ dir.slots.toList.flatMap Slot.write).toByteArray n = _
  rw [byteAt_toByteArray]
  by_cases front : n < idSize
  · rw [List.getElem?_append_left (width ▸ front), self, List.getElem?_take_of_lt front, if_neg (not_padding_self front)]
    rw [Array.getElem?_toList, byteAt]
  · obtain ⟨i, slot, j, within, rfl⟩ := exists_slot_of_lt (Nat.le_of_not_lt front) inside
    have exists_slot : i < dir.slots.toList.length := by rwa [Vector.length_toList]
    have read := all i slot
    rw [List.getElem?_eq_getElem exists_slot] at read
    have offset : slotStart i + j - dir.self.bytes.length = i * slotSize + j := by
      rw [width, slotStart]
      omega
    rw [List.getElem?_append_right (by rw [width]; omega), offset,
      getElem?_flatMap_pieces Slot.write _ (fun s _ => s.length_write) within, List.getElem?_eq_getElem exists_slot]
    change (Slot.write _)[j]?.getD 0 = _
    rw [Slot.getElem?_write_of_read? (length_piece size slot) read, headD_piece size slot, getElem?_piece size slot within]
    by_cases behind : nameLength bytes i < j ∧ j ≤ maxNameLength
    · rw [if_pos behind, if_pos ((padding_slot slot within).mpr behind)]
      rfl
    · rw [if_neg behind, if_neg (fun padding => behind ((padding_slot slot within).mp padding))]
      rfl

end Directory

/-- What reading does with the bytes, for every kind. -/
structure ReadingLaws (bytes : ByteArray) : Prop where
  /-- They are refused for their size exactly when it is not the kind's. -/
  size (κ : Kind) :
    ((∃ of actual expected, Stored.read κ.Record bytes = .error (.size of actual expected)) ↔ bytes.size ≠ κ.size) ∧
      (bytes.size ≠ κ.size → Stored.read κ.Record bytes = .error (.size κ bytes.size κ.size))
  /-- Of the right size, they are the written form of a record of every kind but a table. -/
  written (κ : Kind) : κ ≠ .directory → bytes.size = κ.size → ∃ r, Stored.read κ.Record bytes = .ok r ∧ encode r = bytes
  /-- They are a table exactly when all names are UTF-8. -/
  table : bytes.size = Kind.directory.size →
    ((∃ dir, Stored.read Directory bytes = .ok dir) ↔ ∀ i < dirEntries, (Directory.nameBytes bytes i).IsValidUTF8)
  /-- Otherwise the first name that is not is reported. -/
  unreadable : bytes.size = Kind.directory.size → (¬∀ i < dirEntries, (Directory.nameBytes bytes i).IsValidUTF8) →
    ∃ i < dirEntries, ¬(Directory.nameBytes bytes i).IsValidUTF8 ∧
      (∀ j < i, (Directory.nameBytes bytes j).IsValidUTF8) ∧ Stored.read Directory bytes = .error (.name i)
  /-- A table is written with zeros behind every name, and is read from that again. -/
  cleared (dir : Directory) : Stored.read Directory bytes = .ok dir →
    encode dir = Directory.cleared bytes ∧ Stored.read Directory (Directory.cleared bytes) = .ok dir

theorem readingLaws (bytes : ByteArray) : ReadingLaws bytes where
  size κ := by
    refine ⟨⟨?_, fun other => ⟨_, _, _, Kind.read_of_size_ne other⟩⟩, Kind.read_of_size_ne⟩
    rintro ⟨of, actual, expected, refused⟩ same
    by_cases directory : κ = .directory
    · subst directory
      rcases Directory.read_cases same with ⟨dir, found, -⟩ | ⟨i, -, lost, -⟩
      · exact nomatch found.symm.trans refused
      · exact nomatch lost.symm.trans refused
    · obtain ⟨r, found, -⟩ := Kind.exists_record directory same
      exact nomatch found.symm.trans refused
  written κ other same := Kind.exists_record other same
  table same := by
    rcases Directory.read_cases same with ⟨dir, found, -, all⟩ | ⟨i, inside, lost, invalid, -⟩
    · exact iff_of_true ⟨dir, found⟩ (Directory.valid_of_slots same all)
    · refine iff_of_false ?_ fun valid => invalid (valid i inside)
      rintro ⟨dir, found⟩
      exact nomatch lost.symm.trans found
  unreadable same bad := by
    rcases Directory.read_cases same with ⟨dir, found, -, all⟩ | ⟨i, inside, lost, invalid, before⟩
    · exact absurd (Directory.valid_of_slots same all) bad
    · exact ⟨i, inside, invalid, before, lost⟩
  cleared dir found := by
    have same : bytes.size = Kind.directory.size := size_of_read found
    rcases Directory.read_cases same with ⟨dir', found', self, all⟩ | ⟨i, -, lost, -⟩
    · obtain rfl := Except.ok.inj (found'.symm.trans found)
      have written := Directory.encode_of_read same self all
      exact ⟨written, written ▸ Directory.readsBack (Directory.fits_of_slots all)⟩
    · exact nomatch lost.symm.trans found

end RecordFs
