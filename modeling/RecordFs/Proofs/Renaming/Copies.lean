import RecordFs.Proofs.Renaming.Names

/-! Stored bytes under other names: the written form of a record and that of the renamed record are
read alike, also as a kind that they are not. -/
namespace RecordFs
open Stored

/-- The written forms of a record and of the same record under other names. -/
inductive Copy (σ : Renaming) : ByteArray → ByteArray → Prop where
  | rootPointer (r : RootPointer) : Copy σ (encode r) (encode (rename σ r))
  | inode (r : Inode) : Copy σ (encode r) (encode (rename σ r))
  | directory (r : Directory) : Copy σ (encode r) (encode (rename σ r))
  | map (r : BlockMap) : Copy σ (encode r) (encode (rename σ r))
  | block (r : Block) : Copy σ (encode r) (encode (rename σ r))
  | indirect (r : IndirectMap) : Copy σ (encode r) (encode (rename σ r))

variable {σ : Renaming} {a b : ByteArray}

theorem Copy.size (h : Copy σ a b) : b.size = a.size := by
  cases h <;> rw [size_encode, size_encode]

/-- What one is read as is what the other is read as, under other names. -/
def ReadsAlike (σ : Renaming) (ρ : Type) [Stored ρ] [Renames ρ] (a b : ByteArray) : Prop :=
  Stored.read ρ b = (Stored.read ρ a).map (rename σ)

/-- Records whose written forms are copies of each other when the records are. -/
class Copied (ρ : Type) [Stored ρ] [Renames ρ] : Prop where
  copy : ∀ (σ : Renaming) (r : ρ), Copy σ (encode r) (encode (rename σ r))
  reads : ∀ {σ : Renaming} {a b : ByteArray}, Copy σ a b → ReadsAlike σ ρ a b

section reads
variable {ρ : Type} [Stored ρ] [Renames ρ]

theorem readsAlike_of_exact [Exact ρ] (r : ρ) : ReadsAlike σ ρ (encode r) (encode (rename σ r)) := by
  have one : Stored.read ρ (encode r) = .ok r := Exact.reads_back r
  have two : Stored.read ρ (encode (rename σ r)) = .ok (rename σ r) := Exact.reads_back _
  rw [ReadsAlike, one, two]
  rfl

/-- A record is refused alike as what it is not. -/
theorem readsAlike_of_kind {τ : Type} [Stored τ] [Renames τ] [Sized τ] (r : τ) (different : kind τ ≠ kind ρ) :
    ReadsAlike σ ρ (encode r) (encode (rename σ r)) := by
  have ne (r : τ) : (encode r).size ≠ (kind ρ).size := by
    rw [size_encode]
    exact fun same => different (Kind.size_injective same)
  rw [ReadsAlike, read_of_size_ne (ne r), read_of_size_ne (ne (rename σ r)), size_encode, size_encode]
  rfl

end reads

namespace Slot

/-- What is written of a slot before the child, which is the same for every child. -/
theorem write_eq (slot : Slot) : ∃ head : List UInt8, head.length = 1 + maxNameLength ∧
    ∀ child, ({ slot with child } : Slot).write = head ++ child.bytes := by
  refine ⟨UInt8.ofNat (slot.name.toUTF8.data.toList.take maxNameLength).length ::
    slot.name.toUTF8.data.toList.take maxNameLength ++
      List.replicate (maxNameLength - (slot.name.toUTF8.data.toList.take maxNameLength).length) 0, ?_, fun _ => rfl⟩
  rw [List.length_append, List.length_cons, List.length_replicate, List.length_take]
  omega

/-- A name of at most 255 bytes is read, and the child behind it. -/
theorem read?_append {head : List UInt8} (length : head.length = 1 + maxNameLength) (child : Id) :
    read? (head ++ child.bytes) =
      (String.fromUTF8? ((head.drop 1).take (head.headD 0).toNat).toByteArray).map fun name => { name, child } := by
  cases head with
  | nil => cases length
  | cons first rest =>
    have room : rest.length = maxNameLength := by
      rw [List.length_cons] at length
      omega
    have within : first.toNat ≤ rest.length := room ▸ Nat.le_of_lt_succ first.toNat_lt
    have behind : List.drop (1 + maxNameLength) (first :: (rest ++ child.bytes)) = child.bytes := by
      rw [← List.cons_append]
      exact List.drop_left' length
    simp only [read?, List.cons_append, behind, Id.ofBytes_bytes, List.headD_cons, List.drop_succ_cons, List.drop_zero,
      List.take_append_of_le_length within]

theorem read?_rename (slot : Slot) : read? (rename σ slot).write = (read? slot.write).map (rename σ) := by
  obtain ⟨head, length, written⟩ := slot.write_eq
  have bytes : slot.write = head ++ slot.child.bytes := written slot.child
  have renamed : (rename σ slot).write = head ++ (rename σ slot.child).bytes := written _
  rw [bytes, renamed, read?_append length, read?_append length, Option.map_map]
  rfl

end Slot

namespace Directory

/-- The slots of a renamed table are read alike, or the same slot is found to have no name. -/
theorem readSlots_rename (σ : Renaming) (l : List Slot) (i : Nat) {n : Nat} (h : l.length = n) :
    (∃ e, readSlots i n (l.flatMap Slot.write) = .error e ∧
      readSlots i n ((l.map (rename σ)).flatMap Slot.write) = .error e) ∨
    ∃ slots slots', readSlots i n (l.flatMap Slot.write) = .ok slots ∧
      readSlots i n ((l.map (rename σ)).flatMap Slot.write) = .ok slots' ∧ slots'.1 = slots.1.map (rename σ) := by
  induction l generalizing i n with
  | nil =>
    subst h
    exact .inr ⟨_, _, rfl, rfl, rfl⟩
  | cons slot l ih =>
    subst h
    have first (s : Slot) (rest : List UInt8) : List.take slotSize (s.write ++ rest) = s.write :=
      List.take_left' s.length_write
    have behind (s : Slot) (rest : List UInt8) : List.drop slotSize (s.write ++ rest) = rest :=
      List.drop_left' s.length_write
    rw [List.map_cons, List.flatMap_cons, List.flatMap_cons]
    simp only [List.length_cons, readSlots, first, behind, Slot.read?_rename]
    cases Slot.read? slot.write with
    | none => exact .inl ⟨.name i, rfl, rfl⟩
    | some read =>
      rcases ih (i + 1) rfl with ⟨e, lost, lost'⟩ | ⟨slots, slots', found, found', same⟩
      · simp only [lost, lost', Option.map_some]
        exact .inl ⟨e, rfl, rfl⟩
      · simp only [found, found', Option.map_some]
        exact .inr ⟨_, _, rfl, rfl, congrArg (rename σ read :: ·) same⟩

theorem decode_append (self : Id) (bs : List UInt8) : (decode (self.bytes ++ bs).toByteArray : Except Malformed Directory) =
    (readSlots 0 dirEntries bs).map fun slots => ⟨self, ⟨slots.1.toArray, by simp [slots.2]⟩⟩ := by
  change (do
    let bytes := (self.bytes ++ bs).toByteArray.data.toList
    let slots ← readSlots 0 dirEntries (bytes.drop idSize)
    return ⟨Id.ofBytes (bytes.take idSize), ⟨slots.1.toArray, by simp [slots.2]⟩⟩ : Except Malformed Directory) = _
  have width : self.bytes.length = idSize := self.length_bytes
  simp only [List.data_toByteArray, List.drop_left' width, List.take_left' width, Id.ofBytes_bytes]
  cases readSlots 0 dirEntries bs <;> rfl

theorem readsAlike (d : Directory) : ReadsAlike σ Directory (encode d) (encode (rename σ d)) := by
  have slots := readSlots_rename σ d.slots.toList 0 d.slots.length_toList
  have renamed : (rename σ d).slots.toList = d.slots.toList.map (rename σ) := Vector.toList_map
  rw [ReadsAlike, read_of_size (size_encode _), read_of_size (size_encode _)]
  change decode ((rename σ d.self).bytes ++ (rename σ d).slots.toList.flatMap Slot.write).toByteArray =
    (decode (d.self.bytes ++ d.slots.toList.flatMap Slot.write).toByteArray).map (rename σ)
  rw [decode_append, decode_append, renamed]
  rcases slots with ⟨e, lost, lost'⟩ | ⟨slots, slots', found, found', same⟩
  · rw [lost, lost']
    rfl
  · rw [found, found']
    refine congrArg Except.ok (congrArg (Directory.mk _) (Vector.toArray_inj.mp ?_))
    change slots'.1.toArray = ((Vector.mk slots.1.toArray _).map (rename σ)).toArray
    rw [same]
    simp

end Directory

instance : Copied RootPointer where
  copy _ := .rootPointer
  reads h := by
    cases h with
    | rootPointer r => exact readsAlike_of_exact r
    | inode r | directory r | map r | block r | indirect r => exact readsAlike_of_kind r nofun

instance : Copied Inode where
  copy _ := .inode
  reads h := by
    cases h with
    | inode r => exact readsAlike_of_exact r
    | rootPointer r | directory r | map r | block r | indirect r => exact readsAlike_of_kind r nofun

instance : Copied Directory where
  copy _ := .directory
  reads h := by
    cases h with
    | directory r => exact r.readsAlike
    | rootPointer r | inode r | map r | block r | indirect r => exact readsAlike_of_kind r nofun

instance : Copied BlockMap where
  copy _ := .map
  reads h := by
    cases h with
    | map r => exact readsAlike_of_exact r
    | rootPointer r | inode r | directory r | block r | indirect r => exact readsAlike_of_kind r nofun

instance : Copied Block where
  copy _ := .block
  reads h := by
    cases h with
    | block r => exact readsAlike_of_exact r
    | rootPointer r | inode r | directory r | map r | indirect r => exact readsAlike_of_kind r nofun

instance : Copied IndirectMap where
  copy _ := .indirect
  reads h := by
    cases h with
    | indirect r => exact readsAlike_of_exact r
    | rootPointer r | inode r | directory r | map r | block r => exact readsAlike_of_kind r nofun

end RecordFs
