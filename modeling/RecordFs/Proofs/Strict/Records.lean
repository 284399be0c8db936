import RecordFs.Proofs.Record.Canonical
import RecordFs.Proofs.Strict.Slips

/-! Records read through a cursor that slips where its bytes end, and written with the lengths asserted. On
bytes of the size of the kind no reading slips and all is read as before. -/
namespace RecordFs

/-- Reads on from the bytes that are left. -/
abbrev Cursor := StateT (List UInt8) (ExceptT Malformed Checked)

namespace Cursor
open Checked
variable {α β : Type}

/-- The next `n` bytes. -/
def take (n : Nat) : Cursor (List UInt8) := do
  let bytes ← first (← get) n
  modify (·.drop n)
  return bytes

/-- The next field, which takes over all bytes it is given. -/
def field (f : FixedWidth α) : Cursor α := do
  let bytes ← take f.width
  demand (bytes.length = f.width) .slice
  return f.read bytes

/-- As many as there are to read, numbered from `i` on. -/
def many (read : Nat → Cursor α) (i : Nat) : (n : Nat) → Cursor { l : List α // l.length = n }
  | 0 => return ⟨[], rfl⟩
  | n + 1 => do
    let a ← read i
    let rest ← many read (i + 1) n
    return ⟨a :: rest.1, congrArg Nat.succ rest.2⟩

def rootPointer : Cursor RootPointer := return ⟨← field .id⟩

def inode : Cursor Inode := do
  let self ← field .id
  let data ← field .id
  let uid ← field .word32
  let gid ← field .word32
  let mode ← field .word32
  let atime ← field .signed64
  let mtime ← field .signed64
  let ctime ← field .signed64
  let size ← field .word64
  return { self, data, uid, gid, mode, atime, mtime, ctime, size }

/-- Slot `i` of a table. -/
def slot (i : Nat) : Cursor Slot := do
  let length ← element (← take 1) 0
  let name ← first (← take maxNameLength) length.toNat
  match String.fromUTF8? name.toByteArray with
  | none => throw (.name i)
  | some name => return { name, child := ← field .id }

def directory : Cursor Directory := do
  let self ← field .id
  let slots ← many slot 0 dirEntries
  return ⟨self, ⟨slots.1.toArray, slots.2⟩⟩

def blockMap : Cursor BlockMap := do
  let direct ← many (fun _ => field .id) 0 directBlocks
  return ⟨⟨direct.1.toArray, direct.2⟩, ← field .id⟩

/-- Identifiers that must be as many as an indirect map has slots. -/
def fill {n : Nat} (blocks : { l : List Id // l.length = n }) : Cursor IndirectMap :=
  if h : n = indirectBlocks then return ⟨⟨blocks.1.toArray, blocks.2.trans h⟩⟩ else throwThe Slip .misread

/-- All identifiers there are. -/
def indirectMap : Cursor IndirectMap := do
  fill (← many (fun _ => field .id) 0 ((← get).length / idSize))

/-- All bytes there are, which must be as many as a block has. -/
def block : Cursor Block := do
  let bytes := (← get).toByteArray
  allocate bytes.size
  if h : bytes.size = blockSize then return ⟨bytes, h⟩ else throwThe Slip .misread

/-- A step that may be taken. -/
theorem run_checked {c : Checked α} {a : α} (h : c = .ok a) (bs : List UInt8) : (liftM c : Cursor α).run bs = pure (a, bs) := by
  rw [h]
  rfl

theorem run_bind_of {x : Cursor α} {k : α → Cursor β} {a : α} {bs rest : List UInt8} (h : x.run bs = pure (a, rest)) :
    (x >>= k).run bs = (k a).run rest := by
  rw [StateT.run_bind, h, pure_bind]

theorem run_take {n : Nat} {bs : List UInt8} (h : n ≤ bs.length) : (take n).run bs = pure (bs.take n, bs.drop n) := by
  rw [take, run_bind_of (StateT.run_get bs), run_bind_of (run_checked (first_of_le h) bs)]
  rfl

theorem run_field (f : FixedWidth α) {bs : List UInt8} (h : f.width ≤ bs.length) :
    (field f).run bs = pure (f.read (bs.take f.width), bs.drop f.width) := by
  have length : (bs.take f.width).length = f.width := by
    rw [List.length_take]
    omega
  rw [field, run_bind_of (run_take h), run_bind_of (run_checked (demand_of length _) _)]
  rfl

/-- Where the bytes end before the field does. -/
theorem run_field_of_lt (f : FixedWidth α) {bs : List UInt8} (h : bs.length < f.width) :
    (field f).run bs = throwThe Slip .slice := by
  have slips : first bs f.width = .error .slice := if_neg (Nat.not_le.mpr h)
  rw [field, StateT.run_bind, take, run_bind_of (StateT.run_get bs), slips]
  rfl

/-- Two fields one after the other are one field. -/
theorem field_bind_field (f : FixedWidth α) (g : FixedWidth β) {γ : Type} (k : α → β → Cursor γ) :
    (do let a ← field f; let b ← field g; k a b) = (do let v ← field (f.pair g); k v.1 v.2) := by
  apply StateT.ext
  intro bs
  have width : (f.pair g).width = f.width + g.width := rfl
  rw [StateT.run_bind, StateT.run_bind]
  rcases Nat.lt_or_ge bs.length f.width with short | within
  · rw [run_field_of_lt f short, run_field_of_lt (f.pair g) (by omega)]
    rfl
  · rw [run_field f within, pure_bind, StateT.run_bind]
    rcases Nat.lt_or_ge (bs.drop f.width).length g.width with short | rest
    · rw [run_field_of_lt g short, run_field_of_lt (f.pair g) (by rw [List.length_drop] at short; omega)]
      rfl
    · rw [run_field g rest, run_field (f.pair g) (by rw [List.length_drop] at rest; omega), pure_bind, pure_bind, width,
        ← List.drop_drop, FixedWidth.pair]
      dsimp only
      rw [List.take_take, List.drop_take, Nat.min_eq_left (Nat.le_add_right _ _), Nat.add_sub_cancel_left]

/-- The same bytes seen as another field. -/
theorem field_bind_pure {f : FixedWidth α} {g : FixedWidth β} {into : α → β} (width : f.width = g.width)
    (read : ∀ bs, into (f.read bs) = g.read bs) : (do let a ← field f; return into a) = field g := by
  rw [field, field, width]
  simp only [bind_assoc, pure_bind, read]

theorem rootPointer_eq : rootPointer = field RootPointer.field := field_bind_pure rfl fun _ => rfl

theorem inode_eq : inode = field Inode.field := by
  rw [inode]
  simp only [field_bind_field]
  exact field_bind_pure rfl fun _ => rfl

/-- A field read again and again is one field. -/
theorem many_field (f : FixedWidth α) (i n : Nat) :
    (do let l ← many (fun _ => field f) i n; return Vector.mk l.1.toArray l.2) = field (f.repeated n) := by
  induction n generalizing i with
  | zero =>
    have nothing : (f.repeated 0).width = 0 := Nat.zero_mul _
    apply StateT.ext
    intro bs
    rw [run_field _ (by rw [nothing]; exact Nat.zero_le _), nothing]
    rfl
  | succ n ih =>
    have width : (f.pair (f.repeated n)).width = (f.repeated (n + 1)).width := by
      change f.width + n * f.width = (n + 1) * f.width
      rw [Nat.succ_mul, Nat.add_comm]
    have step : (do let l ← many (fun _ => field f) i (n + 1); return Vector.mk l.1.toArray l.2) =
        (do let a ← field f; let v ← field (f.repeated n); return Vector.mk (a :: v.toList).toArray (by simp)) := by
      rw [many, ← ih (i + 1)]
      simp only [bind_assoc, pure_bind]
      rfl
    rw [step, field_bind_field]
    exact field_bind_pure width fun _ => rfl

theorem blockMap_eq : blockMap = field BlockMap.field := by
  have direct : blockMap = (do
      let v ← (do let l ← many (fun _ => field .id) 0 directBlocks; return Vector.mk l.1.toArray l.2)
      let i ← field .id
      return ⟨v, i⟩) := by
    simp only [blockMap, bind_assoc, pure_bind]
  rw [direct, many_field, field_bind_field]
  exact field_bind_pure rfl fun _ => rfl

theorem run_indirectMap {bs : List UInt8} (size : bs.length = Kind.indirectMap.size) :
    indirectMap.run bs = (field IndirectMap.field).run bs := by
  have count : bs.length / idSize = indirectBlocks := by rw [size]; rfl
  have whole : (do let v ← field (FixedWidth.id.repeated indirectBlocks); return IndirectMap.mk v) = field IndirectMap.field :=
    field_bind_pure rfl fun _ => rfl
  rw [← whole, ← many_field .id 0, indirectMap, run_bind_of (StateT.run_get bs), count]
  simp only [bind_assoc, pure_bind]
  rfl

theorem run_block {bytes : ByteArray} (size : bytes.size = blockSize) :
    block.run bytes.data.toList = pure (⟨bytes, size⟩, bytes.data.toList) := by
  have same : bytes.data.toList.toByteArray = bytes := ByteArray.ext (by simp)
  have small : allocate bytes.size = .ok () := allocate_of_le (size ▸ blockSize_le)
  rw [block, run_bind_of (StateT.run_get _), same, run_bind_of (run_checked small _), dif_pos size]
  rfl

/-- A slot is read as before, or reported by its number. -/
theorem run_slot {bs : List UInt8} (h : slotSize ≤ bs.length) (i : Nat) : (slot i).run bs =
    match Slot.read? (bs.take slotSize) with
    | none => throw (.name i)
    | some slot => pure (slot, bs.drop slotSize) := by
  obtain ⟨length, rest, rfl⟩ : ∃ b rest, bs = b :: rest := by
    cases bs with
    | nil => cases h
    | cons b rest => exact ⟨b, rest, rfl⟩
  have long : maxNameLength + idSize ≤ rest.length := by
    simp only [slotSize, List.length_cons] at h
    omega
  have room : length.toNat ≤ maxNameLength := Nat.le_of_lt_succ length.toNat_lt
  have size : slotSize = maxNameLength + idSize + 1 := by decide
  have read : Slot.read? ((length :: rest).take slotSize) =
      (String.fromUTF8? (rest.take length.toNat).toByteArray).map fun name =>
        { name, child := Id.ofBytes ((rest.drop maxNameLength).take idSize) } := by
    rw [size, List.take_succ_cons, Slot.read?]
    simp only [List.headD_cons, List.drop_succ_cons, List.drop_zero, Nat.add_comm 1 maxNameLength, List.take_take, List.drop_take,
      Nat.add_sub_cancel_left]
    rw [Nat.min_eq_left (by omega)]
  have head : (take 1).run (length :: rest) = pure ([length], rest) := run_take (Nat.le_add_left ..)
  have count : element [length] 0 = .ok length := element_of_lt Nat.zero_lt_one
  have name : first (rest.take maxNameLength) length.toNat = .ok (rest.take length.toNat) := by
    rw [first_of_le (by rw [List.length_take]; omega), List.take_take, Nat.min_eq_left room]
  have child : (field FixedWidth.id).run (rest.drop maxNameLength) =
      pure (Id.ofBytes ((rest.drop maxNameLength).take idSize), (rest.drop maxNameLength).drop idSize) :=
    run_field .id (by rw [List.length_drop]; exact Nat.le_sub_of_add_le' long)
  rw [slot, run_bind_of head, run_bind_of (run_checked count _), run_bind_of (run_take (by omega)),
    run_bind_of (run_checked name _), read, size, List.drop_succ_cons, ← List.drop_drop]
  cases String.fromUTF8? (rest.take length.toNat).toByteArray with
  | none => rfl
  | some name =>
    dsimp only
    rw [run_bind_of child]
    rfl

/-- Slots one after another, as far as they can be read. -/
theorem run_slots (i n : Nat) {bs : List UInt8} (h : n * slotSize ≤ bs.length) : (many slot i n).run bs =
    ExceptT.mk (.ok ((Directory.readSlots i n bs).map fun slots => (slots, bs.drop (n * slotSize)))) := by
  induction n generalizing i bs with
  | zero =>
    rw [Nat.zero_mul]
    rfl
  | succ n ih =>
    rw [Nat.succ_mul] at h ⊢
    have long : slotSize ≤ bs.length := by omega
    rw [many, StateT.run_bind, run_slot long i, Directory.readSlots]
    cases Slot.read? (bs.take slotSize) with
    | none => rfl
    | some slot =>
      have rest : n * slotSize ≤ (bs.drop slotSize).length := by
        rw [List.length_drop]
        omega
      dsimp only
      rw [pure_bind, StateT.run_bind, ih (i + 1) rest, List.drop_drop, Nat.add_comm slotSize]
      cases Directory.readSlots (i + 1) n (bs.drop slotSize) <;> rfl

end Cursor

open Checked Stored

/-- Records that are read and written with every step checked. -/
class StrictlyStored (ρ : Type) [Stored ρ] where
  decode : Cursor ρ
  encode : ρ → Checked ByteArray

/-- Reads bytes as a record, of which they must have the size. -/
def interpret (ρ : Type) [Stored ρ] [StrictlyStored ρ] (bytes : ByteArray) : Checked (Except Malformed ρ) := do
  demand (bytes.size = (kind ρ).size) .misread
  (StrictlyStored.decode.run' bytes.data.toList).run

namespace Directory

/-- Writes a slot behind what is written so far. -/
def writeSlot (out : List UInt8) (slot : Slot) : Checked (List UInt8) := do
  let name := slot.name.toUTF8.data.toList
  demand (name.length ≤ maxNameLength) .assertion
  let length := min name.length maxNameLength
  let out := out ++ UInt8.ofNat length :: (← first name length)
  let room ← add out.length (← sub maxNameLength length)
  return out ++ List.replicate (room - out.length) 0 ++ slot.child.bytes

end Directory

instance : StrictlyStored RootPointer where
  decode := Cursor.rootPointer
  encode pointer := return encode pointer

instance : StrictlyStored Inode where
  decode := Cursor.inode
  encode inode := do
    demand ((encode inode).size = Kind.inode.size) .assertion
    return encode inode

instance : StrictlyStored Directory where
  decode := Cursor.directory
  encode dir := do
    let out ← dir.slots.toList.foldlM Directory.writeSlot dir.self.bytes
    demand (out.length = Kind.directory.size) .assertion
    return out.toByteArray

instance : StrictlyStored BlockMap where
  decode := Cursor.blockMap
  encode map := return encode map

instance : StrictlyStored IndirectMap where
  decode := Cursor.indirectMap
  encode table := return encode table

instance : StrictlyStored Block where
  decode := Cursor.block
  encode block := do
    allocate block.bytes.size
    return encode block

/-- With the checks, bytes of the right size are read as without, and records that fit are written so. What is
read does fit. -/
class StrictlyStored.Lawful (ρ : Type) [Stored ρ] [StrictlyStored ρ] where
  Fits : ρ → Prop
  decode_eq : ∀ {bytes : ByteArray}, bytes.size = (kind ρ).size →
    (StrictlyStored.decode.run' bytes.data.toList).run = .ok (Stored.decode (ρ := ρ) bytes)
  fits : ∀ {bytes : ByteArray} {r : ρ}, bytes.size = (kind ρ).size → Stored.decode bytes = .ok r → Fits r
  encode_eq : ∀ {r : ρ}, Fits r → StrictlyStored.encode r = .ok (Stored.encode r)

export StrictlyStored.Lawful (Fits)

theorem interpret_of_size {ρ : Type} [Stored ρ] [StrictlyStored ρ] [StrictlyStored.Lawful ρ] {bytes : ByteArray}
    (size : bytes.size = (kind ρ).size) : interpret ρ bytes = .ok (Stored.decode bytes) := by
  rw [interpret, demand_of size]
  exact StrictlyStored.Lawful.decode_eq size

private theorem decode_field {ρ : Type} (κ : Kind) (field : FixedWidth ρ) (width : field.width = κ.size) {bytes : ByteArray}
    (size : bytes.size = κ.size) :
    ((Cursor.field field).run' bytes.data.toList).run = .ok ((ofField κ field).decode bytes) := by
  have length : bytes.data.toList.length = field.width := by
    rw [width, ← size]
    exact Array.length_toList
  rw [StateT.run'_eq, Cursor.run_field field (Nat.le_of_eq length.symm), ← length, List.take_length]
  rfl

instance : StrictlyStored.Lawful RootPointer where
  Fits _ := True
  decode_eq size := by
    change (Cursor.rootPointer.run' _).run = _
    rw [Cursor.rootPointer_eq]
    exact decode_field .rootPointer _ rfl size
  fits _ _ := trivial
  encode_eq _ := rfl

instance : StrictlyStored.Lawful Inode where
  Fits _ := True
  decode_eq size := by
    change (Cursor.inode.run' _).run = _
    rw [Cursor.inode_eq]
    exact decode_field .inode _ rfl size
  fits _ _ := trivial
  encode_eq _ := by
    change (demand _ _ >>= _) = _
    rw [demand_of (show (encode _).size = Kind.inode.size from size_encode _)]
    rfl

instance : StrictlyStored.Lawful BlockMap where
  Fits _ := True
  decode_eq size := by
    change (Cursor.blockMap.run' _).run = _
    rw [Cursor.blockMap_eq]
    exact decode_field .blockMap _ rfl size
  fits _ _ := trivial
  encode_eq _ := rfl

instance : StrictlyStored.Lawful IndirectMap where
  Fits _ := True
  decode_eq {bytes} size := by
    change (Cursor.indirectMap.run' _).run = _
    rw [StateT.run'_eq, Cursor.run_indirectMap (Array.length_toList.trans size)]
    exact decode_field .indirectMap _ rfl size
  fits _ _ := trivial
  encode_eq _ := rfl

instance : StrictlyStored.Lawful Block where
  Fits _ := True
  decode_eq {bytes} size := by
    change (Cursor.block.run' _).run = _
    have read : Stored.decode bytes = Except.ok (Block.mk bytes size) := dif_pos size
    rw [StateT.run'_eq, Cursor.run_block size, read]
    rfl
  fits _ _ := trivial
  encode_eq {block} _ := by
    change (allocate block.bytes.size >>= _) = _
    rw [allocate_of_le (block.size_bytes ▸ blockSize_le)]
    rfl

namespace Directory

theorem writeSlot_eq {out : List UInt8} {slot : Slot} (fits : slot.Fits) (small : out.length + slotSize ≤ maxFileSize) :
    writeSlot out slot = .ok (out ++ slot.write) := by
  have short : slot.name.toUTF8.data.toList.length ≤ maxNameLength := by simpa [Slot.Fits] using fits
  have bytes := Nat.min_eq_left short
  rw [writeSlot, demand_of short]
  change (first _ (min _ _) >>= _) = _
  rw [bytes, first_of_le (Nat.le_refl _), List.take_length, Slot.write, List.take_of_length_le short]
  change (sub _ _ >>= _) = _
  rw [sub_of_le short]
  change (add _ _ >>= _) = _
  rw [add_of_le (by rw [List.length_append, List.length_cons]; simp only [slotSize, idSize] at small; omega)]
  change Except.ok _ = _
  rw [Nat.add_sub_cancel_left]
  simp only [List.append_assoc]

/-- Slots that fit are written one behind the other. -/
theorem foldlM_writeSlot {out : List UInt8} {l : List Slot} (fits : ∀ slot ∈ l, slot.Fits)
    (small : out.length + l.length * slotSize ≤ maxFileSize) : l.foldlM writeSlot out = .ok (out ++ l.flatMap Slot.write) := by
  induction l generalizing out with
  | nil =>
    rw [List.flatMap_nil, List.append_nil]
    rfl
  | cons slot l ih =>
    rw [List.length_cons, Nat.succ_mul] at small
    rw [List.foldlM_cons, writeSlot_eq (fits slot List.mem_cons_self) (by omega), List.flatMap_cons, ← List.append_assoc]
    refine ih (fun s hs => fits s (List.mem_cons_of_mem _ hs)) ?_
    rw [List.length_append, Slot.length_write]
    omega

end Directory

instance : StrictlyStored.Lawful Directory where
  Fits := Directory.Fits
  decode_eq {bytes} size := by
    have length : bytes.data.toList.length = Kind.directory.size := Array.length_toList.trans size
    have self : (Cursor.field .id).run bytes.data.toList =
        pure (Id.ofBytes (bytes.data.toList.take idSize), bytes.data.toList.drop idSize) :=
      Cursor.run_field .id (by rw [length]; decide)
    have long : dirEntries * slotSize ≤ (bytes.data.toList.drop idSize).length := by
      rw [List.length_drop, length]
      decide
    have read : Stored.decode bytes = (Directory.readSlots 0 dirEntries (bytes.data.toList.drop idSize)).map fun slots =>
        Directory.mk (Id.ofBytes (bytes.data.toList.take idSize)) ⟨slots.1.toArray, slots.2⟩ := by
      change (Directory.readSlots 0 dirEntries (bytes.data.toList.drop idSize) >>= fun slots => _) = _
      cases Directory.readSlots 0 dirEntries (bytes.data.toList.drop idSize) <;> rfl
    change (Cursor.directory.run' _).run = _
    rw [StateT.run'_eq, Cursor.directory, Cursor.run_bind_of self, StateT.run_bind, Cursor.run_slots 0 dirEntries long, read]
    cases Directory.readSlots 0 dirEntries (bytes.data.toList.drop idSize) <;> rfl
  fits {bytes dir} size read := by
    rcases Directory.read_cases size with ⟨dir', read', -, all⟩ | ⟨_, _, lost, _⟩
    · rw [read_of_size size, read] at read'
      cases read'
      exact Directory.fits_of_slots all
    · rw [read_of_size size, read] at lost
      cases lost
  encode_eq {dir} fits := by
    have self : dir.self.bytes.length = idSize := dir.self.length_bytes
    have length : (dir.self.bytes ++ dir.slots.toList.flatMap Slot.write).length = Kind.directory.size := by
      rw [← List.size_toByteArray]
      exact size_encode dir
    change (List.foldlM _ _ _ >>= _) = _
    rw [Directory.foldlM_writeSlot fits (by rw [self, Vector.length_toList]; decide)]
    change (demand _ _ >>= _) = _
    rw [demand_of length]
    rfl

end RecordFs
