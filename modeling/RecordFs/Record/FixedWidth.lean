import RecordFs.Id

/-! Fields of a fixed width: every value has one written form, and every run of bytes of
that width is the written form of one value. Fields are put together by pairing and repeating. -/
namespace RecordFs

structure FixedWidth (α : Type) where
  width : Nat
  write : α → List UInt8
  read : List UInt8 → α
  length_write : ∀ a, (write a).length = width
  read_write : ∀ a, read (write a) = a
  write_read : ∀ bs, bs.length = width → write (read bs) = bs

namespace FixedWidth

variable {α β : Type}

/-- Two fields one after the other. -/
def pair (f : FixedWidth α) (g : FixedWidth β) : FixedWidth (α × β) where
  width := f.width + g.width
  write v := f.write v.1 ++ g.write v.2
  read bs := (f.read (bs.take f.width), g.read (bs.drop f.width))
  length_write v := by simp [f.length_write, g.length_write]
  read_write v := by
    simp [List.take_left' (f.length_write v.1), List.drop_left' (f.length_write v.1),
      f.read_write, g.read_write]
  write_read bs h := by
    rw [f.write_read _ (by simp; omega), g.write_read _ (by simp; omega)]
    simp

/-- The same bytes, seen as values of another type. -/
def convert (f : FixedWidth α) (into : α → β) (back : β → α) (back_into : ∀ a, back (into a) = a)
    (into_back : ∀ b, into (back b) = b) : FixedWidth β where
  width := f.width
  write b := f.write (back b)
  read bs := into (f.read bs)
  length_write b := f.length_write _
  read_write b := by simp [f.read_write, into_back]
  write_read bs h := by simp [back_into, f.write_read bs h]

private def readMany (f : FixedWidth α) : Nat → List UInt8 → List α
  | 0, _ => []
  | n + 1, bs => f.read (bs.take f.width) :: readMany f n (bs.drop f.width)

private theorem length_readMany (f : FixedWidth α) (n : Nat) (bs : List UInt8) :
    (readMany f n bs).length = n := by
  induction n generalizing bs with
  | zero => rfl
  | succ n ih => simp [readMany, ih]

private theorem readMany_flatMap (f : FixedWidth α) (l : List α) :
    readMany f l.length (l.flatMap f.write) = l := by
  induction l with
  | nil => rfl
  | cons a l ih =>
    simp [readMany, List.flatMap_cons, List.take_left' (f.length_write a),
      List.drop_left' (f.length_write a), f.read_write, ih]

private theorem flatMap_readMany (f : FixedWidth α) (n : Nat) (bs : List UInt8)
    (h : bs.length = n * f.width) : (readMany f n bs).flatMap f.write = bs := by
  induction n generalizing bs with
  | zero => simp_all [readMany]
  | succ n ih =>
    rw [Nat.succ_mul] at h
    simp only [readMany, List.flatMap_cons]
    rw [f.write_read _ (by simp; omega), ih _ (by simp; omega)]
    simp

/-- A field repeated, written in order. -/
def repeated (f : FixedWidth α) (n : Nat) : FixedWidth (Vector α n) where
  width := n * f.width
  write v := v.toList.flatMap f.write
  read bs := ⟨(readMany f n bs).toArray, by simp [length_readMany]⟩
  length_write v := by
    have h : ∀ l : List α, (l.flatMap f.write).length = l.length * f.width := by
      intro l
      induction l with
      | nil => simp
      | cons a l ih => simp [List.flatMap_cons, f.length_write, ih, Nat.succ_mul]; omega
    simp [h]
  read_write v := by
    have h := readMany_flatMap f v.toList
    rw [Vector.length_toList] at h
    apply Vector.toList_inj.mp
    simpa using h
  write_read bs h := by
    simpa using flatMap_readMany f n bs h

/-- Words of 32 bits, least significant byte first. -/
def word32 : FixedWidth UInt32 where
  width := 4
  write v := Numeral.digits 4 v.toNat
  read bs := UInt32.ofNat (Numeral.value bs)
  length_write v := by simp
  read_write v := by
    have h := v.toNat_lt
    apply UInt32.toNat_inj.mp
    simp only [Numeral.value_digits, Numeral.capacity_four, UInt32.toNat_ofNat']
    omega
  write_read bs h := by
    have hv := Numeral.value_lt bs
    have hd := Numeral.digits_value bs
    rw [h] at hv hd
    rw [Numeral.capacity_four] at hv
    rw [UInt32.toNat_ofNat', Nat.mod_eq_of_lt (by omega), hd]

/-- Words of 64 bits, least significant byte first. -/
def word64 : FixedWidth UInt64 where
  width := 8
  write v := Numeral.digits 8 v.toNat
  read bs := UInt64.ofNat (Numeral.value bs)
  length_write v := by simp
  read_write v := by
    have h := v.toNat_lt
    apply UInt64.toNat_inj.mp
    simp only [Numeral.value_digits, Numeral.capacity_eight, UInt64.toNat_ofNat']
    omega
  write_read bs h := by
    have hv := Numeral.value_lt bs
    have hd := Numeral.digits_value bs
    rw [h] at hv hd
    rw [Numeral.capacity_eight] at hv
    rw [UInt64.toNat_ofNat', Nat.mod_eq_of_lt (by omega), hd]

/-- Signed numbers of 64 bits, in two's complement. -/
def signed64 : FixedWidth Int64 :=
  word64.convert UInt64.toInt64 Int64.toUInt64 UInt64.toUInt64_toInt64 Int64.toInt64_toUInt64

/-- Identifiers, as their sixteen bytes. -/
def id : FixedWidth Id where
  width := 16
  write := Id.bytes
  read := Id.ofBytes
  length_write := Id.length_bytes
  read_write := Id.ofBytes_bytes
  write_read := Id.bytes_ofBytes

end FixedWidth
end RecordFs
