import RecordFs.Numeral

/-! Identifiers under which records are stored: 128 bits, ordered as sixteen bytes.
The identifier of all zero bits names nothing. -/
namespace RecordFs

structure Id where
  hi : UInt64
  lo : UInt64
  deriving DecidableEq, Repr, Inhabited

namespace Id

/-- Marks a place where no record is allocated. -/
def zero : Id := ⟨0, 0⟩

/-- The fixed key of the record that names the root. -/
def rootPointer : Id := ⟨0x6b766673726f6f74, 1⟩

def ofNat (n : Nat) : Id := ⟨UInt64.ofNat (n / UInt64.size), UInt64.ofNat n⟩

/-- Most significant byte first. -/
def bytes (id : Id) : List UInt8 :=
  (Numeral.digits 8 id.hi.toNat).reverse ++ (Numeral.digits 8 id.lo.toNat).reverse

def ofBytes (bs : List UInt8) : Id :=
  ⟨UInt64.ofNat (Numeral.value (bs.take 8).reverse), UInt64.ofNat (Numeral.value (bs.drop 8).reverse)⟩

instance : Ord Id where
  compare a b := (compare a.hi b.hi).then (compare a.lo b.lo)

private def hexDigits (b : UInt8) : List Char :=
  [Nat.digitChar (b.toNat / 16), Nat.digitChar (b.toNat % 16)]

/-- Thirty-two hexadecimal digits in lower case. -/
def hex (id : Id) : String := String.ofList (id.bytes.flatMap hexDigits)

/-- The digits in groups of 8, 4, 4, 4 and 12. -/
def text (id : Id) : String :=
  let digits := id.bytes.flatMap hexDigits
  "-".intercalate ([(0, 8), (8, 4), (12, 4), (16, 4), (20, 12)].map fun (start, count) =>
    String.ofList ((digits.drop start).take count))

instance : ToString Id := ⟨text⟩

/-- How an identifier shows inside a larger value. -/
def describe (id : Id) : String :=
  if id = zero then "Id(<zero>)" else s!"Id({id})"

@[simp] theorem length_bytes (id : Id) : id.bytes.length = 16 := by
  simp [bytes]

theorem ofBytes_bytes (id : Id) : ofBytes id.bytes = id := by
  have hh : (Numeral.digits 8 id.hi.toNat).reverse.length = 8 := by simp
  have hhi := id.hi.toNat_lt
  have hlo := id.lo.toNat_lt
  cases id with
  | mk hi lo =>
    simp only [bytes, ofBytes, List.take_left' hh, List.drop_left' hh, List.reverse_reverse,
      Numeral.value_digits]
    congr 1
    · apply UInt64.toNat_inj.mp
      simp only [UInt64.toNat_ofNat', Numeral.capacity_eight] at *
      omega
    · apply UInt64.toNat_inj.mp
      simp only [UInt64.toNat_ofNat', Numeral.capacity_eight] at *
      omega

theorem bytes_ofBytes (bs : List UInt8) (h : bs.length = 16) : (ofBytes bs).bytes = bs := by
  have value_take : Numeral.value (bs.take 8).reverse < 2 ^ 64 := by
    have := Numeral.value_lt (bs.take 8).reverse
    simpa [h] using this
  have value_drop : Numeral.value (bs.drop 8).reverse < 2 ^ 64 := by
    have := Numeral.value_lt (bs.drop 8).reverse
    simpa [h] using this
  have digits_take := Numeral.digits_value (bs.take 8).reverse
  have digits_drop := Numeral.digits_value (bs.drop 8).reverse
  rw [show (bs.take 8).reverse.length = 8 by simp [h]] at digits_take
  rw [show (bs.drop 8).reverse.length = 8 by simp [h]] at digits_drop
  simp only [bytes, ofBytes, UInt64.toNat_ofNat', Nat.mod_eq_of_lt value_take,
    Nat.mod_eq_of_lt value_drop]
  rw [digits_take, digits_drop]
  simp

end Id
end RecordFs
