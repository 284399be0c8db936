/-! Whole numbers as digits in base 256, least significant first.
Writing in a fixed width and reading back are inverse to each other. -/
namespace RecordFs.Numeral

/-- The lowest `width` digits of a number. -/
def digits : Nat → Nat → List UInt8
  | 0, _ => []
  | width + 1, n => UInt8.ofNat n :: digits width (n / 256)

def value : List UInt8 → Nat
  | [] => 0
  | b :: bs => b.toNat + 256 * value bs

/-- How many numbers fit into so many digits. -/
def capacity : Nat → Nat
  | 0 => 1
  | width + 1 => 256 * capacity width

@[simp] theorem capacity_four : capacity 4 = 4294967296 := rfl

@[simp] theorem capacity_eight : capacity 8 = 18446744073709551616 := rfl

@[simp] theorem length_digits (width n : Nat) : (digits width n).length = width := by
  induction width generalizing n with
  | zero => rfl
  | succ w ih => simp [digits, ih]

theorem value_digits (width n : Nat) : value (digits width n) = n % capacity width := by
  induction width generalizing n with
  | zero => simp [digits, value, capacity, Nat.mod_one]
  | succ w ih =>
    rw [capacity, Nat.mod_mul]
    simp only [digits, value, ih, UInt8.toNat_ofNat']

theorem value_lt (bs : List UInt8) : value bs < capacity bs.length := by
  induction bs with
  | nil => simp [value, capacity]
  | cons b bs ih =>
    have hb := b.toNat_lt
    simp only [value, List.length_cons, capacity]
    omega

theorem digits_value (bs : List UInt8) : digits bs.length (value bs) = bs := by
  induction bs with
  | nil => rfl
  | cons b bs ih =>
    have hb := b.toNat_lt
    have hd : (b.toNat + 256 * value bs) / 256 = value bs := by omega
    have hm : UInt8.ofNat (b.toNat + 256 * value bs) = b := by
      apply UInt8.toNat_inj.mp
      simp only [UInt8.toNat_ofNat']
      omega
    simp [digits, value, hd, hm, ih]

end RecordFs.Numeral
