/-! Runs of bytes. -/
namespace RecordFs

/-- Byte arrays are equal when their elements are. -/
instance decidableEqBytes : DecidableEq ByteArray :=
  fun a b => decidable_of_iff (a.data = b.data) ByteArray.ext_iff.symm

/-- A run of zero bytes. -/
def zeros (n : Nat) : ByteArray := ⟨Array.replicate n 0⟩

@[simp] theorem size_zeros (n : Nat) : (zeros n).size = n := by simp [zeros, ByteArray.size]

end RecordFs
