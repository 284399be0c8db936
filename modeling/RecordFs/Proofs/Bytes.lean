import RecordFs.Bytes

/-! Runs of bytes by position. A byte beyond the end reads as zero, so laying bytes over others
and cutting or extending a run are told by what stands at each position. Records of many equal
fields are told the same way. -/
namespace RecordFs

def byteAt (bytes : ByteArray) (i : Nat) : UInt8 := bytes.data[i]?.getD 0

/-- The first `n` values of a function. -/
def bytesOf (f : Nat → UInt8) (n : Nat) : ByteArray := ⟨Array.ofFn fun i : Fin n => f i⟩

/-- `old` with `data` laid over it at `offset`; zeros fill what lies between. -/
def splice (old data : ByteArray) (offset : Nat) : ByteArray :=
  old.extract 0 offset ++ zeros (offset - old.size) ++ data ++ old.extract (offset + data.size) old.size

/-- The first `n` bytes, filled up with zeros. -/
def resized (old : ByteArray) (n : Nat) : ByteArray := old.extract 0 n ++ zeros (n - old.size)

theorem byteAt_of_size_le {bytes : ByteArray} {i : Nat} (h : bytes.size ≤ i) : byteAt bytes i = 0 := by
  have hi : bytes.data.size ≤ i := h
  simp [byteAt, Array.getElem?_eq_none hi]

@[simp] theorem byteAt_zeros (n i : Nat) : byteAt (zeros n) i = 0 := by
  simp only [byteAt, zeros, Array.getElem?_replicate]
  split <;> rfl

theorem byteAt_append (a b : ByteArray) (i : Nat) :
    byteAt (a ++ b) i = if i < a.size then byteAt a i else byteAt b (i - a.size) := by
  have size : a.data.size = a.size := rfl
  simp only [byteAt, ByteArray.data_append, Array.getElem?_append, size]
  split <;> rfl

theorem byteAt_extract (a : ByteArray) (start stop i : Nat) :
    byteAt (a.extract start stop) i = if start + i < stop then byteAt a (start + i) else 0 := by
  have h : a.data.size = a.size := rfl
  simp only [byteAt, ByteArray.data_extract, Array.getElem?_extract]
  by_cases hs : start + i < stop
  · by_cases ha : start + i < a.size
    · rw [if_pos (by omega), if_pos hs]
    · rw [if_neg (by omega), if_pos hs, Array.getElem?_eq_none (by omega)]
  · rw [if_neg (by omega), if_neg hs]
    rfl

@[simp] theorem size_bytesOf (f : Nat → UInt8) (n : Nat) : (bytesOf f n).size = n := by
  simp [bytesOf, ByteArray.size]

theorem byteAt_bytesOf (f : Nat → UInt8) (n i : Nat) : byteAt (bytesOf f n) i = if i < n then f i else 0 := by
  simp only [byteAt, bytesOf, Array.getElem?_ofFn]
  split <;> rfl

theorem ext_byteAt {a b : ByteArray} (size : a.size = b.size) (h : ∀ i < a.size, byteAt a i = byteAt b i) :
    a = b := by
  apply ByteArray.ext_getElem size
  intro i hi hi'
  have key := h i hi
  have ha : i < a.data.size := hi
  have hb : i < b.data.size := hi'
  rw [byteAt, byteAt, Array.getElem?_eq_getElem ha, Array.getElem?_eq_getElem hb] at key
  exact key

@[simp] theorem size_splice (old data : ByteArray) (offset : Nat) :
    (splice old data offset).size = max old.size (offset + data.size) := by
  simp only [splice, ByteArray.size_append, ByteArray.size_extract, size_zeros]
  omega

theorem byteAt_splice (old data : ByteArray) (offset i : Nat) :
    byteAt (splice old data offset) i =
      if offset ≤ i ∧ i < offset + data.size then byteAt data (i - offset) else byteAt old i := by
  have gap : (old.extract 0 offset ++ zeros (offset - old.size)).size = offset := by
    simp only [ByteArray.size_append, ByteArray.size_extract, size_zeros]
    omega
  have front (j : Nat) (h : j < offset) :
      byteAt (old.extract 0 offset ++ zeros (offset - old.size)) j = byteAt old j := by
    rw [byteAt_append, byteAt_extract, byteAt_zeros]
    split
    · rw [Nat.zero_add, if_pos h]
    · rename_i far
      rw [ByteArray.size_extract] at far
      exact (byteAt_of_size_le (by omega)).symm
  rw [splice, byteAt_append, ByteArray.size_append, gap]
  by_cases before : i < offset
  · rw [if_pos (by omega), byteAt_append, gap, if_pos before, front i before, if_neg (by omega)]
  · by_cases inside : i < offset + data.size
    · rw [if_pos inside, byteAt_append, gap, if_neg before, if_pos (by omega)]
    · rw [if_neg inside, if_neg (by omega), byteAt_extract]
      have same : offset + data.size + (i - (offset + data.size)) = i := by omega
      rw [same]
      split
      · rfl
      · exact (byteAt_of_size_le (by omega)).symm

@[simp] theorem size_resized (old : ByteArray) (n : Nat) : (resized old n).size = n := by
  simp only [resized, ByteArray.size_append, ByteArray.size_extract, size_zeros]
  omega

theorem byteAt_resized (old : ByteArray) (n i : Nat) :
    byteAt (resized old n) i = if i < n then byteAt old i else 0 := by
  rw [resized, byteAt_append, byteAt_extract, byteAt_zeros, ByteArray.size_extract, Nat.zero_add]
  by_cases h : i < n
  · by_cases ho : i < old.size
    · rw [if_pos (by omega), if_pos h]
    · rw [if_neg (by omega), if_pos h, byteAt_of_size_le (by omega)]
  · rw [if_neg (by omega), if_neg h]

theorem Vector.get_set {α : Type} {n : Nat} (v : Vector α n) (i j : Fin n) (x : α) :
    (v.set i.val x i.isLt).get j = if j = i then x else v.get j := by
  change (v.set i.val x i.isLt)[j.val] = _
  simp only [Vector.getElem_set, Fin.ext_iff, eq_comm]
  rfl

theorem Vector.get_replicate {α : Type} {n : Nat} (x : α) (i : Fin n) : (Vector.replicate n x).get i = x :=
  Vector.getElem_replicate i.isLt

end RecordFs
