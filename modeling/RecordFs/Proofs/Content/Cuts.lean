import RecordFs.Content.Span

/-! The spans of a range follow one another without a gap, each within one block, and end where
the range ends. Reading, clearing and writing go along such a list. -/
namespace RecordFs

/-- Spans that cut `[pos, stop)` at the block boundaries, in order. -/
inductive Cuts (stop : Nat) : Nat → List Span → Prop where
  | nil {pos : Nat} : stop ≤ pos → Cuts stop pos []
  | cons {pos : Nat} {span : Span} {rest : List Span} :
      span.index * blockSize + span.start = pos → pos < stop →
      span.length = min (blockSize - span.start) (stop - pos) → span.start < blockSize →
      Cuts stop (pos + span.length) rest → Cuts stop pos (span :: rest)

/-- Some byte of the range is in the block. -/
def Meets (start stop : Nat) (k : Fin maxBlocks) : Prop := ∃ n, start ≤ n ∧ n < stop ∧ n / blockSize = k

/-- All bytes of the block are in the range. -/
def Covers (start stop : Nat) (k : Fin maxBlocks) : Prop := ∀ n, n / blockSize = k → start ≤ n ∧ n < stop

/-- The block that a position of a file lies in. -/
def blockIndex (n : Nat) (h : n < maxFileSize) : Fin maxBlocks :=
  ⟨n / blockSize, Nat.div_lt_of_lt_mul (by rwa [Nat.mul_comm])⟩

theorem Span.lt_blocksBelow_iff (i n : Nat) : i < blocksBelow n ↔ i * blockSize < n := by
  simp only [blocksBelow, blockSize]
  omega

/-- The part of block `i` in the range starts where the parts of earlier blocks end. -/
private theorem cuts_meets {start stop : Nat} (before : start < stop) (l : List Span) (i : Nat)
    (meets : ∀ k (hk : k < l.length), ∃ b, l[k] = Span.meet start stop ⟨i + k, b⟩)
    (last : Span.blocksBelow stop = i + l.length) (first : start < i * blockSize + blockSize) :
    Cuts stop (max start (i * blockSize)) l := by
  induction l generalizing i with
  | nil =>
    refine .nil ?_
    have := Span.lt_blocksBelow_iff i stop
    rw [last, List.length_nil] at this
    omega
  | cons span rest ih =>
    obtain ⟨b, hspan⟩ := meets 0 (Nat.zero_lt_succ _)
    change span = Span.meet start stop ⟨i, b⟩ at hspan
    have stride : (i + 1) * blockSize = i * blockSize + blockSize := Nat.succ_mul _ _
    have more : i * blockSize < stop := by
      rw [← Span.lt_blocksBelow_iff, last, List.length_cons]
      omega
    have rest_meets : ∀ k (hk : k < rest.length), ∃ b, rest[k] = Span.meet start stop ⟨i + 1 + k, b⟩ := by
      intro k hk
      obtain ⟨b, h⟩ := meets (k + 1) (Nat.succ_lt_succ hk)
      refine ⟨by omega, h.trans ?_⟩
      congr 2
      omega
    have tail := ih (i + 1) rest_meets (by rw [last, List.length_cons]; omega) (by omega)
    subst hspan
    have index : ((Span.meet start stop ⟨i, b⟩).index : Nat) = i := rfl
    have within : (Span.meet start stop ⟨i, b⟩).start = min (start - i * blockSize) blockSize := rfl
    have length : (Span.meet start stop ⟨i, b⟩).length =
        min stop ((i + 1) * blockSize) - max start (i * blockSize) := rfl
    have room : 0 < blockSize := by decide
    refine .cons (by rw [index, within]; omega) (by omega) (by rw [length, within]; omega) (by omega) ?_
    by_cases ends : stop ≤ (i + 1) * blockSize
    · -- The range ends in this block, so no span is left to say where it would start.
      cases tail with
      | nil => exact .nil (by omega)
      | cons _ more _ _ _ => omega
    · rw [show max start (i * blockSize) + (Span.meet start stop ⟨i, b⟩).length =
        max start ((i + 1) * blockSize) by omega]
      exact tail

theorem cuts_spans {start stop : Nat} (h : stop ≤ maxFileSize) : Cuts stop start (spans start stop h) := by
  unfold spans
  split
  · rename_i before
    have below := Nat.div_mul_le_self start blockSize
    have above : start < start / blockSize * blockSize + blockSize := Nat.lt_div_mul_add (by decide)
    have count : start / blockSize ≤ Span.blocksBelow stop := by
      have := (Span.lt_blocksBelow_iff (start / blockSize) stop).mpr (by omega)
      omega
    have cuts := cuts_meets before (List.ofFn fun k : Fin (Span.blocksBelow stop - start / blockSize) =>
      Span.meet start stop ⟨start / blockSize + k, by have := Span.blocksBelow_le h; omega⟩)
      (start / blockSize) (fun k hk => ⟨_, List.getElem_ofFn ..⟩) (by rw [List.length_ofFn]; omega) above
    rwa [Nat.max_eq_left below] at cuts
  · exact .nil (by omega)

namespace Cuts
variable {stop pos : Nat} {span : Span} {rest l : List Span}

theorem tail (h : Cuts stop pos (span :: rest)) : Cuts stop (pos + span.length) rest := by
  cases h
  assumption

theorem length_le (h : Cuts stop pos (span :: rest)) : pos + span.length ≤ stop := by
  cases h
  omega

/-- Where the bytes of the first span are. -/
theorem div_mod_add (h : Cuts stop pos (span :: rest)) {i : Nat} (hi : i < span.length) :
    (pos + i) / blockSize = span.index ∧ (pos + i) % blockSize = span.start + i := by
  have fits := span.fits
  cases h with
  | cons at_pos =>
    rw [← at_pos, Nat.add_assoc, Nat.mul_comm, Nat.mul_add_div (by decide), Nat.mul_add_mod,
      Nat.div_eq_of_lt (by omega), Nat.mod_eq_of_lt (by omega)]
    exact ⟨Nat.add_zero _, rfl⟩

theorem div_eq (h : Cuts stop pos (span :: rest)) {n : Nat} (low : pos ≤ n) (high : n < pos + span.length) :
    n / blockSize = span.index := by
  obtain ⟨i, rfl⟩ := Nat.exists_eq_add_of_le low
  exact (h.div_mod_add (by omega)).1

/-- A span ends where the range ends or where its block ends. -/
theorem aligned (h : Cuts stop pos (span :: rest)) : pos + span.length = stop ∨ blockSize ∣ pos + span.length := by
  cases h with
  | cons at_pos before length inside tail =>
    by_cases last : pos + span.length = stop
    · exact .inl last
    · have whole : pos + span.length = (span.index + 1) * blockSize := by
        rw [Nat.succ_mul]
        omega
      exact .inr (whole ▸ Nat.dvd_mul_left ..)

/-- In the block of the first span, the range is what that span is. -/
theorem mem_iff (h : Cuts stop pos (span :: rest)) {n : Nat} (here : n / blockSize = span.index) :
    pos ≤ n ∧ n < stop ↔ span.start ≤ n % blockSize ∧ n % blockSize < span.start + span.length := by
  cases h with
  | cons at_pos before length inside tail =>
    have split := Nat.div_add_mod n blockSize
    have small := Nat.mod_lt n (show blockSize > 0 by decide)
    rw [here, Nat.mul_comm] at split
    omega

/-- What is beyond the first span is in later blocks. -/
theorem lt_div (h : Cuts stop pos (span :: rest)) {n : Nat} (low : pos + span.length ≤ n) (high : n < stop) :
    span.index < n / blockSize := by
  cases h with
  | cons at_pos before length inside tail =>
    refine (Nat.le_div_iff_mul_le (by decide)).mpr ?_
    rw [Nat.succ_mul]
    omega

theorem length_pos (h : Cuts stop pos (span :: rest)) : 0 < span.length := by
  cases h
  omega

/-- There is a span for each block that the range meets. -/
theorem exists_index_iff (h : Cuts stop pos l) (k : Fin maxBlocks) : (∃ span ∈ l, span.index = k) ↔ Meets pos stop k := by
  induction l generalizing pos with
  | nil =>
    cases h with
    | nil done =>
      constructor
      · rintro ⟨_, ⟨⟩, _⟩
      · rintro ⟨n, low, high, _⟩
        omega
  | cons span rest ih =>
    have within := h.length_le
    constructor
    · rintro ⟨some, member, here⟩
      rcases List.mem_cons.mp member with rfl | member
      · have some := h.length_pos
        exact ⟨pos, Nat.le_refl _, by omega, (h.div_eq (Nat.le_refl _) (by omega)).trans (congrArg Fin.val here)⟩
      · obtain ⟨n, low, high, here⟩ := (ih h.tail).mp ⟨some, member, here⟩
        exact ⟨n, by omega, high, here⟩
    · rintro ⟨n, low, high, here⟩
      by_cases first : n < pos + span.length
      · exact ⟨span, List.mem_cons_self .., Fin.ext ((h.div_eq low first).symm.trans here)⟩
      · obtain ⟨some, member, same⟩ := (ih h.tail).mpr ⟨n, by omega, high, here⟩
        exact ⟨some, List.mem_cons_of_mem _ member, same⟩

/-- Spans are about one block after the other. -/
theorem sorted (h : Cuts stop pos l) : l.Pairwise (·.index < ·.index) := by
  induction l generalizing pos with
  | nil => exact .nil
  | cons span rest ih =>
    refine .cons (fun later member => ?_) (ih h.tail)
    obtain ⟨n, low, high, here⟩ := (h.tail.exists_index_iff _).mp ⟨later, member, rfl⟩
    have lt := h.lt_div low high
    rwa [here] at lt

/-- A span has all of its block when the range covers that. -/
theorem length_eq_iff (h : Cuts stop pos l) (member : span ∈ l) : span.length = blockSize ↔ Covers pos stop span.index := by
  induction l generalizing pos with
  | nil => cases member
  | cons first rest ih =>
    rcases List.mem_cons.mp member with rfl | later
    · have fits := span.fits
      constructor
      · intro whole n here
        have inside := Nat.mod_lt n (show blockSize > 0 by decide)
        exact (h.mem_iff here).mpr (by omega)
      · intro covers
        -- The first and the last byte of the block are in the range.
        have byte {r : Nat} (inside : r < blockSize) : span.start ≤ r ∧ r < span.start + span.length := by
          have here : (blockSize * span.index + r) / blockSize = span.index := by
            rw [Nat.mul_add_div (by decide), Nat.div_eq_of_lt inside, Nat.add_zero]
          have within := (h.mem_iff here).mp (covers _ here)
          rwa [Nat.mul_add_mod, Nat.mod_eq_of_lt inside] at within
        have low := byte (show 0 < blockSize by decide)
        have high := byte (show blockSize - 1 < blockSize by decide)
        omega
    · rw [ih h.tail later]
      have lt := (List.pairwise_cons.mp h.sorted).1 span later
      have beyond {n : Nat} (here : n / blockSize = span.index) (low : pos ≤ n) : pos + first.length ≤ n := by
        refine Nat.not_lt.mp fun before => ?_
        exact absurd ((h.div_eq low (by omega)).symm.trans here) (Fin.val_ne_of_ne (Fin.ne_of_lt lt))
      constructor
      · intro covers n here
        have within := covers n here
        exact ⟨by omega, within.2⟩
      · intro covers n here
        have within := covers n here
        exact ⟨beyond here within.1, within.2⟩

end Cuts
end RecordFs
