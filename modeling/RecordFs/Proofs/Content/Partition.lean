import Mathlib.Data.List.Chain
import RecordFs.Proofs.Strict.Contents

/-! The spans of a range are a partition of it: they follow one another from its start to its end and
hold each of its bytes once. -/
namespace RecordFs

namespace Span

/-- Where a span begins in its file. -/
def first (span : Span) : Nat := span.index * blockSize + span.start

/-- Where a span ends in its file. -/
def past (span : Span) : Nat := span.first + span.length

/-- The span holds this byte of its file. -/
abbrev Holds (span : Span) (n : Nat) : Prop := span.first ≤ n ∧ n < span.past

/-- One span ends with its block, and the next begins with the block after it. -/
structure Follows (span next : Span) : Prop where
  adjoins : span.past = next.first
  index : next.index.val = span.index + 1
  ends : span.start + span.length = blockSize
  begins : next.start = 0

end Span

/-- The spans are the range from `start` to `stop`, cut where blocks end. -/
structure Partition (start stop : Nat) (l : List Span) : Prop where
  empty : l = [] ↔ stop ≤ start
  begins : ∀ span ∈ l.head?, span.first = start
  chain : l.IsChain Span.Follows
  ends : ∀ span ∈ l.getLast?, span.past = stop
  /-- Each byte of the range is held once, and no other byte. -/
  holds : ∀ n, l.countP (fun span => span.Holds n) = if start ≤ n ∧ n < stop then 1 else 0
  nonempty : ∀ span ∈ l, 1 ≤ span.length
  within : ∀ span ∈ l, span.start + span.length ≤ blockSize
  index : ∀ span ∈ l, span.index.val < maxBlocks

namespace Cuts
variable {stop pos : Nat} {span next : Span} {rest l : List Span}

theorem first_eq (h : Cuts stop pos (span :: rest)) : span.first = pos := by
  cases h
  assumption

theorem past_eq (h : Cuts stop pos (span :: rest)) : span.past = pos + span.length := by
  rw [Span.past, h.first_eq]

theorem eq_nil_iff (h : Cuts stop pos l) : l = [] ↔ stop ≤ pos := by
  cases h with
  | nil done => exact ⟨fun _ => done, fun _ => rfl⟩
  | cons _ before => exact ⟨nofun, fun done => absurd before (Nat.not_lt.mpr done)⟩

/-- The range goes on behind a span that is not the last one, so that span has the rest of its block. -/
theorem follows (h : Cuts stop pos (span :: next :: rest)) : span.Follows next := by
  have adjoins : span.past = next.first := h.past_eq.trans h.tail.first_eq.symm
  have more : pos + span.length < stop := Nat.not_le.mp (mt h.tail.eq_nil_iff.mpr (List.cons_ne_nil _ _))
  have ends : span.start + span.length = blockSize := by
    cases h
    omega
  have inside : next.start < blockSize := by
    cases h.tail
    assumption
  have whole : next.index * blockSize + next.start = (span.index + 1) * blockSize := by
    calc
      _ = span.index * blockSize + span.start + span.length := adjoins.symm
      _ = span.index * blockSize + blockSize := by rw [Nat.add_assoc, ends]
      _ = _ := (Nat.succ_mul ..).symm
  have begins : next.start = 0 := by
    have := congrArg (· % blockSize) whole
    simpa only [Nat.mul_add_mod', Nat.mul_mod_left, Nat.mod_eq_of_lt inside] using this
  rw [begins, Nat.add_zero] at whole
  exact ⟨adjoins, Nat.eq_of_mul_eq_mul_right (by decide) whole, ends, begins⟩

theorem chain (h : Cuts stop pos l) : l.IsChain Span.Follows := by
  induction l generalizing pos with
  | nil => exact .nil
  | cons span rest ih =>
    cases rest with
    | nil => exact .singleton span
    | cons next rest => exact .cons_cons h.follows (ih h.tail)

theorem past_getLast (h : Cuts stop pos l) : ∀ last ∈ l.getLast?, last.past = stop := by
  induction l generalizing pos with
  | nil => exact nofun
  | cons span rest ih =>
    cases rest with
    | nil =>
      rintro _ ⟨⟩
      have done := h.tail.eq_nil_iff.mp rfl
      exact h.past_eq.trans (Nat.le_antisymm h.length_le done)
    | cons next rest =>
      rw [List.getLast?_cons_cons]
      exact ih h.tail

theorem countP_holds (h : Cuts stop pos l) (n : Nat) :
    l.countP (fun span => span.Holds n) = if pos ≤ n ∧ n < stop then 1 else 0 := by
  induction l generalizing pos with
  | nil =>
    have done := h.eq_nil_iff.mp rfl
    rw [List.countP_nil, if_neg (by omega)]
  | cons span rest ih =>
    have within := h.length_le
    have here : decide (span.Holds n) = true ↔ pos ≤ n ∧ n < pos + span.length := by
      rw [decide_eq_true_eq, Span.Holds, h.past_eq, h.first_eq]
    rw [List.countP_cons, ih h.tail, if_congr here rfl rfl]
    -- The byte is in this span, behind it, or outside the range.
    split_ifs <;> omega

theorem length_pos_of_mem (h : Cuts stop pos l) : ∀ span ∈ l, 1 ≤ span.length := by
  induction l generalizing pos with
  | nil => exact nofun
  | cons span rest ih =>
    intro some member
    rcases List.mem_cons.mp member with rfl | later
    · exact h.length_pos
    · exact ih h.tail some later

theorem partition (h : Cuts stop pos l) : Partition pos stop l where
  empty := h.eq_nil_iff
  begins := by
    cases l with
    | nil => exact nofun
    | cons span rest =>
      rintro _ ⟨⟩
      exact h.first_eq
  chain := h.chain
  ends := h.past_getLast
  holds := h.countP_holds
  nonempty := h.length_pos_of_mem
  within span _ := span.fits
  index span _ := span.index.isLt

end Cuts

theorem length_spans_zero {stop : Nat} (fits : stop ≤ maxFileSize) : (spans 0 stop fits).length = blocksFor stop := by
  have all : blocksFor stop = Span.blocksBelow stop := Nat.min_eq_left (Span.blocksBelow_le fits)
  rw [spans, all]
  split
  · rw [List.length_ofFn, Nat.zero_div, Nat.sub_zero]
  · rename_i empty
    rw [Nat.eq_zero_of_not_pos empty]
    rfl

/-- No more blocks are counted than a file can have. -/
theorem blocksFor_min (size : Nat) : blocksFor (min size maxFileSize) = blocksFor size := by
  simp only [blocksFor, Span.blocksBelow, maxFileSize, maxBlocks, directBlocks, indirectBlocks, blockSize]
  omega

/-- Going along a range piece by piece, with every sum and difference checked, comes to its end, and the pieces are
the spans; they are a partition of the range. From the start of a file on there are as many as blocks are counted. -/
theorem spanLaws (start stop : Nat) (fits : stop ≤ maxFileSize) :
    Piece.cut start stop = .ok ((spans start stop fits).map Span.piece) ∧ Partition start stop (spans start stop fits) ∧
      (start = 0 → (spans start stop fits).length = blocksFor stop) ∧
      ∀ size, blocksFor size = (spans 0 (min size maxFileSize) (Nat.min_le_right _ _)).length := by
  refine ⟨Piece.cut_eq (cuts_spans fits) fits, (cuts_spans fits).partition, ?_, fun size => ?_⟩
  · rintro rfl
    exact length_spans_zero fits
  · rw [length_spans_zero, blocksFor_min]

/-- A range that begins with the last byte of a block and ends within the next but one. -/
theorem spanLaws_threeBlocks : 8195 ≤ maxFileSize ∧
    Piece.cut 4095 8195 = .ok [⟨0, 4095, 1⟩, ⟨1, 0, 4096⟩, ⟨2, 0, 3⟩] ∧
    Partition 4095 8195 (spans 4095 8195 (by decide)) :=
  have laws := spanLaws 4095 8195 (by decide)
  ⟨by decide, laws.1.trans (by rfl), laws.2.1⟩

end RecordFs
