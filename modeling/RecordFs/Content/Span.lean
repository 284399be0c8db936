import RecordFs.Geometry

/-! Ranges of a file cut at block boundaries. -/
namespace RecordFs

/-- A part of one block: `length` bytes of block `index`, from byte `start` of it on. -/
structure Span where
  index : Fin maxBlocks
  start : Nat
  length : Nat
  fits : start + length ≤ blockSize
  deriving DecidableEq, Repr

namespace Span

/-- The part of block `index` that lies in `[start, stop)`. -/
def meet (start stop : Nat) (index : Fin maxBlocks) : Span where
  index := index
  start := min (start - index * blockSize) blockSize
  length := min stop ((index + 1) * blockSize) - max start (index * blockSize)
  fits := by
    have : (index.val + 1) * blockSize = index.val * blockSize + blockSize := Nat.succ_mul _ _
    omega

/-- How many blocks hold the first `n` bytes. -/
def blocksBelow (n : Nat) : Nat := (n + blockSize - 1) / blockSize

theorem blocksBelow_le {n : Nat} (h : n ≤ maxFileSize) : blocksBelow n ≤ maxBlocks := by
  simp only [blocksBelow, maxFileSize, maxBlocks, directBlocks, indirectBlocks, blockSize] at *
  omega

end Span

/-- The spans that make up `[start, stop)`, in order. -/
def spans (start stop : Nat) (h : stop ≤ maxFileSize) : List Span :=
  if start < stop then
    List.ofFn fun k : Fin (Span.blocksBelow stop - start / blockSize) =>
      Span.meet start stop ⟨start / blockSize + k, by
        have := Span.blocksBelow_le h
        omega⟩
  else []

/-- Blocks that a file of this size takes, as far as there are so many. -/
def blocksFor (size : Nat) : Nat := min (Span.blocksBelow size) maxBlocks

end RecordFs
