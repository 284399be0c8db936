import RecordFs.Proofs.Record.Canonical

/-! Bytes that take the place of others under a key. They are a record of the same kind and keep what
the record before them refers to, so along any number of puts a reference that was once stored stays. -/
namespace RecordFs
open Stored

/-- What an inode is for good. -/
structure Inode.Keeps (i j : Inode) : Prop where
  self : j.self = i.self
  data : j.data = i.data
  type : j.mode &&& Mode.typeMask = i.mode &&& Mode.typeMask

/-- All that the one map names is named by the other one. -/
structure BlockMap.Keeps (m m' : BlockMap) : Prop where
  direct : ∀ k, m.direct.get k ≠ .zero → m'.direct.get k = m.direct.get k
  indirect : m.indirect ≠ .zero → m'.indirect = m.indirect

def IndirectMap.Keeps (t t' : IndirectMap) : Prop := ∀ k, t.blocks.get k ≠ .zero → t'.blocks.get k = t.blocks.get k

theorem Inode.Keeps.trans {i j k : Inode} (h : i.Keeps j) (h' : j.Keeps k) : i.Keeps k :=
  ⟨h'.self.trans h.self, h'.data.trans h.data, h'.type.trans h.type⟩

theorem BlockMap.Keeps.trans {a b c : BlockMap} (h : a.Keeps b) (h' : b.Keeps c) : a.Keeps c where
  direct k nonzero := by
    have same := h.direct k nonzero
    exact (h'.direct k (same ▸ nonzero)).trans same
  indirect nonzero := by
    have same := h.indirect nonzero
    exact (h'.indirect (same ▸ nonzero)).trans same

theorem IndirectMap.Keeps.trans {a b c : IndirectMap} (h : a.Keeps b) (h' : b.Keeps c) : a.Keeps c := by
  intro k nonzero
  have same := h k nonzero
  exact (h' k (same ▸ nonzero)).trans same

/-- What a record of the kind keeps when another one takes its place. A root pointer is never replaced, and
of tables and blocks nothing has to stay. -/
def Kind.Keeps : (κ : Kind) → κ.Record → κ.Record → Prop
  | rootPointer => fun _ _ => False
  | inode => Inode.Keeps
  | blockMap => BlockMap.Keeps
  | indirectMap => IndirectMap.Keeps
  | directory | dataBlock => fun _ _ => True

theorem Kind.Keeps.refl {κ : Kind} (replaced : κ ≠ .rootPointer) (r : κ.Record) : κ.Keeps r r := by
  cases κ with
  | rootPointer => exact absurd rfl replaced
  | inode => exact ⟨rfl, rfl, rfl⟩
  | blockMap => exact ⟨fun _ _ => rfl, fun _ => rfl⟩
  | indirectMap => exact fun _ _ => rfl
  | directory => trivial
  | dataBlock => trivial

theorem Kind.Keeps.trans {κ : Kind} {a b c : κ.Record} (h : κ.Keeps a b) (h' : κ.Keeps b c) : κ.Keeps a c := by
  cases κ with
  | rootPointer => exact h
  | inode => exact Inode.Keeps.trans h h'
  | blockMap => exact BlockMap.Keeps.trans h h'
  | indirectMap => exact IndirectMap.Keeps.trans h h'
  | directory => trivial
  | dataBlock => trivial

/-- Bytes that may take the place of others. -/
structure Succeeds (old new : ByteArray) : Prop where
  size : new.size = old.size
  keeps : ∀ (κ : Kind) (r r' : κ.Record), Stored.read κ.Record old = .ok r → Stored.read κ.Record new = .ok r' → κ.Keeps r r'

namespace Succeeds
variable {old new : ByteArray} {κ : Kind}

/-- A record as which the old bytes are read, the new ones are read as well. -/
theorem read (h : Succeeds old new) (other : κ ≠ .directory) {r : κ.Record}
    (stored : Stored.read κ.Record old = .ok r) : ∃ r', Stored.read κ.Record new = .ok r' := by
  have size := size_of_read stored
  rw [Kind.kind_record] at size
  obtain ⟨r', found, -⟩ := Kind.exists_record other (h.size.trans size)
  exact ⟨r', found⟩

theorem not_pointer (h : Succeeds old new) : old.size ≠ Kind.rootPointer.size := by
  intro size
  have other : Kind.rootPointer ≠ .directory := by decide
  obtain ⟨p, stored, -⟩ := Kind.exists_record other size
  obtain ⟨p', stored'⟩ := h.read other stored
  exact h.keeps .rootPointer p p' stored stored'

theorem trans {a b c : ByteArray} (h : Succeeds a b) (h' : Succeeds b c) : Succeeds a c where
  size := h'.size.trans h.size
  keeps κ r r'' first last := by
    by_cases table : κ = .directory
    · subst table
      trivial
    · obtain ⟨r', middle⟩ := h.read table first
      exact (h.keeps κ r r' first middle).trans (h'.keeps κ r' r'' middle last)

/-- A record of the same kind that keeps what it has to. -/
theorem of_keeps {r r' : κ.Record} (stored : Stored.read κ.Record old = .ok r) (keeps : κ.Keeps r r') :
    Succeeds old (encode r') := by
  have size := size_of_read stored
  rw [Kind.kind_record] at size
  refine ⟨(Kind.size_record r').trans size.symm, fun κ' a b first last => ?_⟩
  have size' := size_of_read first
  rw [Kind.kind_record] at size'
  obtain rfl := Kind.size_injective (size'.symm.trans size)
  by_cases table : κ' = .directory
  · subst table
    trivial
  · cases stored.symm.trans first
    cases (Kind.reads_back (Kind.fits_of_ne table r')).symm.trans last
    exact keeps

end Succeeds
end RecordFs
