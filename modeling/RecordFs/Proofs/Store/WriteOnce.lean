import Mathlib.Data.List.Pairwise
import RecordFs.Content.Mapping
import RecordFs.Proofs.Record.Succession
import RecordFs.Proofs.Store.World

/-! Stores in which references are written once. Where every put is admitted by what is stored at that
moment, a key keeps its kind of record, and what a record refers to stays, along all the puts. -/
namespace RecordFs
open Function Stored

/-- The bytes are those of a record that may be put under the key. The root pointer's key is for a root pointer. -/
structure Admits (find : Id → Option ByteArray) (id : Id) (bytes : ByteArray) : Prop where
  record : ∃ κ : Kind, bytes.size = κ.size
  first : find id = none → id = .rootPointer → bytes.size = Kind.rootPointer.size
  later : ∀ old, find id = some old → Succeeds old bytes

/-- What is stored after these puts. -/
def putAll (find : Id → Option ByteArray) (puts : List (Id × ByteArray)) : Id → Option ByteArray :=
  puts.foldl (fun find put => update find put.1 (some put.2)) find

/-- Puts of which each is admitted by what is stored before it. -/
def Admitted : (Id → Option ByteArray) → List (Id × ByteArray) → Prop
  | _, [] => True
  | find, put :: rest => Admits find put.1 put.2 ∧ Admitted (update find put.1 (some put.2)) rest

/-- The file whose map is stored under `map` has the block `x` at index `k`. -/
def Links (find : Id → Option ByteArray) (map : Id) (k : Fin maxBlocks) (x : Id) : Prop :=
  ∃ bytes m, find map = some bytes ∧ Stored.read BlockMap bytes = .ok m ∧
    match Content.place k with
    | .inl i => m.direct.get i = x
    | .inr i => m.indirect ≠ .zero ∧
      ∃ bytes' t, find m.indirect = some bytes' ∧ Stored.read IndirectMap bytes' = .ok t ∧ t.blocks.get i = x

/-- What holds of the puts on an empty store, in the order in which they were made. -/
structure WriteOnce (puts : List (Id × ByteArray)) : Prop where
  /-- All that is ever stored under a key is of one kind. -/
  kind : ∀ id, ∃ κ : Kind, ∀ bytes, (id, bytes) ∈ puts → bytes.size = κ.size
  /-- An inode keeps its key, its data and its type. -/
  inode : puts.Pairwise fun x y => x.1 = y.1 →
    ∀ i j, Stored.read Inode x.2 = .ok i → Stored.read Inode y.2 = .ok j → i.Keeps j
  /-- A map keeps the blocks and the indirect map that it names. -/
  map : puts.Pairwise fun x y => x.1 = y.1 →
    ∀ m m', Stored.read BlockMap x.2 = .ok m → Stored.read BlockMap y.2 = .ok m' → m.Keeps m'
  /-- An indirect map keeps the blocks that it names. -/
  table : puts.Pairwise fun x y => x.1 = y.1 →
    ∀ t t', Stored.read IndirectMap x.2 = .ok t → Stored.read IndirectMap y.2 = .ok t' → t.Keeps t'
  /-- A block that was in a file at one moment is there at every later one. -/
  linked : ∀ now later, now <+: later → later <+: puts → ∀ map k x, x ≠ .zero →
    Links (putAll (fun _ => none) now) map k x → Links (putAll (fun _ => none) later) map k x
  /-- The record that names the root is put once at most. -/
  pointer : (puts.filter (·.1 = .rootPointer)).length ≤ 1

namespace Admitted
variable {find : Id → Option ByteArray} {puts rest : List (Id × ByteArray)} {id : Id} {old bytes : ByteArray}

theorem of_append (h : Admitted find (puts ++ rest)) : Admitted find puts ∧ Admitted (putAll find puts) rest := by
  induction puts generalizing find with
  | nil => exact ⟨trivial, h⟩
  | cons put puts ih =>
    obtain ⟨first, rest⟩ := ih h.2
    exact ⟨⟨h.1, first⟩, rest⟩

/-- What is put under a key succeeds what was stored there at any time before. -/
theorem later (h : Admitted find puts) (found : find id = some old) (put : (id, bytes) ∈ puts) : Succeeds old bytes := by
  induction puts generalizing find old with
  | nil => cases put
  | cons next puts ih =>
    rcases List.mem_cons.mp put with rfl | put
    · exact h.1.later old found
    · by_cases here : id = next.1
      · subst here
        exact (h.1.later old found).trans (ih h.2 (update_self ..) put)
      · refine ih h.2 ?_ put
        rwa [update_of_ne here]

theorem pairwise (h : Admitted find puts) : puts.Pairwise fun x y => x.1 = y.1 → Succeeds x.2 y.2 := by
  induction puts generalizing find with
  | nil => exact .nil
  | cons put puts ih =>
    refine .cons (fun later member same => ?_) (ih h.2)
    obtain ⟨id, bytes⟩ := later
    cases same
    exact h.2.later (update_self ..) member

/-- What was stored is still there, or what succeeds it. -/
theorem kept (h : Admitted find puts) (found : find id = some old) :
    ∃ new, putAll find puts id = some new ∧ (new = old ∨ Succeeds old new) := by
  induction puts generalizing find old with
  | nil => exact ⟨old, found, .inl rfl⟩
  | cons put puts ih =>
    by_cases here : id = put.1
    · subst here
      have next := h.1.later old found
      obtain ⟨new, stored, same | later⟩ := ih h.2 (update_self ..)
      · exact ⟨new, stored, .inr (same ▸ next)⟩
      · exact ⟨new, stored, .inr (next.trans later)⟩
    · refine ih h.2 ?_
      exact (update_of_ne here ..).trans found

/-- A record that was stored is still one, with all that it has to keep. -/
theorem kept_record {κ : Kind} (replaced : κ ≠ .rootPointer) (other : κ ≠ .directory) {r : κ.Record} (h : Admitted find puts)
    (found : find id = some old) (read : Stored.read κ.Record old = .ok r) :
    ∃ new r', putAll find puts id = some new ∧ Stored.read κ.Record new = .ok r' ∧ κ.Keeps r r' := by
  obtain ⟨new, found', rfl | later⟩ := h.kept found
  · exact ⟨new, r, found', read, .refl replaced r⟩
  · obtain ⟨r', read'⟩ := later.read other read
    exact ⟨new, r', found', read', later.keeps κ r r' read read'⟩

theorem record (h : Admitted find puts) (put : (id, bytes) ∈ puts) : ∃ κ : Kind, bytes.size = κ.size := by
  induction puts generalizing find with
  | nil => cases put
  | cons next puts ih =>
    rcases List.mem_cons.mp put with rfl | put
    · exact h.1.record
    · exact ih h.2 put

/-- Under the root pointer's key there are root pointers only. -/
theorem size_pointer (h : Admitted find puts) (before : ∀ old, find .rootPointer = some old → old.size = Kind.rootPointer.size)
    (put : (.rootPointer, bytes) ∈ puts) : bytes.size = Kind.rootPointer.size := by
  induction puts generalizing find with
  | nil => cases put
  | cons next puts ih =>
    have now (first : next.1 = .rootPointer) : next.2.size = Kind.rootPointer.size := by
      cases found : find next.1 with
      | none => exact h.1.first found first
      | some old => exact (h.1.later old found).size.trans (before old (first ▸ found))
    rcases List.mem_cons.mp put with rfl | put
    · exact now rfl
    · refine ih h.2 (fun old found => ?_) put
      by_cases here : next.1 = .rootPointer
      · rw [here, update_self] at found
        cases found
        exact now here
      · rw [update_of_ne (Ne.symm here)] at found
        exact before old found

/-- A block stays in its file. -/
theorem links (h : Admitted find puts) {map x : Id} {k : Fin maxBlocks} (nonzero : x ≠ .zero) (linked : Links find map k x) :
    Links (putAll find puts) map k x := by
  obtain ⟨bytes, m, found, read, place⟩ := linked
  obtain ⟨bytes', m', found', read', keeps⟩ := h.kept_record (κ := .blockMap) nofun nofun found read
  refine ⟨bytes', m', found', read', ?_⟩
  cases at_ : Content.place k with
  | inl i =>
    simp only [at_] at place ⊢
    exact (keeps.direct i (place ▸ nonzero)).trans place
  | inr i =>
    simp only [at_] at place ⊢
    obtain ⟨named, bytes, t, table, readTable, here⟩ := place
    obtain ⟨new, t', table', readTable', keepsTable⟩ := h.kept_record (κ := .indirectMap) nofun nofun table readTable
    rw [keeps.indirect named]
    exact ⟨named, new, t', table', readTable', (keepsTable i (here ▸ nonzero)).trans here⟩

theorem writeOnce (h : Admitted (fun _ => none) puts) : WriteOnce puts where
  kind id := by
    have sizes : puts.Pairwise fun x y => x.1 = y.1 → y.2.size = x.2.size := h.pairwise.imp fun next same => (next same).size
    by_cases used : ∃ bytes, (id, bytes) ∈ puts
    · obtain ⟨bytes, put⟩ := used
      obtain ⟨κ, size⟩ := h.record put
      have symm : Std.Symm fun x y : Id × ByteArray => x.1 = y.1 → y.2.size = x.2.size :=
        ⟨fun _ _ agree same => (agree same.symm).symm⟩
      refine ⟨κ, fun other put' => ?_⟩
      exact (sizes.forall_of_forall (fun _ _ _ => rfl) put put' rfl).trans size
    · exact ⟨.inode, fun bytes put => absurd ⟨bytes, put⟩ used⟩
  inode := h.pairwise.imp fun next same => (next same).keeps .inode
  map := h.pairwise.imp fun next same => (next same).keeps .blockMap
  table := h.pairwise.imp fun next same => (next same).keeps .indirectMap
  linked now later before within map k x nonzero linked := by
    obtain ⟨between, rfl⟩ := before
    obtain ⟨after, rfl⟩ := within
    rw [List.append_assoc] at h
    have admitted := h.of_append.2.of_append.1
    rw [putAll, List.foldl_append]
    exact admitted.links nonzero linked
  pointer := by
    match twice : puts.filter (·.1 = .rootPointer) with
    | [] | [_] => simp [twice]
    | x :: y :: more =>
      have first {put : Id × ByteArray} (member : put ∈ x :: y :: more) : put.1 = .rootPointer ∧ put ∈ puts := by
        rw [← twice, List.mem_filter, decide_eq_true_eq] at member
        exact member.symm
      obtain ⟨keyx, putx⟩ := first List.mem_cons_self
      obtain ⟨keyy, -⟩ := first (List.mem_cons_of_mem x List.mem_cons_self)
      have pairs := h.pairwise.sublist (List.filter_sublist (p := fun put => put.1 = .rootPointer))
      rw [twice] at pairs
      have next := List.rel_of_pairwise_cons pairs List.mem_cons_self (keyx.trans keyy.symm)
      obtain ⟨id, bytes⟩ := x
      cases keyx
      exact absurd (h.size_pointer nofun putx) next.not_pointer

end Admitted
end RecordFs
