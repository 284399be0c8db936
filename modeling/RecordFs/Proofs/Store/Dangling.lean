import RecordFs.Proofs.Store.WriteOnce

/-! References that lead nowhere. Puts that refer to nothing but what is stored when they are made leave no
such reference at any moment that was not there at the start. -/
namespace RecordFs
open Function Stored

/-- The bytes are those of a map or of an indirect map that has this identifier in it. -/
def Refers (bytes : ByteArray) (id : Id) : Prop :=
  (∃ m, read BlockMap bytes = .ok m ∧ (m.indirect = id ∨ ∃ i, m.direct.get i = id)) ∨
    ∃ t, read IndirectMap bytes = .ok t ∧ ∃ i, t.blocks.get i = id

/-- Under the key stands a map with an identifier under which nothing is stored. -/
def Dangles (find : Id → Option ByteArray) (key id : Id) : Prop :=
  id ≠ .zero ∧ find id = none ∧ ∃ bytes, find key = some bytes ∧ Refers bytes id

/-- What the bytes refer to is stored. -/
def Grounded (find : Id → Option ByteArray) (bytes : ByteArray) : Prop :=
  ∀ id, id ≠ .zero → Refers bytes id → (find id).isSome

/-- Puts that refer only to what is stored when they are made. -/
def AllGrounded : (Id → Option ByteArray) → List (Id × ByteArray) → Prop
  | _, [] => True
  | find, put :: rest => Grounded find put.2 ∧ AllGrounded (update find put.1 (some put.2)) rest

variable {find : Id → Option ByteArray} {puts rest : List (Id × ByteArray)} {key id : Id} {bytes : ByteArray}

/-- What is stored stays stored, and what is put is. -/
theorem isSome_putAll (stored : (find id).isSome ∨ id ∈ puts.map (·.1)) : (putAll find puts id).isSome := by
  induction puts generalizing find with
  | nil => exact stored.resolve_right nofun
  | cons put puts ih =>
    refine @ih (update find put.1 (some put.2)) ?_
    by_cases here : id = put.1
    · rw [here, update_self]
      exact .inl rfl
    · rw [update_of_ne here]
      exact stored.imp_right fun member => (List.mem_cons.mp member).resolve_left here

theorem putAll_of_not_mem (unput : id ∉ puts.map (·.1)) : putAll find puts id = find id := by
  induction puts generalizing find with
  | nil => rfl
  | cons put puts ih =>
    obtain ⟨other, rest⟩ := not_or.mp (mt List.mem_cons.mpr unput)
    refine (@ih (update find put.1 (some put.2)) rest).trans ?_
    rw [update_of_ne other]

theorem Grounded.dangles (h : Grounded find bytes) {put : Id} (dangles : Dangles (update find put (some bytes)) key id) :
    Dangles find key id ∧ key ≠ put := by
  obtain ⟨nonzero, nothing, old, found, refers⟩ := dangles
  have other : id ≠ put := by
    rintro rfl
    rw [update_self] at nothing
    cases nothing
  rw [update_of_ne other] at nothing
  by_cases same : key = put
  · rw [same, update_self, Option.some_inj] at found
    have stored := h id nonzero (found ▸ refers)
    rw [nothing] at stored
    cases stored
  · rw [update_of_ne same] at found
    exact ⟨⟨nonzero, nothing, old, found, refers⟩, same⟩

namespace AllGrounded

theorem append_iff : AllGrounded find (puts ++ rest) ↔ AllGrounded find puts ∧ AllGrounded (putAll find puts) rest := by
  induction puts generalizing find with
  | nil => exact ⟨fun h => ⟨trivial, h⟩, And.right⟩
  | cons put puts ih => exact (and_congr_right fun _ => ih).trans and_assoc.symm

/-- What leads nowhere after the puts did so before, and it is not in what was put. -/
theorem dangles (h : AllGrounded find puts) (dangles : Dangles (putAll find puts) key id) :
    Dangles find key id ∧ key ∉ puts.map (·.1) := by
  induction puts generalizing find with
  | nil => exact ⟨dangles, nofun⟩
  | cons put puts ih =>
    obtain ⟨earlier, unput⟩ := ih h.2 dangles
    obtain ⟨first, other⟩ := h.1.dangles earlier
    exact ⟨first, mt List.mem_cons.mp (not_or.mpr ⟨other, unput⟩)⟩

/-- Bytes that refer to nothing need nothing. -/
theorem of_not_refers (none : ∀ put ∈ puts, ∀ id, ¬ Refers put.2 id) : AllGrounded find puts := by
  induction puts generalizing find with
  | nil => trivial
  | cons put puts ih =>
    refine ⟨fun id _ refers => absurd refers (none put (List.mem_cons_self ..) id), ih fun later member => ?_⟩
    exact none later (List.mem_cons_of_mem _ member)

end AllGrounded

section encoded
variable {ρ σ : Type} [Stored ρ] [Stored σ]

theorem read_encode_ne_ok [Sized ρ] {r : ρ} (different : kind σ ≠ kind ρ) {x : σ} : read σ (encode r) ≠ .ok x := by
  intro same
  have none := read_encode_of_kind_ne r different
  rw [same] at none
  cases none

theorem not_refers_block (b : Block) : ¬ Refers (encode b) id := by
  rintro (⟨m, read, _⟩ | ⟨t, read, _⟩)
  · exact read_encode_ne_ok (by decide) read
  · exact read_encode_ne_ok (by decide) read

theorem refers_map {m : BlockMap} : Refers (encode m) id ↔ m.indirect = id ∨ ∃ i, m.direct.get i = id := by
  have back : read BlockMap (encode m) = .ok m := Exact.reads_back m
  constructor
  · rintro (⟨m', read, refers⟩ | ⟨t, read, _⟩)
    · cases back.symm.trans read
      exact refers
    · exact absurd read (read_encode_ne_ok (by decide))
  · exact fun refers => .inl ⟨m, back, refers⟩

theorem refers_table {t : IndirectMap} : Refers (encode t) id ↔ ∃ i, t.blocks.get i = id := by
  have back : read IndirectMap (encode t) = .ok t := Exact.reads_back t
  constructor
  · rintro (⟨m, read, _⟩ | ⟨t', read, refers⟩)
    · exact absurd read (read_encode_ne_ok (by decide))
    · cases back.symm.trans read
      exact refers
  · exact fun refers => .inr ⟨t, back, refers⟩

end encoded
end RecordFs
