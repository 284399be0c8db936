import Mathlib.Logic.Equiv.Basic
import RecordFs.Proofs.Record.Table
import RecordFs.Volume.Call

/-! Identifiers under other names. What records and answers say besides their identifiers stays the
same, and so does whatever is looked up by the name of an entry. -/
namespace RecordFs
open Volume

/-- Other names for all identifiers, but for the two that have a meaning of their own. -/
structure Renaming where
  perm : Equiv.Perm Id
  zero : perm .zero = .zero
  rootPointer : perm .rootPointer = .rootPointer

/-- Values that may have identifiers in them. -/
class Renames (α : Type) where
  rename : Renaming → α → α

export Renames (rename)

namespace Renames
variable {α β : Type}

instance : Renames Id := ⟨fun σ id => σ.perm id⟩

instance [Renames α] : Renames (Option α) := ⟨fun σ => Option.map (rename σ)⟩

instance [Renames α] : Renames (List α) := ⟨fun σ => List.map (rename σ)⟩

instance [Renames α] [Renames β] : Renames (α × β) := ⟨fun σ => Prod.map (rename σ) (rename σ)⟩

instance : Renames Unit := ⟨fun _ => id⟩

instance : Renames Bool := ⟨fun _ => id⟩

instance : Renames Nat := ⟨fun _ => id⟩

instance : Renames String := ⟨fun _ => id⟩

/-- Bytes that a file holds, not those of a record. -/
instance : Renames ByteArray := ⟨fun _ => id⟩

instance : Renames RootPointer := ⟨fun σ p => ⟨rename σ p.root⟩⟩

instance : Renames Inode := ⟨fun σ i => { i with self := rename σ i.self, data := rename σ i.data }⟩

instance : Renames Slot := ⟨fun σ s => { s with child := rename σ s.child }⟩

instance : Renames Directory := ⟨fun σ d => ⟨rename σ d.self, d.slots.map (rename σ)⟩⟩

instance : Renames Block := ⟨fun _ => id⟩

instance : Renames BlockMap := ⟨fun σ m => ⟨m.direct.map (rename σ), rename σ m.indirect⟩⟩

instance : Renames IndirectMap := ⟨fun σ t => ⟨t.blocks.map (rename σ)⟩⟩

instance : Renames Root := ⟨fun σ r => ⟨rename σ r.key, rename σ r.inode⟩⟩

/-- Only a record that is missing is told by its key. -/
instance : Renames Failure where
  rename
    | σ, .store (.absent id) => .store (.absent (rename σ id))
    | _, e => e

instance : Renames Attributes := ⟨fun σ a => { a with id := rename σ a.id }⟩

instance : Renames Entry := ⟨fun σ e => { e with attributes := rename σ e.attributes }⟩

instance : Renames Answer where
  rename
    | σ, .attributes a => .attributes (rename σ a)
    | σ, .entries l => .entries (rename σ l)
    | _, answer => answer

/-- A reply under other names. -/
instance [Renames α] : Renames (Except Failure α) where
  rename
    | σ, .ok a => .ok (rename σ a)
    | σ, .error e => .error (rename σ e)

end Renames

namespace Renaming
variable (σ : Renaming)

@[simp] theorem rename_zero : rename σ Id.zero = .zero := σ.zero

@[simp] theorem rename_rootPointer : rename σ Id.rootPointer = .rootPointer := σ.rootPointer

@[simp] theorem rename_inj {a b : Id} : rename σ a = rename σ b ↔ a = b := σ.perm.injective.eq_iff

@[simp] theorem rename_eq_zero {a : Id} : rename σ a = .zero ↔ a = .zero := by
  have inj := rename_inj σ (a := a) (b := .zero)
  rwa [rename_zero] at inj

theorem direct_rename (m : BlockMap) (i : Fin directBlocks) :
    (rename σ m).direct.get i = rename σ (m.direct.get i) := Vector.getElem_map ..

theorem blocks_rename (t : IndirectMap) (i : Fin indirectBlocks) :
    (rename σ t).blocks.get i = rename σ (t.blocks.get i) := Vector.getElem_map ..

theorem slots_rename (d : Directory) (k : Fin dirEntries) : (rename σ d).slots.get k = rename σ (d.slots.get k) :=
  Vector.getElem_map ..

@[simp] theorem rename_emptyMap : rename σ BlockMap.empty = .empty := by
  change BlockMap.mk ((Vector.replicate directBlocks Id.zero).map (rename σ)) (rename σ Id.zero) = _
  rw [Vector.map_replicate, rename_zero]
  rfl

@[simp] theorem rename_emptyTable : rename σ IndirectMap.empty = .empty := by
  change IndirectMap.mk ((Vector.replicate indirectBlocks Id.zero).map (rename σ)) = _
  rw [Vector.map_replicate, rename_zero]
  rfl

theorem rename_setDirect (m : BlockMap) (i : Fin directBlocks) (id : Id) :
    rename σ { m with direct := m.direct.set i id i.isLt } =
      { rename σ m with direct := (rename σ m).direct.set i (rename σ id) i.isLt } :=
  congrArg (BlockMap.mk · _) Vector.map_set

theorem rename_setBlock (t : IndirectMap) (i : Fin indirectBlocks) (id : Id) :
    rename σ (IndirectMap.mk (t.blocks.set i id i.isLt)) = ⟨(rename σ t).blocks.set i (rename σ id) i.isLt⟩ :=
  congrArg IndirectMap.mk Vector.map_set

/-- A free slot has no identifier. -/
@[simp] theorem rename_free : rename σ ({} : Slot) = {} := congrArg (Slot.mk "") σ.zero

section directory
variable (d : Directory) (name : String) (child : Id)

@[simp] theorem find?_rename : (rename σ d).find? name = (d.find? name).map (rename σ) := by
  rw [Directory.find?, Directory.find?]
  split
  · rfl
  · change ((d.slots.map (rename σ)).find? _).map _ = _
    rw [Vector.find?_map, Option.map_map, Option.map_map]
    rfl

theorem findFinIdx?_rename {p : Slot → Bool} (same : ∀ s, p (rename σ s) = p s) :
    (rename σ d).slots.findFinIdx? p = d.slots.findFinIdx? p := by
  refine Option.ext fun k => ?_
  rw [Directory.findFinIdx?_eq_some, Directory.findFinIdx?_eq_some]
  simp only [slots_rename, same]

theorem insert?_rename : (rename σ d).insert? name (rename σ child) =
    (d.insert? name child).map fun found => (found.1, rename σ found.2) := by
  rw [Directory.insert?, Directory.insert?, findFinIdx?_rename σ d fun _ => rfl, Option.map_map]
  refine congrArg (Option.map · _) (funext fun k => ?_)
  simp only [Function.comp_apply, rename, Vector.map_set]

theorem remove?_rename : (rename σ d).remove? name = (d.remove? name).map (rename σ) := by
  rw [Directory.remove?, Directory.remove?]
  split
  · rfl
  · rw [findFinIdx?_rename σ d fun _ => rfl, Option.map_map]
    refine congrArg (Option.map · _) (funext fun k => ?_)
    have child : (rename σ d).slots[k].child = rename σ d.slots[k].child :=
      congrArg Slot.child (slots_rename σ d k)
    have free : (d.slots.map (rename σ)).set k {} = (d.slots.set k {}).map (rename σ) := by
      rw [Vector.map_set, rename_free]
    exact Prod.ext child (congrArg (Directory.mk (rename σ d.self)) free)

theorem occupied_rename : (rename σ d).occupied = d.occupied.map (rename σ) := by
  change ((d.slots.map (rename σ)).toList.filter _) = _
  rw [Vector.toList_map, List.filter_map]
  rfl

@[simp] theorem count_rename : (rename σ d).count = d.count := by
  rw [Directory.count, occupied_rename, List.length_map, Directory.count]

@[simp] theorem isEmpty_rename : (rename σ d).isEmpty = d.isEmpty := by
  rw [Directory.isEmpty, occupied_rename, List.isEmpty_map, Directory.isEmpty]

@[simp] theorem rename_empty (id : Id) : rename σ (Directory.empty id) = .empty (rename σ id) := by
  change Directory.mk (rename σ id) ((Vector.replicate dirEntries ({} : Slot)).map (rename σ)) = _
  rw [Vector.map_replicate, rename_free]
  rfl

end directory
end Renaming
end RecordFs
