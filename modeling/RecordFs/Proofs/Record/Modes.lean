import RecordFs.Record.Inode

/-! Modes made of one of the two types and of permissions: both parts can be taken out again. -/
namespace RecordFs
open Mode

private theorem and_or (a b c : UInt32) : (a ||| b) &&& c = (a &&& c) ||| (b &&& c) :=
  UInt32.toBitVec_inj.mp BitVec.and_or_distrib_right

private theorem permissions_type (m : UInt32) : (m &&& permissionMask) &&& typeMask = 0 := by
  rw [UInt32.and_assoc, show permissionMask &&& typeMask = 0 from rfl]
  exact UInt32.and_zero

/-- The bits of a type. -/
def EntryKind.bits : EntryKind → UInt32
  | .directory => Mode.directory
  | .file => Mode.regular

private theorem bits_type (k : EntryKind) : k.bits &&& typeMask = k.bits := by cases k <;> rfl

private theorem bits_permissions (k : EntryKind) : k.bits &&& permissionMask = 0 := by cases k <;> rfl

theorem typed_type (k : EntryKind) (m : UInt32) : (k.bits ||| (m &&& permissionMask)) &&& typeMask = k.bits := by
  rw [and_or, bits_type, permissions_type]
  exact UInt32.or_zero

theorem typed_permissions (k : EntryKind) (m : UInt32) :
    (k.bits ||| (m &&& permissionMask)) &&& permissionMask = m &&& permissionMask := by
  rw [and_or, bits_permissions, UInt32.and_assoc, UInt32.and_self]
  exact UInt32.zero_or

namespace Inode
variable {i : Inode} {k : EntryKind} {m : UInt32}

theorem kind_of_mode (h : i.mode = k.bits ||| (m &&& permissionMask)) : i.kind = k := by
  rw [kind, h, typed_type]
  cases k <;> rfl

theorem permissions_of_mode (h : i.mode = k.bits ||| (m &&& permissionMask)) : i.permissions = m &&& permissionMask := by
  rw [permissions, h, typed_permissions]

/-- The mode is the type and the permissions, and nothing else. -/
def Typed (i : Inode) : Prop := i.mode = i.kind.bits ||| i.permissions

theorem typed_of_mode (h : i.mode = k.bits ||| (m &&& permissionMask)) : i.Typed := by
  rw [Typed, kind_of_mode h, permissions_of_mode h, h]

theorem isDirectory_iff : i.isDirectory = true ↔ i.kind = .directory := by
  rw [isDirectory, decide_eq_true_eq]

theorem kind_of_not_isDirectory (file : i.isDirectory = false) : i.kind = .file := by
  cases kind : i.kind with
  | file => rfl
  | directory =>
    rw [isDirectory_iff.mpr kind] at file
    cases file

theorem Typed.type (h : i.Typed) : i.mode &&& typeMask = i.kind.bits := by
  rw [h, permissions, typed_type]

end Inode
end RecordFs
