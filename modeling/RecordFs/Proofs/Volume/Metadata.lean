import RecordFs.Proofs.Volume.Changing

/-! Calls that change an entry's metadata. They keep the key, the data, the type and the size. -/
namespace RecordFs
open Outline Volume

/-- A change of what an inode tells that keeps what it is. -/
structure Inode.Alike (i j : Inode) : Prop where
  self : j.self = i.self
  data : j.data = i.data
  kind : j.kind = i.kind
  typed : j.Typed
  size : j.size = i.size

namespace Inode
variable {i : Inode}

theorem alike_mode (mode : UInt32) (typed : i.Typed) :
    i.Alike { i with mode := (i.mode &&& Mode.typeMask) ||| (mode &&& Mode.permissionMask) } :=
  have bits : ({ i with mode := (i.mode &&& Mode.typeMask) ||| (mode &&& Mode.permissionMask) } : Inode).mode =
      i.kind.bits ||| (mode &&& Mode.permissionMask) := congrArg (· ||| _) typed.type
  ⟨rfl, rfl, kind_of_mode bits, typed_of_mode bits, rfl⟩

theorem alike_owner (uid gid : UInt32) (typed : i.Typed) : i.Alike { i with uid, gid } := ⟨rfl, rfl, rfl, typed, rfl⟩

theorem alike_times (atime mtime : Int64) (typed : i.Typed) : i.Alike { i with atime, mtime } :=
  ⟨rfl, rfl, rfl, typed, rfl⟩

theorem Alike.isDirectory {j : Inode} (alike : i.Alike j) : j.isDirectory = i.isDirectory := by
  rw [Inode.isDirectory, Inode.isDirectory, alike.kind]

theorem Alike.changed {j : Inode} (alike : i.Alike j) (now : Int64) : i.Alike { j with ctime := now } :=
  ⟨alike.self, alike.data, alike.kind, alike.typed, alike.size⟩

end Inode

namespace World
variable {faulty : Prop} {w : World} {i j : Inode}

theorem writable_inode (w : World) (i : Inode) (r : Root) (_ : w.cache = some r) (_ : r.key = i.self) :
    ∃ j, Stored.read Inode (Stored.encode i) = .ok j := ⟨i, Stored.Exact.reads_back i⟩

theorem writable_of_apart {ρ : Type} [Stored ρ] {id : Id} (apart : w.Apart id) (record : ρ) (r : Root)
    (cached : w.cache = some r) (same : r.key = id) : ∃ i, Stored.read Inode (Stored.encode record) = .ok i :=
  absurd same (apart r cached)

theorem Sound.save_alike (h : w.Sound) (stored : w.get Inode i.self = some i) (alike : i.Alike j) :
    (w.save j.self j).Sound ∧ (w.save j.self j).outline = w.outline.setInode j := by
  have stored' : w.get Inode j.self = some i := alike.self ▸ stored
  refine h.update_inode stored' alike.data alike.isDirectory ⟨rfl, alike.typed, fun file => ?_⟩
  rw [alike.size]
  exact (h.inode _ _ stored).size (alike.isDirectory ▸ file)

variable (now : Int64) (path : String)

theorem Sound.ensures_change (h : w.Sound) {f : Inode → Inode} (alike : ∀ i : Inode, i.Typed → i.Alike (f i)) :
    Ensures faulty (change path now f) w (Leaves (Follows faulty (w.outline.planChange now path f) w.outline)) := by
  refine h.follows_bind (h.yields_resolve path) fun i ok => ?_
  have stored := h.outline.resolve_stored ok
  have saved := h.save_alike stored ((alike i (h.inode _ _ stored).mode).changed now)
  rw [← bind_pure (Store.saveInode _)]
  refine (h.ensures_step (c := .inode { f i with ctime := now }) (writable_inode w _) saved.2 ?_).mono
    fun r w' ⟨sound, carried⟩ => ⟨sound, .just carried⟩
  exact ⟨saved.1, .done saved.1.outline⟩

theorem Sound.ensures_setMode (h : w.Sound) (mode : UInt32) :
    Ensures faulty (setMode now path mode) w (Leaves (Follows faulty (w.outline.planChange now path fun i =>
      { i with mode := (i.mode &&& Mode.typeMask) ||| (mode &&& Mode.permissionMask) }) w.outline)) :=
  h.ensures_change now path fun _ => Inode.alike_mode mode

theorem Sound.ensures_setOwner (h : w.Sound) (uid gid : Option UInt32) :
    Ensures faulty (setOwner now path uid gid) w (Leaves (Follows faulty (w.outline.planChange now path fun i =>
      { i with uid := uid.getD i.uid, gid := gid.getD i.gid }) w.outline)) :=
  h.ensures_change now path fun _ => Inode.alike_owner _ _

theorem Sound.ensures_setTimes (h : w.Sound) (atime mtime : Option Int64) :
    Ensures faulty (setTimes now path atime mtime) w (Leaves (Follows faulty (w.outline.planChange now path fun i =>
      { i with atime := atime.getD i.atime, mtime := mtime.getD i.mtime }) w.outline)) :=
  h.ensures_change now path fun _ => Inode.alike_times _ _

end World
end RecordFs
