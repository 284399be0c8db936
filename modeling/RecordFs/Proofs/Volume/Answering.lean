import RecordFs.Proofs.Volume.Walking
import RecordFs.Volume.Attributes
import RecordFs.Volume.Content

/-! What is told of a sound store: the calls that only look give what its outline says. -/
namespace RecordFs
open Volume

namespace Outline

def attributes (o : Outline) (path : String) : Except Failure Attributes := do return .ofInode (← o.resolve path)

def listing (o : Outline) (path : String) : Except Failure Directory := do o.directory (← o.resolve path) path

def names (o : Outline) (path : String) : Except Failure (List String) := do
  return "." :: ".." :: (← o.listing path).occupied.map (·.name)

def entries (o : Outline) (path : String) : Except Failure (List Entry) := do
  (← o.listing path).occupied.mapM fun slot => do
    return ⟨slot.name, .ofInode (← load (o.inode slot.child) slot.child)⟩

def resolveFile (o : Outline) (path : String) : Except Failure Inode := do
  let inode ← o.resolve path
  if inode.isDirectory then .error (.isADirectory path) else .ok inode

def read (o : Outline) (path : String) (offset length : Nat) : Except Failure ByteArray := do
  let inode ← o.resolveFile path
  let view ← load (o.content inode.data) inode.data
  return bytesOf (fun i => view (offset + i)) (min length (inode.size.toNat - offset))

theorem resolve_eq_ok {o : Outline} {path : String} {i : Inode} :
    o.resolve path = .ok i ↔ Path.check path = .ok () ∧ o.walk path (Path.segments path) = .ok i := by
  rw [resolve, bind_eq_ok]
  exact ⟨fun ⟨_, h⟩ => h, fun h => ⟨(), h⟩⟩

theorem resolveFile_eq_ok {o : Outline} {path : String} {i : Inode} :
    o.resolveFile path = .ok i ↔ o.resolve path = .ok i ∧ i.isDirectory = false := by
  simp only [resolveFile, bind_eq_ok, ite_error_eq_ok, Except.ok.injEq, Bool.not_eq_true]
  constructor
  · rintro ⟨_, resolved, file, rfl⟩
    exact ⟨resolved, file⟩
  · rintro ⟨resolved, file⟩
    exact ⟨i, resolved, file, rfl⟩

theorem walk_of_resolveFile {o : Outline} {path : String} {i : Inode} (ok : o.resolveFile path = .ok i) :
    o.walk path (Path.segments path) = .ok i := (resolve_eq_ok.mp (resolveFile_eq_ok.mp ok).1).2

theorem attributes_eq_ok {o : Outline} {path : String} {a : Attributes} :
    o.attributes path = .ok a ↔ ∃ i, o.resolve path = .ok i ∧ .ofInode i = a := by
  rw [attributes, bind_eq_ok]
  exact exists_congr fun i => and_congr Iff.rfl (Except.ok.injEq ..).to_iff

theorem read_eq_ok {o : Outline} {path : String} {offset length : Nat} {bytes : ByteArray} :
    o.read path offset length = .ok bytes ↔ ∃ i view, o.resolveFile path = .ok i ∧ o.content i.data = some view ∧
      bytesOf (fun n => view (offset + n)) (min length (i.size.toNat - offset)) = bytes := by
  simp only [read, bind_eq_ok, load_eq_ok]
  constructor
  · rintro ⟨i, found, view, content, same⟩
    cases same
    exact ⟨i, view, found, content, rfl⟩
  · rintro ⟨i, view, found, content, rfl⟩
    exact ⟨i, found, view, content, rfl⟩

theorem listing_eq_ok {o : Outline} {path : String} {d : Directory} :
    o.listing path = .ok d ↔ ∃ i, o.resolve path = .ok i ∧ i.isDirectory = true ∧ o.table i.data = some d := by
  simp only [listing, bind_eq_ok, directory_eq_ok]

theorem occupied_stored {o : Outline} (h : o.Sound) {id : Id} {d : Directory} (table : o.table id = some d)
    {slot : Slot} (member : slot ∈ d.occupied) : ∃ i, o.inode slot.child = some i := by
  obtain ⟨k, rfl, used⟩ := Directory.mem_occupied.mp member
  exact h.child id d k _ table (Directory.named?_eq_some.mpr ⟨used, rfl⟩)

theorem Sound.resolve_stored {o : Outline} (h : o.Sound) {path : String} {i : Inode} (ok : o.resolve path = .ok i) :
    o.inode i.self = some i :=
  h.walk_stored (resolve_eq_ok.mp ok).2

end Outline

theorem Yields.mapM {α β : Type} {faulty : Prop} {w : World} {f : α → Action β} {g : α → Except Failure β}
    (l : List α) (h : ∀ a ∈ l, Yields faulty (f a) w (g a)) : Yields faulty (l.mapM f) w (l.mapM g) := by
  induction l with
  | nil => exact .pure _
  | cons a l ih =>
    rw [List.mapM_cons, List.mapM_cons]
    refine .bind (h a List.mem_cons_self) fun b _ => .bind (ih fun c hc => h c (List.mem_cons_of_mem _ hc)) fun _ _ => ?_
    exact .pure _

namespace World.Sound
variable {faulty : Prop} {w : World} (h : w.Sound) (path : String)
include h

theorem yields_attributes : Yields faulty (attributes path) w (w.outline.attributes path) :=
  .bind (h.yields_resolve path) fun _ _ => .pure _

theorem yields_table : Yields faulty (Volume.table path) w (w.outline.listing path) :=
  .bind (h.yields_resolve path) fun _ ok => h.yields_directory (h.outline.resolve_stored ok)

theorem yields_names : Yields faulty (names path) w (w.outline.names path) :=
  .bind (h.yields_table path) fun _ _ => .pure _

theorem yields_entries : Yields faulty (entries path) w (w.outline.entries path) := by
  refine .bind (h.yields_table path) fun d ok => .mapM _ fun slot member => ?_
  obtain ⟨_, _, _, stored⟩ := Outline.listing_eq_ok.mp ok
  obtain ⟨i, inode⟩ := Outline.occupied_stored h.outline stored member
  rw [inode]
  exact .bind_ok (Store.yields_load inode) (.pure _)

theorem yields_resolveFile : Yields faulty (resolveFile path) w (w.outline.resolveFile path) := by
  refine .bind (h.yields_resolve path) fun i _ => ?_
  split
  · exact .throw _
  · exact .pure _

theorem yields_read (offset : UInt64) (length : Nat) :
    Yields faulty (read path offset length) w (w.outline.read path offset.toNat length) := by
  refine .bind (h.yields_resolveFile path) fun i ok => ?_
  obtain ⟨resolved, file⟩ := Outline.resolveFile_eq_ok.mp ok
  have inode := h.outline.resolve_stored resolved
  obtain ⟨m, map⟩ : ∃ m, w.get BlockMap i.data = some m := by
    have data := h.data_suited inode
    rwa [file, if_neg Bool.false_ne_true] at data
  have bound := (h.inode _ _ inode).size file
  have content : w.outline.content i.data = some ((w.layout m).view w) := by
    rw [outline_content, World.content, map, Option.map_some]
  rw [content]
  by_cases past : i.size ≤ offset
  · rw [if_pos past]
    have none : min length (i.size.toNat - offset.toNat) = 0 := by
      have := UInt64.le_iff_toNat_le.mp past
      omega
    simp only [Outline.load, none]
    exact .pure _
  · rw [if_neg past]
    have before : offset.toNat < i.size.toNat := by
      rw [UInt64.le_iff_toNat_le] at past
      omega
    refine .bind_ok (Store.yields_load map) ?_
    have count : min (min (offset.toNat + (min (min (offset.toNat + length) Content.countMax) i.size.toNat -
        offset.toNat)) Content.countMax) maxFileSize - offset.toNat = min length (i.size.toNat - offset.toNat) := by
      have : maxFileSize < Content.countMax := by decide
      omega
    rw [← count]
    exact Content.yields_read (h.held map) offset.toNat _

end World.Sound
end RecordFs
