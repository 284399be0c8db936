import RecordFs.Proofs.Volume.Paths

/-! The files of an outline, as bytes by path, and what a change of one record does to them. -/
namespace RecordFs.Outline
open Function

variable {o o' : Outline} {path name : String} {i j dir b : Inode} {d : Directory} {place segments : List String}
  {k : Fin dirEntries} {id : Id} {view : Nat → UInt8}

theorem child_congr_path {other : String} (ok : o.child path dir name = .ok i) : o.child other dir name = .ok i := by
  obtain ⟨d, id, listed, found, stored⟩ := child_eq_ok.mp ok
  exact child_eq_ok.mpr ⟨d, id, directory_eq_ok.mpr (directory_eq_ok.mp listed), found, stored⟩

/-- Where a walk comes to does not depend on what it is told to blame. -/
theorem walk_congr_path (other : String) (ok : o.walk path segments = .ok i) : o.walk other segments = .ok i := by
  induction segments using List.reverseRecOn generalizing i with
  | nil =>
    rw [walk_nil, start_eq_ok] at ok ⊢
    exact ok
  | append_singleton segments name ih =>
    rw [walk_snoc, bind_eq_ok] at ok ⊢
    obtain ⟨a, walked, child⟩ := ok
    exact ⟨a, ih walked, child_congr_path child⟩

/-- The bytes of the file at the end of these segments. -/
def file? (o : Outline) (segments : List String) : Option ByteArray :=
  match o.walk "" segments with
  | .ok i => if i.isDirectory then none else (o.content i.data).map fun view => bytesOf view i.size.toNat
  | .error _ => none

theorem file?_of_walk (found : o.walk path segments = .ok i) : o.file? segments =
    if i.isDirectory then none else (o.content i.data).map fun view => bytesOf view i.size.toNat := by
  rw [file?, walk_congr_path "" found]

theorem file?_of_error {e : Failure} (lost : o.walk path segments = .error e) : o.file? segments = none := by
  rw [file?]
  cases walked : o.walk "" segments with
  | ok i =>
    rw [walk_congr_path path walked] at lost
    cases lost
  | error e => rfl

theorem file?_eq_some (path : String) {c : ByteArray} : o.file? segments = some c ↔ ∃ i view,
    o.walk path segments = .ok i ∧ i.isDirectory = false ∧ o.content i.data = some view ∧ bytesOf view i.size.toNat = c := by
  constructor
  · intro here
    cases walked : o.walk path segments with
    | error e =>
      rw [file?_of_error walked] at here
      cases here
    | ok i =>
      rw [file?_of_walk walked] at here
      split at here
      · cases here
      · rename_i file
        obtain ⟨view, content, same⟩ := Option.map_eq_some_iff.mp here
        exact ⟨i, view, rfl, Bool.eq_false_iff.mpr file, content, same⟩
  · rintro ⟨i, view, walked, file, content, rfl⟩
    rw [file?_of_walk walked, file, content]
    rfl

theorem file?_congr (walk : o'.walk "" segments = o.walk "" segments) (content : o'.content = o.content) :
    o'.file? segments = o.file? segments := by
  rw [file?, file?, walk, content]

namespace Sound

/-- Only the size of a file matters to its bytes. -/
theorem file?_setInode (h : o.Sound) (found : o.walk path place = .ok i) (self : j.self = i.self) (data : j.data = i.data)
    (kind : j.isDirectory = i.isDirectory) (same : segments = place → i.isDirectory = true ∨ j.size = i.size) :
    (o.setInode j).file? segments = o.file? segments := by
  have found := walk_congr_path "" found
  have walk := h.walk_setInode found self data kind segments
  by_cases here : segments = place
  · rw [if_pos here] at walk
    rw [file?_of_walk walk, here, file?_of_walk found, kind, data]
    rcases same here with is | size
    · rw [if_pos is, if_pos is]
    · rw [size]
      rfl
  · exact file?_congr (walk.trans (if_neg here)) rfl

theorem file?_setContent_of_ne (h : o.Sound) (view : Nat → UInt8) (found : o.walk path place = .ok i) (other : segments ≠ place) :
    (o.setContent i.data view).file? segments = o.file? segments := by
  rw [file?, file?]
  change (match o.walk "" segments with | .ok i => _ | .error _ => none) = _
  cases walked : o.walk "" segments with
  | error e => rfl
  | ok a =>
    have apart : a.data ≠ i.data := fun same => other (h.walk_injective walked (walk_congr_path "" found)
      (h.unique_data _ _ _ _ (h.walk_stored walked) (h.walk_stored found) same))
    simp only [content_setContent_of_ne o view apart]

end Sound

namespace Sound

/-- Bytes that no entry has yet are the bytes of no file. -/
theorem file?_setContent_new (h : o.Sound) (new : ∀ x i, o.inode x = some i → i.data ≠ id) :
    (o.setContent id view).file? segments = o.file? segments := by
  rw [file?, file?]
  change (match o.walk "" segments with | .ok i => _ | .error _ => none) = _
  cases walked : o.walk "" segments with
  | error e => rfl
  | ok a => simp only [content_setContent_of_ne o view (new _ _ (h.walk_stored walked))]

/-- Nothing is lost with an entry that has nothing in it. -/
theorem file?_remove (h : o.Sound) (found : o.walk path place = .ok dir) (is : dir.isDirectory = true)
    (table : o.table dir.data = some d) (used : (d.slots.get k).isFree = false)
    (leaf : ∀ rest, rest ≠ [] → o.file? (place ++ [(d.slots.get k).name] ++ rest) = none)
    (other : segments ≠ place ++ [(d.slots.get k).name]) : (o.setTable (d.put k {})).file? segments = o.file? segments := by
  have walk := h.walk_remove (walk_congr_path "" found) is table used segments
  by_cases through : place ++ [(d.slots.get k).name] <+: segments
  · rw [if_pos through] at walk
    rw [file?_of_error walk]
    obtain ⟨rest, rfl⟩ := through
    exact (leaf rest fun empty => other (by rw [empty, List.append_nil])).symm
  · exact file?_congr (walk.trans (if_neg through)) rfl

/-- Behind a name that was free there was nothing. -/
theorem file?_insert (h : o.Sound) (found : o.walk path place = .ok dir) (is : dir.isDirectory = true)
    (table : o.table dir.data = some d) (free : (d.slots.get k).isFree = true) (entry : Path.Entry name)
    (new : d.find? name = none) (inode : o.inode b.self = some b)
    (bare : ∀ path y, (o.setTable (d.put k ⟨name, b.self⟩)).child path b y = .error (pastLeaf b path))
    (other : segments ≠ place ++ [name]) :
    (o.setTable (d.put k ⟨name, b.self⟩)).file? segments = o.file? segments := by
  have walk := h.walk_insert (walk_congr_path "" found) is table free entry new inode (bare "") segments
  rw [if_neg other] at walk
  by_cases through : place ++ [name] <+: segments
  · rw [if_pos through] at walk
    rw [file?_of_error walk]
    obtain ⟨rest, rfl⟩ := through
    have lost : o.walk "" (place ++ [name] ++ rest) = .error (.notFound "") := by
      rw [walk_append, walk_snoc, walk_congr_path "" found]
      change (o.child "" dir name >>= _) = _
      rw [child_of_table is table, new]
      rfl
    exact (file?_of_error lost).symm
  · exact file?_congr (walk.trans (if_neg through)) rfl

end Sound
end RecordFs.Outline
