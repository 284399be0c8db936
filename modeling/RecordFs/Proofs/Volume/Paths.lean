import Mathlib.Data.List.Induction
import RecordFs.Proofs.Volume.Planning

/-! Where paths lead, and what a change of one record does to that. In a sound outline no two paths
lead to one entry, so a change of an entry shows at its own path and nowhere else. -/
namespace RecordFs.Outline
open Function

variable {o : Outline} {path name : String} {a b i j dir : Inode} {d e : Directory} {place segments : List String}
  {k : Fin dirEntries}

@[simp] theorem walk_nil (o : Outline) (path : String) : o.walk path [] = o.start path := by
  rw [walk]
  cases o.start path <;> rfl

theorem walk_append (o : Outline) (path : String) (front back : List String) :
    o.walk path (front ++ back) = o.walk path front >>= back.foldlM (o.child path) := by
  rw [walk, walk, bind_assoc]
  exact bind_congr fun r => List.foldlM_append

/-- The last segment is looked up in the directory that the others lead to. -/
theorem walk_snoc (o : Outline) (path : String) (segments : List String) (name : String) :
    o.walk path (segments ++ [name]) = o.walk path segments >>= fun a => o.child path a name := by
  rw [walk_append]
  refine bind_congr fun a => ?_
  rw [List.foldlM_cons]
  cases o.child path a name <;> rfl

theorem child_of_table (is : dir.isDirectory = true) (table : o.table dir.data = some d) :
    o.child path dir name = match d.find? name with
      | some id => load (o.inode id) id
      | none => .error (.notFound path) := by
  rw [child, directory, if_pos is, table]
  rfl

theorem child_of_file (file : dir.isDirectory = false) : o.child path dir name = .error (.notADirectory path) := by
  rw [child, directory, file]
  rfl

/-- What a path past an entry with nothing in it comes to. -/
def pastLeaf (j : Inode) (path : String) : Failure := if j.isDirectory then .notFound path else .notADirectory path

theorem foldlM_leaf (bare : ∀ y, o.child path j y = .error (pastLeaf j path)) {rest : List String} (some : rest ≠ []) :
    rest.foldlM (o.child path) j = .error (pastLeaf j path) := by
  cases rest with
  | nil => exact absurd rfl some
  | cons y rest =>
    rw [List.foldlM_cons, bare]
    rfl

theorem bare_of_empty (h : ∀ d, j.isDirectory = true → o.table j.data = some d → ∀ y, d.find? y = none)
    (stored : j.isDirectory = true → ∃ d, o.table j.data = some d) (y : String) :
    o.child path j y = .error (pastLeaf j path) := by
  rw [pastLeaf]
  cases is : j.isDirectory with
  | false => exact child_of_file is
  | true =>
    obtain ⟨d, table⟩ := stored is
    rw [child_of_table is table, h d is table]
    rfl

namespace Sound

/-- What is found stands in a slot of the table of its directory. -/
theorem slot_of_child (h : o.Sound) (ok : o.child path dir name = .ok i) : dir.isDirectory = true ∧
    ∃ d k, o.table dir.data = some d ∧ (d.slots.get k).name = name ∧ d.named? k = some i.self := by
  obtain ⟨d, id, listed, found, stored⟩ := child_eq_ok.mp ok
  obtain ⟨is, table⟩ := directory_eq_ok.mp listed
  obtain ⟨k, used, named, here⟩ := Directory.exists_of_find? found
  have self := (h.inode _ _ stored).self
  exact ⟨is, d, k, table, named, Directory.named?_eq_some.mpr ⟨used, here.trans self.symm⟩⟩

/-- No two paths lead to one entry. -/
theorem walk_injective (h : o.Sound) {other : List String} (hi : o.walk path segments = .ok i)
    (hj : o.walk path other = .ok j) (same : i.self = j.self) : segments = other := by
  have root_apart {segments name i r} (start : o.root = some r) (ok : o.walk path (segments ++ [name]) = .ok i) :
      r.self ≠ i.self := by
    rw [walk_snoc, bind_eq_ok] at ok
    obtain ⟨dir, _, child⟩ := ok
    obtain ⟨_, d, k, table, _, named⟩ := h.slot_of_child child
    exact fun same => h.unnamed_root r _ d k start table (same ▸ named)
  induction segments using List.reverseRecOn generalizing i j other with
  | nil =>
    rw [walk_nil, start_eq_ok] at hi
    cases other using List.reverseRecOn with
    | nil => rfl
    | append_singleton other name => exact absurd same (root_apart hi hj)
  | append_singleton segments name ih =>
    cases other using List.reverseRecOn with
    | nil =>
      rw [walk_nil, start_eq_ok] at hj
      exact absurd same.symm (root_apart hj hi)
    | append_singleton other name' =>
      rw [walk_snoc, bind_eq_ok] at hi hj
      obtain ⟨a, ha, hi⟩ := hi
      obtain ⟨b, hb, hj⟩ := hj
      obtain ⟨_, d, k, table, named, here⟩ := h.slot_of_child hi
      obtain ⟨_, d', k', table', named', here'⟩ := h.slot_of_child hj
      obtain ⟨data, rfl⟩ := h.unique_child _ _ _ _ _ _ _ table table' here (same ▸ here')
      rw [data, table'] at table
      cases table
      have self := h.unique_data _ _ _ _ (h.walk_stored ha) (h.walk_stored hb) data
      rw [ih ha hb self, ← named, ← named']

section inode

/-- What stands in an outline after an inode of the same key was put in its place. -/
private theorem child_setInode (h : o.Sound) (stored : o.inode j.self = some i) (data : j.data = i.data)
    (kind : j.isDirectory = i.isDirectory) (here : o.inode a.self = some a) :
    (o.setInode j).child path (if a.self = j.self then j else a) name =
      (o.child path a name).map fun b => if b.self = j.self then j else b := by
  have tables : (o.setInode j).directory (if a.self = j.self then j else a) path = o.directory a path := by
    split
    · rename_i same
      rw [same, stored] at here
      cases here
      rw [Outline.directory, Outline.directory, data, kind]
      rfl
    · rfl
  rw [Outline.child, Outline.child, tables]
  cases listed : o.directory a path with
  | error e => rfl
  | ok d =>
    change (match d.find? name with | some id => _ | none => _) = Except.map _ (match d.find? name with | some id => _ | none => _)
    cases found : d.find? name with
    | none => rfl
    | some id =>
      obtain ⟨b, inode⟩ := h.child_of_find? (directory_eq_ok.mp listed).2 found
      have self := (h.inode _ _ inode).self
      simp only [setInode, inode, load, Except.map, self]
      by_cases same : id = j.self
      · rw [same, update_self, if_pos rfl]
      · rw [update_of_ne same, if_neg same, inode]

private theorem walk_setInode_map (h : o.Sound) (stored : o.inode j.self = some i) (data : j.data = i.data)
    (kind : j.isDirectory = i.isDirectory) (segments : List String) :
    (o.setInode j).walk path segments = (o.walk path segments).map fun b => if b.self = j.self then j else b := by
  induction segments using List.reverseRecOn with
  | nil =>
    rw [walk_nil, walk_nil, start, start, setInode]
    cases o.root <;> rfl
  | append_singleton segments name ih =>
    rw [walk_snoc, walk_snoc, ih]
    cases walked : o.walk path segments with
    | error e => rfl
    | ok a => exact h.child_setInode stored data kind (h.walk_stored walked)

/-- An entry changes, and its path leads to it still. -/
theorem walk_setInode (h : o.Sound) (found : o.walk path place = .ok i) (self : j.self = i.self) (data : j.data = i.data)
    (kind : j.isDirectory = i.isDirectory) (segments : List String) :
    (o.setInode j).walk path segments = if segments = place then .ok j else o.walk path segments := by
  have stored : o.inode j.self = some i := self ▸ h.walk_stored found
  rw [h.walk_setInode_map stored data kind]
  split
  · rename_i same
    rw [same, found]
    exact congrArg Except.ok (if_pos self.symm)
  · rename_i other
    cases walked : o.walk path segments with
    | error e => rfl
    | ok b => exact congrArg Except.ok (if_neg fun same => other (h.walk_injective walked found (same.trans self)))

end inode

/-- Where every directory on the way has the next name lead to the same as before, the path does. -/
theorem walk_of_child {o' : Outline} (h : o.Sound) (start : o'.start path = o.start path)
    (next : ∀ {front name a d}, front ++ [name] <+: segments → o.walk path front = .ok a → a.isDirectory = true →
      o.table a.data = some d → o'.child path a name = o.child path a name) :
    o'.walk path segments = o.walk path segments := by
  induction segments using List.reverseRecOn with
  | nil => rw [walk_nil, walk_nil, start]
  | append_singleton segments name ih =>
    rw [walk_snoc, walk_snoc, ih fun before => next (before.trans (List.prefix_append ..))]
    cases walked : o.walk path segments with
    | error e => rfl
    | ok a =>
      change o'.child path a name = o.child path a name
      cases is : a.isDirectory with
      | false => rw [child_of_file is, child_of_file is]
      | true =>
        obtain ⟨d, table⟩ := h.directory _ _ (h.walk_stored walked) is
        exact next List.prefix_rfl walked is table

section new

/-- An inode that nothing names yet is on no path. -/
theorem walk_setInode_new (h : o.Sound) (new : o.inode j.self = none) (segments : List String) :
    (o.setInode j).walk path segments = o.walk path segments := by
  have other {id : Id} {i : Inode} (stored : o.inode id = some i) : id ≠ j.self := by
    rintro rfl
    rw [new] at stored
    cases stored
  apply h.walk_of_child
  · rw [start, start, setInode]
    cases root : o.root with
    | none => rfl
    | some r => simp only [Option.map_some, if_neg (other (h.root r root).1)]
  · intro _ name a d _ _ is table
    have kept : (o.setInode j).table a.data = some d := table
    rw [child_of_table is table, child_of_table is kept]
    cases found : d.find? name with
    | none => rfl
    | some id =>
      obtain ⟨b, inode⟩ := h.child_of_find? table found
      simp only [setInode, update_of_ne (other inode)]

/-- So is a table. -/
theorem walk_setTable_new (h : o.Sound) (new : o.table d.self = none) (segments : List String) :
    (o.setTable d).walk path segments = o.walk path segments := by
  refine h.walk_of_child rfl fun {_ _ a e} _ _ is table => ?_
  have other : a.data ≠ d.self := by
    intro same
    rw [same, new] at table
    cases table
  have kept : (o.setTable d).table a.data = some e := (update_of_ne other ..).trans table
  rw [child_of_table is table, child_of_table is kept]
  rfl

end new

section table
variable (h : o.Sound) (found : o.walk path place = .ok dir) (table : o.table dir.data = some d)
  (self : e.self = dir.data)
include h found table self

/-- A table changes, and paths past none of its changed names lead where they led. -/
theorem walk_setTable (others : ∀ x, x ≠ name → e.find? x = d.find? x) (apart : ¬ place ++ [name] <+: segments) :
    (o.setTable e).walk path segments = o.walk path segments := by
  refine h.walk_of_child rfl fun {_ last a d'} before walked is table' => ?_
  rw [child_of_table is table']
  by_cases here : a.data = e.self
  · have data := here.trans self
    have same := h.walk_injective walked found
      (h.unique_data _ _ _ _ (h.walk_stored walked) (h.walk_stored found) data)
    have other : last ≠ name := by
      rintro rfl
      exact apart (same ▸ before)
    rw [data, table] at table'
    cases table'
    have changed : (o.setTable e).table a.data = some e := here ▸ o.table_setTable e
    rw [child_of_table is changed, others last other]
    rfl
  · have kept : (o.setTable e).table a.data = some d' := (update_of_ne here ..).trans table'
    rw [child_of_table is kept]
    rfl

/-- The name itself leads to what the new table has there. -/
theorem walk_setTable_self (is : dir.isDirectory = true) (others : ∀ x, x ≠ name → e.find? x = d.find? x) :
    (o.setTable e).walk path (place ++ [name]) = match e.find? name with
      | some id => load (o.inode id) id
      | none => .error (.notFound path) := by
  have apart : ¬ place ++ [name] <+: place := fun before => by
    have := before.length_le
    rw [List.length_append, List.length_singleton] at this
    omega
  have changed : (o.setTable e).table dir.data = some e := self ▸ o.table_setTable e
  rw [walk_snoc, h.walk_setTable found table self others apart, found]
  exact child_of_table is changed

end table

section entry
variable (h : o.Sound) (found : o.walk path place = .ok dir) (is : dir.isDirectory = true)
  (table : o.table dir.data = some d)
include h found is table

/-- Paths through an entry that was removed lead nowhere. -/
theorem walk_remove (used : (d.slots.get k).isFree = false) (segments : List String) :
    (o.setTable (d.put k {})).walk path segments =
      if place ++ [(d.slots.get k).name] <+: segments then .error (.notFound path) else o.walk path segments := by
  have proper := h.table _ _ table
  have self : (d.put k {}).self = dir.data := proper.self
  have others (x : String) (other : x ≠ (d.slots.get k).name) : (d.put k {}).find? x = d.find? x :=
    proper.toDistinct.find?_put_of_ne (proper.remove k).toDistinct (fun _ => other.symm) nofun
  split
  · rename_i through
    obtain ⟨rest, rfl⟩ := through
    rw [walk_append, h.walk_setTable_self found table self is others, proper.toDistinct.find?_put_empty used]
    rfl
  · rename_i apart
    exact h.walk_setTable found table self others apart

/-- The path of an entry that was put in leads to it, and nothing is behind it. -/
theorem walk_insert (free : (d.slots.get k).isFree = true) (entry : Path.Entry name) (new : d.find? name = none)
    (inode : o.inode b.self = some b)
    (bare : ∀ y, (o.setTable (d.put k ⟨name, b.self⟩)).child path b y = .error (pastLeaf b path)) (segments : List String) :
    (o.setTable (d.put k ⟨name, b.self⟩)).walk path segments =
      if segments = place ++ [name] then .ok b
      else if place ++ [name] <+: segments then .error (pastLeaf b path) else o.walk path segments := by
  have proper := h.table _ _ table
  have filled := proper.insert k entry new b.self
  have self : (d.put k ⟨name, b.self⟩).self = dir.data := proper.self
  have others (x : String) (other : x ≠ name) : (d.put k ⟨name, b.self⟩).find? x = d.find? x :=
    proper.toDistinct.find?_put_of_ne filled.toDistinct (fun used => nomatch free.symm.trans used) fun _ => other.symm
  have here : (o.setTable (d.put k ⟨name, b.self⟩)).walk path (place ++ [name]) = .ok b := by
    have found' : (d.put k ⟨name, b.self⟩).find? name = some b.self :=
      filled.toDistinct.find?_put_self ⟨name, b.self⟩ (Directory.isFree_eq_false_iff.mpr entry.nonempty)
    rw [h.walk_setTable_self found table self is others, found']
    exact load_eq_ok.mpr inode
  split
  · rename_i same
    rw [same, here]
  · rename_i other
    split
    · rename_i through
      obtain ⟨rest, rfl⟩ := through
      rw [walk_append, here]
      refine foldlM_leaf bare fun empty => other ?_
      rw [empty, List.append_nil]
    · rename_i apart
      exact h.walk_setTable found table self others apart

end entry

end Sound
end RecordFs.Outline
