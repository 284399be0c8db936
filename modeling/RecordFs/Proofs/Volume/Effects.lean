import RecordFs.Proofs.Volume.Changing
import RecordFs.Proofs.Volume.Files
import RecordFs.Proofs.Volume.Metadata

/-! What the plans of the calls do to paths and files, change by change. -/
namespace RecordFs.Outline
open Function Volume

variable {o : Outline} {path name : String} {now : Int64}

theorem segments_of_lastName (ok : lastName path = .ok name) :
    (Path.segments path).dropLast ++ [name] = Path.segments path := by
  obtain ⟨front, same⟩ := List.getLast?_eq_some_iff.mp (lastName_eq_ok.mp ok).2.1
  rw [same, List.dropLast_concat]

/-- The directory of an entry is not behind it. -/
theorem not_prefix_dropLast (ok : lastName path = .ok name) : ¬ Path.segments path <+: (Path.segments path).dropLast := by
  intro before
  have le := before.length_le
  have last := congrArg List.length (segments_of_lastName ok)
  rw [List.length_append, List.length_singleton] at last
  omega

/-- The slot that a new entry is to have. -/
structure Opening.Open (o : Outline) (path : String) (place : Opening) : Prop where
  last : lastName path = .ok place.name
  found : o.walk path (Path.segments path).dropLast = .ok place.parent
  is : place.parent.isDirectory = true
  table : o.table place.parent.data = some place.table
  new : place.table.find? place.name = none
  free : (place.table.slots.get place.slot).isFree = true
  before : ∀ j < place.slot, (place.table.slots.get j).isFree = false

theorem open_of_opening {place : Opening} (ok : o.opening path = .ok place) : place.Open o path := by
  obtain ⟨resolved, listed, new, found⟩ := opening_eq_ok.mp ok
  obtain ⟨last, walked, is⟩ := resolveParent_eq_ok.mp resolved
  obtain ⟨free, before⟩ := Directory.findFinIdx?_eq_some.mp found
  exact ⟨last, walked, is, (directory_eq_ok.mp listed).2, new, free, before⟩

section make
variable {i : Inode} {place : Opening}

theorem walk_emptyData (h : o.Sound) (new : o.New i) (path : String) (segments : List String) :
    (o.apply (emptyData i.data i.kind)).walk path segments = o.walk path segments := by
  cases i.kind with
  | directory => exact h.walk_setTable_new new.data.table segments
  | file => rfl

/-- A new entry is on no path before a table names it. -/
theorem walk_unlinked (h : o.Sound) (h₁ : (o.apply (emptyData i.data i.kind)).Sound) (new : o.New i)
    (segments : List String) :
    ((o.apply (emptyData i.data i.kind)).setInode i).walk path segments = o.walk path segments := by
  rw [h₁.walk_setInode_new, walk_emptyData h new]
  rw [inode_apply_emptyData]
  exact new.self.inode

/-- A new entry that is stored and that has nothing in it, with the slot that it is to have. -/
structure Awaited (o : Outline) (path : String) (place : Opening) (i : Inode) : Prop extends place.Open o path where
  inode : o.inode i.self = some i
  apart : i.data ≠ place.parent.data
  empty : i.isDirectory = true → o.table i.data = some (.empty i.data)

theorem awaited_of_new (h : o.Sound) (h₁ : (o.apply (emptyData i.data i.kind)).Sound) (new : o.New i)
    (opens : place.Open o path) : Awaited ((o.apply (emptyData i.data i.kind)).setInode i) path place i := by
  have apart : place.parent.data ≠ i.data := new.data.data _ _ (h.walk_stored opens.found)
  refine ⟨⟨opens.last, ?_, opens.is, ?_, opens.new, opens.free, opens.before⟩, inode_setInode _ _, apart.symm, fun is => ?_⟩
  · rw [walk_unlinked h h₁ new, opens.found]
  · exact (table_apply_emptyData o i.kind apart).trans opens.table
  · rw [Inode.isDirectory_iff.mp is]
    exact table_setTable o (.empty i.data)

namespace Awaited
variable (awaited : Awaited o path place i) (h : o.Sound)
include awaited h

theorem child_linked (other : String) (y : String) :
    (o.setTable (place.filled i.self)).child other i y = .error (pastLeaf i other) := by
  have self : (place.filled i.self).self = place.parent.data := (h.table _ _ awaited.table).self
  have kept (is : i.isDirectory = true) : (o.setTable (place.filled i.self)).table i.data = some (.empty i.data) := by
    rw [setTable, self]
    exact (update_of_ne awaited.apart ..).trans (awaited.empty is)
  refine bare_of_empty (fun d is table y => ?_) (fun is => ⟨_, kept is⟩) y
  rw [kept is] at table
  cases table
  exact Directory.find?_empty _ y

theorem walk_linked (other : String) (segments : List String) :
    (o.setTable (place.filled i.self)).walk other segments =
      if segments = Path.segments path then .ok i
      else if Path.segments path <+: segments then .error (pastLeaf i other) else o.walk other segments := by
  have walk := h.walk_insert (walk_congr_path other awaited.found) awaited.is awaited.table awaited.free
    (entry_of_lastName awaited.last) awaited.new awaited.inode (awaited.child_linked h other) segments
  rwa [segments_of_lastName awaited.last] at walk

theorem found_linked : (o.setTable (place.filled i.self)).walk path (Path.segments path).dropLast = .ok place.parent := by
  have shorter := not_prefix_dropLast awaited.last
  have other : (Path.segments path).dropLast ≠ Path.segments path := fun same => by
    rw [same] at shorter
    exact shorter List.prefix_rfl
  rw [awaited.walk_linked h, if_neg other, if_neg shorter, awaited.found]

theorem file?_linked {segments : List String} (other : segments ≠ Path.segments path) :
    (o.setTable (place.filled i.self)).file? segments = o.file? segments :=
  h.file?_insert awaited.found awaited.is awaited.table awaited.free (entry_of_lastName awaited.last) awaited.new
    awaited.inode (awaited.child_linked h) (by rwa [segments_of_lastName awaited.last])

end Awaited

/-- What a new entry leaves when it is all there. -/
structure Made (now : Int64) (o : Outline) (path : String) (place : Opening) (i : Inode) (o' : Outline) : Prop where
  sound : o'.Sound
  walk : ∀ other segments, o'.walk other segments =
    if segments = (Path.segments path).dropLast then .ok (touched now place.parent (place.filled i.self).count)
    else if segments = Path.segments path then .ok i
    else if Path.segments path <+: segments then .error (pastLeaf i other) else o.walk other segments
  table : o'.table = update (o.apply (emptyData i.data i.kind)).table place.parent.data (some (place.filled i.self))
  content : o'.content = (o.apply (emptyData i.data i.kind)).content

theorem made_of_carried {α : Type} {faulty : Prop} {o' : Outline} {answer a : α} (h : o.Sound) (opens : place.Open o path)
    (new : o.New i) (carried : Carried faulty (place.changes now i) answer o (.ok a) o') :
    a = answer ∧ Made now o path place i o' := by
  rw [Opening.changes] at carried
  obtain ⟨h₁, rest⟩ := carried.cons_ok
  obtain ⟨h₂, rest⟩ := rest.cons_ok
  obtain ⟨h₃, rest⟩ := rest.cons_ok
  obtain ⟨h₄, rest⟩ := rest.cons_ok
  obtain ⟨rfl, rfl⟩ := rest.nil_ok
  have awaited := awaited_of_new h h₁ new opens
  have self : (place.filled i.self).self = place.parent.data := (h.table _ _ opens.table).self
  refine ⟨rfl, h₄, fun other segments => ?_, self ▸ rfl, rfl⟩
  have walk := h₃.walk_setInode (j := touched now place.parent (place.filled i.self).count)
    (walk_congr_path other (awaited.found_linked h₂)) rfl rfl rfl segments
  refine walk.trans ?_
  split
  · rfl
  · rw [← walk_unlinked h h₁ new]
    exact awaited.walk_linked h₂ other segments

/-- A new entry that was made with success. -/
theorem Follows.made {α : Type} {faulty : Prop} {o' : Outline} {g : Attributes → α} {a : α} {mode uid gid : UInt32} (h : o.Sound)
    (follows : Follows faulty (Plan.map g <$> o.planMake now path mode uid gid) o (.ok a) o') :
    ∃ place self data, place.Open o path ∧ o.New (.new self data mode uid gid now) ∧
      a = g (.ofInode (.new self data mode uid gid now)) ∧ Made now o path place (.new self data mode uid gid now) o' := by
  obtain ⟨allowed, changes, _, planned, allows, carried⟩ := follows.succeeded
  obtain ⟨place, opened, same⟩ := bind_eq_ok.mp planned
  cases same
  obtain ⟨self, data, new, rfl, rfl⟩ := allows
  have opens := open_of_opening opened
  obtain ⟨answered, made⟩ := made_of_carried h opens new carried
  exact ⟨place, self, data, opens, new, answered, made⟩

end make

/-- The slot of an entry that has nothing in it. -/
structure Removal (o : Outline) (path : String) (parent : Inode) (d : Directory) (k : Fin dirEntries) : Prop where
  last : lastName path = .ok (d.slots.get k).name
  found : o.walk path (Path.segments path).dropLast = .ok parent
  is : parent.isDirectory = true
  table : o.table parent.data = some d
  used : (d.slots.get k).isFree = false
  leaf : ∃ b, o.walk path (Path.segments path) = .ok b ∧ ∀ other y, o.child other b y = .error (pastLeaf b other)

namespace Removal
variable {parent : Inode} {d : Directory} {k : Fin dirEntries} (removal : Removal o path parent d k) (h : o.Sound)
include removal h

theorem walk_removed (other : String) (segments : List String) : (o.setTable (d.put k {})).walk other segments =
    if Path.segments path <+: segments then .error (.notFound other) else o.walk other segments := by
  have walk := h.walk_remove (walk_congr_path other removal.found) removal.is removal.table removal.used segments
  rwa [segments_of_lastName removal.last] at walk

theorem found_removed : (o.setTable (d.put k {})).walk path (Path.segments path).dropLast = .ok parent := by
  rw [removal.walk_removed h, if_neg (not_prefix_dropLast removal.last), removal.found]

theorem file?_removed {segments : List String} (other : segments ≠ Path.segments path) :
    (o.setTable (d.put k {})).file? segments = o.file? segments := by
  obtain ⟨b, walked, bare⟩ := removal.leaf
  refine h.file?_remove removal.found removal.is removal.table removal.used (fun rest some => ?_) ?_
  · rw [segments_of_lastName removal.last]
    have lost : o.walk path (Path.segments path ++ rest) = .error (pastLeaf b path) := by
      rw [walk_append, walked]
      exact foldlM_leaf (bare path) some
    exact file?_of_error lost
  · rwa [segments_of_lastName removal.last]

/-- What an entry leaves when it is gone. -/
structure Removed (now : Int64) (o : Outline) (path : String) (parent : Inode) (d : Directory) (k : Fin dirEntries)
    (o' : Outline) : Prop where
  sound : o'.Sound
  walk : ∀ other segments, o'.walk other segments =
    if segments = (Path.segments path).dropLast then .ok (touched now parent (d.put k {}).count)
    else if Path.segments path <+: segments then .error (.notFound other) else o.walk other segments
  table : o'.table = update o.table parent.data (some (d.put k {}))

theorem removed_of_carried {α : Type} {faulty : Prop} {o' : Outline} {answer a : α}
    (carried : Carried faulty [.table (d.put k {}), .inode (touched now parent (d.put k {}).count)] answer o (.ok a) o') :
    a = answer ∧ Removed now o path parent d k o' := by
  obtain ⟨h₁, rest⟩ := carried.cons_ok
  obtain ⟨h₂, rest⟩ := rest.cons_ok
  obtain ⟨rfl, rfl⟩ := rest.nil_ok
  have self : (d.put k {}).self = parent.data := (h.table _ _ removal.table).self
  refine ⟨rfl, h₂, fun other segments => ?_, self ▸ rfl⟩
  have walk := h₁.walk_setInode (j := touched now parent (d.put k {}).count)
    (walk_congr_path other (removal.found_removed h)) rfl rfl rfl segments
  refine walk.trans ?_
  split
  · rfl
  · exact removal.walk_removed h other segments

end Removal

section remove
variable {parent : Inode} {d : Directory} {plan : Plan Unit}

theorem planDetach_eq_ok (planned : planDetach now parent d name = .ok plan) : ∃ k : Fin dirEntries,
    (d.slots.get k).isFree = false ∧ (d.slots.get k).name = name ∧
      plan = .just [.table (d.put k {}), .inode (touched now parent (d.put k {}).count)] () := by
  rw [planDetach] at planned
  cases removed : d.remove? name with
  | none =>
    rw [removed] at planned
    cases planned
  | some found =>
    obtain ⟨child, rest⟩ := found
    obtain ⟨k, used, named, _, rfl⟩ := Directory.remove?_eq_some removed
    rw [removed] at planned
    cases planned
    exact ⟨k, used, named, rfl⟩

theorem removal_of_removeFile (planned : o.planRemoveFile now path = .ok plan) :
    ∃ parent d k, Removal o path parent d k ∧
      plan = .just [.table (d.put k {}), .inode (touched now parent (d.put k {}).count)] () := by
  simp only [planRemoveFile, bind_eq_ok] at planned
  obtain ⟨⟨parent, name⟩, resolved, d, listed, planned⟩ := planned
  obtain ⟨last, walked, is⟩ := resolveParent_eq_ok.mp resolved
  obtain ⟨_, table⟩ := directory_eq_ok.mp listed
  cases found : d.find? name with
  | none =>
    rw [found] at planned
    cases planned
  | some id =>
    simp only [found, bind_eq_ok, load_eq_ok, ite_error_eq_ok, Bool.not_eq_true] at planned
    obtain ⟨i, inode, file, planned⟩ := planned
    obtain ⟨k, used, rfl, plan⟩ := planDetach_eq_ok planned
    refine ⟨parent, d, k, ⟨last, walked, is, table, used, i, ?_, fun other y => ?_⟩, plan⟩
    · rw [← segments_of_lastName last, walk_snoc, walked]
      exact (child_of_table is table).trans (by rw [found]; exact load_eq_ok.mpr inode)
    · rw [child_of_file file, pastLeaf, file]
      rfl

theorem removal_of_removeDirectory (planned : o.planRemoveDirectory now path = .ok plan) :
    ∃ parent d k, Removal o path parent d k ∧
      plan = .just [.table (d.put k {}), .inode (touched now parent (d.put k {}).count)] () := by
  simp only [planRemoveDirectory, bind_eq_ok, ite_eq_ok] at planned
  obtain ⟨target, found, e, listed, empty, ⟨parent, name⟩, resolved, d, listed', planned⟩ := planned
  obtain ⟨last, walked, is⟩ := resolveParent_eq_ok.mp resolved
  obtain ⟨_, table⟩ := directory_eq_ok.mp listed'
  obtain ⟨isTarget, tableTarget⟩ := directory_eq_ok.mp listed
  obtain ⟨k, used, rfl, plan⟩ := planDetach_eq_ok planned
  refine ⟨parent, d, k, ⟨last, walked, is, table, used, target, (resolve_eq_ok.mp found).2, fun other y => ?_⟩, plan⟩
  rw [child_of_table isTarget tableTarget, Directory.find?_of_isEmpty empty, pastLeaf, if_pos isTarget]

end remove

section store
variable {data : ByteArray} {offset size : Nat}

theorem planStore_of_content {α : Type} {i : Inode} {old : Nat → UInt8} (content : o.content i.data = some old)
    (answer : α) : o.planStore now i data offset size answer = .ok (storing now i old data offset size answer) := by
  rw [planStore, content]
  rfl

theorem planWrite_isOk {i : Inode} {old : Nat → UInt8} (found : o.resolveFile path = .ok i)
    (content : o.content i.data = some old) (fits : offset + data.size ≤ maxFileSize) :
    ∃ plan, o.planWrite now path data offset = .ok plan := by
  rw [planWrite, Content.checkExtent_of_le fits, found]
  change ∃ plan, (if data.isEmpty then _ else _) = Except.ok plan
  split
  · exact ⟨_, rfl⟩
  · exact ⟨_, planStore_of_content content data.size⟩

theorem planResize_isOk {i : Inode} {old : Nat → UInt8} (found : o.resolveFile path = .ok i)
    (content : o.content i.data = some old) (fits : size ≤ maxFileSize) : ∃ plan, o.planResize now path size = .ok plan := by
  rw [planResize, if_neg (Nat.not_lt.mpr fits), found]
  change ∃ plan, (if i.size.toNat < size then _ else _) = Except.ok plan
  split
  · exact ⟨_, planStore_of_content content ()⟩
  · exact ⟨_, rfl⟩

/-- What new bytes leave when they are all there. -/
structure Laid (now : Int64) (o : Outline) (place : List String) (i : Inode) (size : Nat) (view : Nat → UInt8)
    (o' : Outline) : Prop where
  sound : o'.Sound
  walk : ∀ other segments, o'.walk other segments =
    if segments = place then .ok (touched now i size) else o.walk other segments
  table : o'.table = o.table
  content : o'.content i.data = some view

theorem laid_of_carried {α β : Type} {faulty : Prop} {o' : Outline} {place : List String} {i : Inode} {old : Nat → UInt8}
    {answer b : β} {x a : α} {changes : List Change} (found : o.walk path place = .ok i)
    (planned : storing now i old data offset size answer changes b)
    (carried : Carried faulty changes a o (.ok x) o') : x = a ∧ b = answer ∧
      ∃ view, Filled old i.size.toNat data offset view ∧ Laid now o place i size view o' := by
  obtain ⟨rfl, torn, view, _, filled, rfl⟩ := planned
  obtain ⟨_, rest⟩ := carried.cons_ok
  obtain ⟨h₂, rest⟩ := rest.cons_ok
  obtain ⟨h₃, rest⟩ := rest.cons_ok
  obtain ⟨rfl, rfl⟩ := rest.nil_ok
  refine ⟨rfl, rfl, view, filled, h₃, fun other segments => ?_, rfl, content_setContent _ i.data view⟩
  exact h₂.walk_setInode (j := touched now i size) (walk_congr_path other found) rfl rfl rfl segments

theorem planWrite_eq_ok {plan : Plan Nat} (planned : o.planWrite now path data offset = .ok plan) :
    (∃ stop, Content.checkExtent offset data.size = .ok stop) ∧ ∃ i, o.resolveFile path = .ok i ∧
      ((data.isEmpty = true ∧ plan = .just [] 0) ∨ data.isEmpty = false ∧ ∃ old, o.content i.data = some old ∧
        plan = storing now i old data offset (max i.size.toNat (offset + data.size)) data.size) := by
  simp only [planWrite, bind_eq_ok] at planned
  obtain ⟨stop, extent, i, found, planned⟩ := planned
  refine ⟨⟨stop, extent⟩, i, found, ?_⟩
  cases empty : data.isEmpty with
  | true =>
    rw [empty] at planned
    cases planned
    exact .inl ⟨rfl, rfl⟩
  | false =>
    rw [empty, if_neg Bool.false_ne_true] at planned
    obtain ⟨old, loaded, same⟩ := bind_eq_ok.mp planned
    cases same
    exact .inr ⟨rfl, old, load_eq_ok.mp loaded, rfl⟩

theorem planResize_eq_ok {plan : Plan Unit} (planned : o.planResize now path size = .ok plan) :
    size ≤ maxFileSize ∧ ∃ i, o.resolveFile path = .ok i ∧
      ((i.size.toNat < size ∧ ∃ old, o.content i.data = some old ∧
        plan = storing now i old (zeros (size - i.size.toNat)) i.size.toNat size ()) ∨
      size ≤ i.size.toNat ∧ plan = .just [.inode (touched now i size)] ()) := by
  simp only [planResize, ite_error_eq_ok, bind_eq_ok] at planned
  obtain ⟨fits, i, found, planned⟩ := planned
  refine ⟨Nat.not_lt.mp fits, i, found, ?_⟩
  split at planned
  · rename_i grows
    obtain ⟨old, loaded, same⟩ := bind_eq_ok.mp planned
    cases same
    exact .inl ⟨grows, old, load_eq_ok.mp loaded, rfl⟩
  · rename_i shrinks
    cases planned
    exact .inr ⟨Nat.not_lt.mp shrinks, rfl⟩

end store

end RecordFs.Outline
