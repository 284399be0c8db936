import RecordFs.Proofs.Tree.Agreeing

/-! New entries in an outline and in a tree: both go into the first free slot. -/
namespace RecordFs
open Function Volume

/-- What a new inode tells. -/
theorem Facts.of_new {i : Inode} (kind : EntryKind) {self data : Id} {mode uid gid : UInt32} {now : Int64}
    (new : i = .new self data (kind.bits ||| (mode &&& Mode.permissionMask)) uid gid now) :
    Facts.of i = .new mode uid gid now ∧ i.kind = kind ∧ i.Typed := by
  subst new
  have permissions := Inode.permissions_of_mode (k := kind) (m := mode) (i := .new self data _ uid gid now) rfl
  refine ⟨?_, Inode.kind_of_mode (m := mode) rfl, Inode.typed_of_mode (m := mode) rfl⟩
  rw [Facts.of, permissions]
  rfl

theorem Directory.count_le (d : Directory) : d.count ≤ dirEntries := by
  have le := List.length_filter_le (fun slot => !slot.isFree) d.slots.toList
  rwa [Vector.length_toList] at le

namespace Tree

theorem attributes_empty (facts : Facts) (kind : EntryKind) : (empty facts kind).attributes = facts.attributes kind := by
  cases kind <;> rfl

theorem find?_none (name : String) : Slots.find? (fun _ => none) name = none := Slots.find?_eq_none.mpr fun _ => nofun

/-- Nothing is behind a new entry. -/
theorem walk_empty_cons (facts : Facts) (kind : EntryKind) (path name : String) (rest : List String) :
    (empty facts kind).walk path (name :: rest) = .error (match kind with
      | .directory => .notFound path
      | .file => .notADirectory path) := by
  cases kind with
  | file => rfl
  | directory => rw [empty, walk_cons, find?_none]

section make
variable {tree : Tree} {path : String} {p : Parent} (found : tree.parent path = .ok p) (now : Int64) (node : Tree)
include found

theorem make_of_taken (taken : (p.slots.find? p.name).isSome = true) :
    tree.make now path node = .error (.alreadyExists path) := by
  rw [make, found, Outline.ok_bind, if_pos taken]

theorem make_of_full (new : p.slots.find? p.name = none) (full : p.slots.free? = none) :
    tree.make now path node = .error (.directoryFull (Path.directoryOf path)) := by
  rw [make, found, Outline.ok_bind, new, full]
  rfl

theorem make_of_free (new : p.slots.find? p.name = none) {k : Fin dirEntries} (free : p.slots.free? = some k) :
    tree.make now path node =
      .ok (.attributes node.attributes, tree.refill now p (update p.slots k (some (p.name, node)))) := by
  rw [make, found, Outline.ok_bind, new, free]
  rfl

end make
end Tree

namespace Outline
variable {o o' : Outline} {tree : Tree} {i : Inode} {now : Int64} {path : String} {place : Opening}

/-- An entry shows what it showed when its record and its table are what they were. -/
theorem map_glance_congr {other : String} {segments : List String} (walk : o'.walk other segments = o.walk other segments)
    (table : ∀ a, o.walk other segments = .ok a → o'.table a.data = o.table a.data) :
    (o'.walk other segments).map o'.glance = (o.walk other segments).map o.glance := by
  rw [walk]
  cases walked : o.walk other segments with
  | error e => rfl
  | ok a => exact congrArg Except.ok (glance_congr fun _ => table a walked)

/-- Entries at two places have two tables. -/
theorem Sound.data_ne (h : o.Sound) {a b : Inode} {other : String} {segments segments' : List String}
    (ha : o.walk other segments = .ok a) (hb : o.walk path segments' = .ok b) (apart : segments ≠ segments') :
    a.data ≠ b.data := fun same => apart (h.walk_injective ha (walk_congr_path other hb)
      (h.unique_data _ _ _ _ (h.walk_stored ha) (h.walk_stored hb) same))

namespace Made
variable (made : Made now o path place i o') (h : o.Sound) (opens : place.Open o path) (new : o.New i)
include made h opens new

theorem others (other : String) {segments : List String} (apart : segments ≠ (Path.segments path).dropLast)
    (before : ¬ Path.segments path <+: segments) :
    (o'.walk other segments).map o'.glance = (o.walk other segments).map o.glance := by
  have here : segments ≠ Path.segments path := fun same => before (same ▸ List.prefix_rfl)
  refine map_glance_congr (by rw [made.walk, if_neg apart, if_neg here, if_neg before]) fun a walked => ?_
  rw [made.table, update_of_ne (h.data_ne walked opens.found apart)]
  exact table_apply_emptyData o i.kind (new.data.data _ _ (h.walk_stored walked))

omit h new in
theorem glance_parent :
    o'.glance (touched now place.parent (place.filled i.self).count) =
      ⟨(Facts.of place.parent).touched now (place.filled i.self).count,
        some (update place.table.names place.slot (some place.name))⟩ := by
  have table : o'.table place.parent.data = some (place.filled i.self) := by rw [made.table, update_self]
  have fits : (place.filled i.self).count < UInt64.size := Nat.lt_of_le_of_lt (Directory.count_le _) (by decide)
  rw [← Facts.of_touched now place.parent fits, ← Directory.names_put (entry_of_lastName opens.last).nonempty]
  exact glance_of_table opens.is table

theorem glance_entry : o'.glance i = (Tree.empty (.of i) i.kind).glance := by
  cases is : i.isDirectory with
  | false =>
    rw [glance_of_file is, Inode.kind_of_not_isDirectory is]
    rfl
  | true =>
    have kind := Inode.isDirectory_iff.mp is
    have apart : i.data ≠ place.parent.data := (new.data.data _ _ (h.walk_stored opens.found)).symm
    have table : o'.table i.data = some (.empty i.data) := by
      rw [made.table, update_of_ne apart, kind]
      exact table_setTable o (.empty i.data)
    rw [glance_of_table is table, kind, Directory.names_empty]
    rfl

omit h new in
theorem walk_entry (other : String) : o'.walk other (Path.segments path) = .ok i := by
  have shorter : Path.segments path ≠ (Path.segments path).dropLast := fun same =>
    not_prefix_dropLast opens.last (same ▸ List.prefix_rfl)
  rw [made.walk, if_neg shorter, if_pos rfl]

omit h opens new in
theorem walk_behind (other : String) {name : String} {rest : List String} :
    o'.walk other (Path.segments path ++ name :: rest) = .error (pastLeaf i other) := by
  have shorter : Path.segments path ++ name :: rest ≠ (Path.segments path).dropLast := fun same => by
    have := congrArg List.length same
    rw [List.length_append, List.length_cons, List.length_dropLast] at this
    omega
  have longer : Path.segments path ++ name :: rest ≠ Path.segments path := fun same => by simp at same
  rw [made.walk, if_neg shorter, if_neg longer, if_pos (List.prefix_append ..)]

end Made

section opening
variable {parent : Inode} {name : String} {d : Directory} (resolved : o.resolveParent path = .ok (parent, name))
  (listed : o.directory parent path = .ok d)
include resolved listed

theorem opening_of_taken (taken : (d.find? name).isSome = true) : o.opening path = .error (.alreadyExists path) := by
  simp only [opening, resolved, listed, ok_bind, if_pos taken]

theorem opening_of_full (new : d.find? name = none) (full : d.slots.findFinIdx? (·.isFree) = none) :
    o.opening path = .error (.directoryFull (Path.directoryOf path)) := by
  simp only [opening, resolved, listed, ok_bind, new, full]
  rfl

end opening

section agrees
variable (m : o.Matches tree) (h : o.Sound)
include m h

/-- The tree with the new entry matches the outline with it. -/
theorem Matches.made {parent : Inode} {d : Directory} {p : Tree.Parent} {k : Fin dirEntries}
    (paired : Matches.Paired o tree path parent d p) (opened : Opening.Open o path ⟨parent, p.name, d, k⟩) (new : o.New i)
    (made : Made now o path ⟨parent, p.name, d, k⟩ i o') :
    o'.Matches (tree.refill now p (update p.slots k (some (p.name, .empty (.of i) i.kind)))) := by
  have entry := entry_of_lastName paired.last
  have names : Slots.names (update p.slots k (some (p.name, .empty (.of i) i.kind))) =
      (d.put k ⟨p.name, i.self⟩).names := by
    rw [Slots.names_update, Directory.names_put entry.nonempty, paired.names]
  have free : p.slots k = none := by
    rw [← Option.map_eq_none_iff (f := Prod.fst)]
    change p.slots.names k = none
    rw [paired.names, Directory.names, if_pos opened.free]
  have absent := (Slots.find?_eq_none_of_names paired.names entry.nonempty).mpr opened.new
  have whole := segments_of_lastName paired.last
  rw [← paired.place] at whole
  refine m.refill paired.found (fun other => by rw [made.walk, if_pos paired.place]) ?_
    (fun x other => Slots.find?_update_of_ne free other) (fun other rest => ?_) fun other segments apart before => ?_
  · rw [made.glance_parent opened, paired.facts, Slots.length_occupied_of_names names, Tree.glance, names,
      ← Directory.names_put entry.nonempty]
    rfl
  · rw [Tree.walk_cons, Slots.find?_update_self absent, List.append_cons, whole]
    cases rest with
    | nil =>
      rw [List.append_nil, made.walk_entry opened]
      exact congrArg Except.ok (made.glance_entry h opened new)
    | cons x rest =>
      change _ = ((Tree.empty _ i.kind).walk other (x :: rest)).map Tree.glance
      rw [made.walk_behind, Tree.walk_empty_cons, pastLeaf, Inode.isDirectory]
      cases i.kind <;> rfl
  · exact made.others h opened new other (paired.place ▸ apart) (whole ▸ before)

theorem Matches.agrees_make (now : Int64) (path : String) (kind : EntryKind) (mode uid gid : UInt32) :
    o.Agrees (Plan.map .attributes <$> o.planMake now path (kind.bits ||| (mode &&& Mode.permissionMask)) uid gid)
      (tree.make now path (.empty (.new mode uid gid now) kind)) := by
  rcases m.parent_cases h path with ⟨e, lost, lost'⟩ | ⟨parent, d, p, resolved, listed, same, paired⟩
  · rw [planMake, opening, Tree.make, lost, lost']
    exact agrees_refused o e
  have new := Slots.find?_eq_none_of_names paired.names (entry_of_lastName paired.last).nonempty
  have free := Slots.free?_of_names paired.names
  rw [planMake]
  cases found : d.find? p.name with
  | some id =>
    have taken : (d.find? p.name).isSome = true := by rw [found, Option.isSome_some]
    have taken' : (p.slots.find? p.name).isSome = true := by
      rw [← Option.ne_none_iff_isSome, Ne, new, found]
      exact Option.some_ne_none id
    rw [opening_of_taken resolved listed taken, Tree.make_of_taken same now _ taken']
    exact agrees_refused o _
  | none =>
    cases first : d.slots.findFinIdx? (·.isFree) with
    | none =>
      rw [opening_of_full resolved listed found first, Tree.make_of_full same now _ (new.mpr found) (free.trans first)]
      exact agrees_refused o _
    | some k =>
      have opens : o.opening path = .ok ⟨parent, p.name, d, k⟩ := opening_eq_ok.mpr ⟨resolved, listed, found, first⟩
      have opened := open_of_opening opens
      rw [opens, Tree.make_of_free same now _ (new.mpr found) (free.trans first)]
      refine agrees_allowed fun changes a r o' ok carried => ?_
      obtain ⟨self, data, new, rfl, rfl⟩ := ok
      obtain ⟨rfl, made⟩ := made_of_carried h opened new carried
      obtain ⟨facts, becomes, typed⟩ :=
        Facts.of_new kind (i := .new self data (kind.bits ||| (mode &&& Mode.permissionMask)) uid gid now) rfl
      refine ⟨congrArg Answer.attributes ?_, ?_⟩
      · rw [← Facts.attributes_of typed, Tree.attributes_empty, facts, becomes]
      · have left := m.made h paired opened new made
        rwa [facts, becomes] at left

end agrees
end Outline
end RecordFs
