import RecordFs.Proofs.Tree.Making

/-! Entries that are removed from an outline and from a tree. -/
namespace RecordFs
open Function Volume

/-- Erasing a name that stands in one slot empties that slot. -/
theorem Slots.names_erase {slots : Slots} {k : Fin dirEntries} {name : String} (here : slots.names k = some name)
    (single : ∀ j, slots.names j = some name → j = k) : (slots.erase name).names = update slots.names k none := by
  funext j
  have kept : (slots.erase name).names j = if slots.names j = some name then none else slots.names j := by
    rw [names, erase, names]
    cases slots j with
    | none => rfl
    | some entry => by_cases same : entry.1 = name <;> simp [Option.filter, same]
  rw [kept]
  by_cases at_ : j = k
  · rw [at_, update_self, if_pos here]
  · rw [update_of_ne at_, if_neg fun same => at_ (single j same)]

namespace Tree
variable {tree : Tree} {path : String} {p : Parent} {facts : Facts} {slots : Slots} (now : Int64)

section removeFile
variable (found : tree.parent path = .ok p)
include found

theorem removeFile_of_none (missing : p.slots.find? p.name = none) :
    tree.removeFile now path = .error (.notFound path) := by
  simp only [removeFile, found, Outline.ok_bind, missing]

theorem removeFile_of_directory (there : p.slots.find? p.name = some (.directory facts slots)) :
    tree.removeFile now path = .error (.isADirectory path) := by
  simp only [removeFile, found, Outline.ok_bind, there]

theorem removeFile_of_file (there : p.slots.find? p.name = some (.file facts)) :
    tree.removeFile now path = .ok (.done, tree.refill now p (p.slots.erase p.name)) := by
  simp only [removeFile, found, Outline.ok_bind, there]

end removeFile

section removeDirectory
variable (listed : tree.slotsAt path = .ok slots)
include listed

theorem removeDirectory_of_full (full : slots.occupied.isEmpty = false) :
    tree.removeDirectory now path = .error (.directoryNotEmpty path) := by
  rw [removeDirectory, listed, Outline.ok_bind, full]
  rfl

theorem removeDirectory_of_empty (empty : slots.occupied.isEmpty = true) :
    tree.removeDirectory now path = tree.parent path >>= fun p =>
      .ok (.done, tree.refill now p (p.slots.erase p.name)) := by
  rw [removeDirectory, listed, Outline.ok_bind, if_pos empty]
  rfl

end removeDirectory
end Tree

namespace Outline
variable {o o' : Outline} {tree : Tree} {parent : Inode} {d : Directory} {k : Fin dirEntries} {now : Int64} {path : String}

namespace Removal.Removed
variable (removed : Removed now o path parent d k o') (h : o.Sound) (removal : Removal o path parent d k)
include removed

theorem others (h : o.Sound) (removal : Removal o path parent d k) (other : String) {segments : List String}
    (apart : segments ≠ (Path.segments path).dropLast) (before : ¬ Path.segments path <+: segments) :
    (o'.walk other segments).map o'.glance = (o.walk other segments).map o.glance := by
  refine map_glance_congr (by rw [removed.walk, if_neg apart, if_neg before]) fun a walked => ?_
  rw [removed.table, update_of_ne (h.data_ne walked removal.found apart)]

theorem glance_parent (is : parent.isDirectory = true) : o'.glance (touched now parent (d.put k {}).count) =
    ⟨(Facts.of parent).touched now (d.put k {}).count, some (update d.names k none)⟩ := by
  have table : o'.table parent.data = some (d.put k {}) := by rw [removed.table, update_self]
  have fits : (d.put k {}).count < UInt64.size := Nat.lt_of_le_of_lt (Directory.count_le _) (by decide)
  rw [← Facts.of_touched now parent fits, ← Directory.names_put_empty]
  exact glance_of_table is table

theorem walk_behind (last : lastName path = .ok (d.slots.get k).name) (other : String) (rest : List String) :
    o'.walk other (Path.segments path ++ rest) = .error (.notFound other) := by
  have shorter : Path.segments path ++ rest ≠ (Path.segments path).dropLast := fun same =>
    not_prefix_dropLast last (same ▸ List.prefix_append ..)
  rw [removed.walk, if_neg shorter, if_pos (List.prefix_append ..)]

end Removal.Removed

section planRemove
variable (now) {name : String} (resolved : o.resolveParent path = .ok (parent, name)) (listed : o.directory parent path = .ok d)
include resolved listed

theorem planRemoveFile_of_none (missing : d.find? name = none) :
    o.planRemoveFile now path = .error (.notFound path) := by
  simp only [planRemoveFile, resolved, listed, ok_bind, missing]

theorem planRemoveFile_of_some {id : Id} {c : Inode} (found : d.find? name = some id) (inode : o.inode id = some c) :
    o.planRemoveFile now path =
      if c.isDirectory then .error (.isADirectory path) else planDetach now parent d name := by
  simp only [planRemoveFile, resolved, listed, ok_bind, found, load_eq_ok.mpr inode]

theorem planRemoveDirectory_of_empty {e : Directory} (bare : o.listing path = .ok e) (empty : e.isEmpty = true) :
    o.planRemoveDirectory now path = planDetach now parent d name := by
  rw [listing] at bare
  simp only [planRemoveDirectory, ← bind_assoc, bare, ok_bind, if_pos empty, resolved, listed]

end planRemove

theorem planRemoveDirectory_of_full {e : Directory} (listed : o.listing path = .ok e) (full : e.isEmpty = false) :
    o.planRemoveDirectory now path = .error (.directoryNotEmpty path) := by
  rw [listing] at listed
  simp only [planRemoveDirectory, ← bind_assoc, listed, ok_bind, full]
  rfl

section agrees
variable (m : o.Matches tree) (h : o.Sound)
include m h

/-- The tree without the entry matches the outline without it. -/
theorem Matches.removed {p : Tree.Parent} (paired : Matches.Paired o tree path parent d p)
    (removal : Removal o path parent d k) (removed : Removal.Removed now o path parent d k o') :
    o'.Matches (tree.refill now p (p.slots.erase p.name)) := by
  have named : (d.slots.get k).name = p.name := Except.ok.inj (removal.last.symm.trans paired.last)
  have here : p.slots.names k = some p.name := by rw [paired.names, Directory.names_eq_some.mpr ⟨removal.used, named⟩]
  have names : (p.slots.erase p.name).names = (d.put k {}).names := by
    rw [Directory.names_put_empty, ← paired.names]
    refine Slots.names_erase here fun j other => ?_
    rw [paired.names, Directory.names_eq_some] at other
    exact ((h.table _ _ paired.table).distinct k j removal.used (named.trans other.2.symm)).symm
  have whole := segments_of_lastName paired.last
  rw [← paired.place] at whole
  refine m.refill paired.found (fun other => by rw [removed.walk, if_pos paired.place]) ?_
    (fun x other => p.slots.find?_erase_of_ne other) (fun other rest => ?_) fun other segments apart before => ?_
  · rw [removed.glance_parent removal.is, paired.facts, Slots.length_occupied_of_names names, Tree.glance, names,
      ← Directory.names_put_empty]
  · rw [Tree.walk_cons, Slots.find?_erase_self, List.append_cons, whole, removed.walk_behind removal.last]
    rfl
  · exact removed.others h removal other (paired.place ▸ apart) (whole ▸ before)

/-- Both take the entry out when it is there. -/
theorem Matches.agrees_removal {p : Tree.Parent} {plan : Plan Unit} (paired : Matches.Paired o tree path parent d p)
    (removal : Removal o path parent d k)
    (planned : plan = .just [.table (d.put k {}), .inode (touched now parent (d.put k {}).count)] ()) :
    o.Agrees (Plan.map (fun _ => .done) <$> .ok plan) (.ok (.done, tree.refill now p (p.slots.erase p.name))) := by
  subst planned
  refine agrees_just rfl fun r o' carried => ?_
  obtain ⟨rfl, removed⟩ := removal.removed_of_carried h carried
  exact ⟨rfl, m.removed h paired removal removed⟩

omit m h in
theorem planDetach_of_find? (now : Int64) (parent : Inode) {name : String} {id : Id} (found : d.find? name = some id) :
    ∃ plan, planDetach now parent d name = .ok plan := by
  rw [planDetach]
  cases removed : d.remove? name with
  | none =>
    rw [Directory.remove?_eq_none_iff, found] at removed
    cases removed
  | some rest => exact ⟨_, rfl⟩

omit m h in
/-- There is one directory only that an entry can be removed from. -/
theorem Removal.of_paired {p : Tree.Parent} {plan : Plan Unit} (paired : Matches.Paired o tree path parent d p)
    (removal : ∃ parent d k, Removal o path parent d k ∧
      plan = .just [.table (d.put k {}), .inode (touched now parent (d.put k {}).count)] ()) :
    ∃ k, Removal o path parent d k ∧
      plan = .just [.table (d.put k {}), .inode (touched now parent (d.put k {}).count)] () := by
  obtain ⟨parent', d', k, removal, planned⟩ := removal
  have found := removal.found
  rw [← paired.place, paired.walked] at found
  cases found
  have table := removal.table
  rw [paired.table] at table
  cases table
  exact ⟨k, removal, planned⟩

theorem Matches.agrees_removeFile (now : Int64) (path : String) :
    o.Agrees (Plan.map (fun _ => .done) <$> o.planRemoveFile now path) (tree.removeFile now path) := by
  rcases m.parent_cases h path with ⟨e, lost, lost'⟩ | ⟨parent, d, p, resolved, listed, same, paired⟩
  · rw [planRemoveFile, Tree.removeFile, lost, lost']
    exact agrees_refused o e
  cases found : d.find? p.name with
  | none =>
    have missing := (Slots.find?_eq_none_of_names paired.names (entry_of_lastName paired.last).nonempty).mpr found
    rw [planRemoveFile_of_none now resolved listed found, Tree.removeFile_of_none now same missing]
    exact agrees_refused o _
  | some id =>
    obtain ⟨k, used, named, rfl⟩ := Directory.exists_of_find? found
    obtain ⟨c, node, inode, _, there, stored, shown⟩ := m.slot h paired.walked paired.found paired.is paired.table
      paired.names used
    rw [named] at there
    have plans := planRemoveFile_of_some now resolved listed found inode
    cases node with
    | directory facts slots =>
      obtain ⟨is, _⟩ := h.glance_eq_directory stored shown
      rw [plans, if_pos is, Tree.removeFile_of_directory now same there]
      exact agrees_refused o _
    | file facts =>
      obtain ⟨file, _⟩ := h.glance_eq_file stored shown
      obtain ⟨plan, detach⟩ := planDetach_of_find? now parent found
      rw [file, if_neg Bool.false_ne_true, detach] at plans
      obtain ⟨k, removal, planned⟩ := Removal.of_paired paired (removal_of_removeFile plans)
      rw [plans, Tree.removeFile_of_file now same there]
      exact m.agrees_removal h paired removal planned

theorem Matches.agrees_removeDirectory (now : Int64) (path : String) :
    o.Agrees (Plan.map (fun _ => .done) <$> o.planRemoveDirectory now path) (tree.removeDirectory now path) := by
  rcases m.listing_cases h path with ⟨e, lost, lost'⟩ | ⟨target, e, slots, bare, bare', both⟩
  · rw [listing] at lost
    rw [planRemoveDirectory, ← bind_assoc, lost, Tree.removeDirectory, lost']
    exact agrees_refused o e
  have empty : slots.occupied.isEmpty = e.isEmpty := by
    rw [Directory.isEmpty, Bool.eq_iff_iff, List.isEmpty_iff_length_eq_zero, List.isEmpty_iff_length_eq_zero,
      Slots.length_occupied_of_names both.names]
    rfl
  cases none : e.isEmpty with
  | false =>
    rw [planRemoveDirectory_of_full bare none, Tree.removeDirectory_of_full now bare' (empty.trans none)]
    exact agrees_refused o _
  | true =>
    rw [Tree.removeDirectory_of_empty now bare' (empty.trans none)]
    rcases m.parent_cases h path with ⟨f, lost, lost'⟩ | ⟨parent, d, p, resolved, listed, same, paired⟩
    · rw [listing] at bare
      rw [planRemoveDirectory, ← bind_assoc, bare, ok_bind, if_pos none, lost, lost']
      exact agrees_refused o f
    have there : o.child path parent p.name = .ok target := by
      have walked := (resolve_eq_ok.mp both.resolved).2
      rw [← segments_of_lastName paired.last, ← paired.place, walk_snoc, paired.walked] at walked
      exact walked
    obtain ⟨d', id, again, found, _⟩ := child_eq_ok.mp there
    rw [listed] at again
    cases again
    obtain ⟨plan, detach⟩ := planDetach_of_find? now parent found
    have plans := (planRemoveDirectory_of_empty now resolved listed bare none).trans detach
    obtain ⟨k, removal, planned⟩ := Removal.of_paired paired (removal_of_removeDirectory plans)
    rw [plans, same]
    exact m.agrees_removal h paired removal planned

end agrees
end Outline
end RecordFs
