import RecordFs.Proofs.Tree.Showing
import RecordFs.Proofs.Volume.Listings
import RecordFs.Proofs.Volume.Sequencing

/-! Directories one in the other, made from the top down where they are missing. -/
namespace RecordFs
open Function Volume

namespace Directory
variable {d : Directory} {k : Fin dirEntries} {name : String}

/-- A new name is listed among the others. -/
theorem listed_put (free : d.names k = none) (nonempty : name ≠ "") (id : Id) : ∃ before after,
    d.listed = "." :: ".." :: (before ++ after) ∧
    (d.put k ⟨name, id⟩).listed = "." :: ".." :: (before ++ name :: after) := by
  obtain ⟨front, back, cut⟩ := List.append_of_mem (List.mem_finRange k)
  have single : (front ++ k :: back).Nodup := cut ▸ List.nodup_finRange dirEntries
  have apart {j : Fin dirEntries} (member : j ∈ front ++ back) : update d.names k (some name) j = d.names j :=
    update_of_ne (fun same : j = k => (List.nodup_middle.mp single).notMem (same ▸ member)) ..
  refine ⟨front.filterMap d.names, back.filterMap d.names, ?_, ?_⟩
  · rw [listed_eq, cut, List.filterMap_append, List.filterMap_cons_none free]
  · rw [listed_eq, names_put nonempty, cut, List.filterMap_append, List.filterMap_cons_some (update_self ..)]
    rw [List.filterMap_congr fun j member => apart (List.mem_append_left back member),
      List.filterMap_congr fun j member => apart (List.mem_append_right front member)]

theorem listed_empty (id : Id) : (empty id).listed = [".", ".."] := by
  rw [listed_eq, names_empty, List.filterMap_none]

theorem count_of_listed {inside : List String} (listed : d.listed = "." :: ".." :: inside) : d.count = inside.length := by
  rw [← (List.cons.inj (List.cons.inj listed).2).2, List.length_map, count]

end Directory

namespace Outline
variable {o o' o'' : Outline} {now : Int64} {mode uid gid : UInt32} {path other name : String} {front place : List String}
  {i : Inode} {d : Directory}

/-- The same stands at this place, or nothing for the same reason. -/
structure Same (o o' : Outline) (place : List String) : Prop where
  walk : ∀ other, o'.walk other place = o.walk other place
  table : ∀ {other i}, o.walk other place = .ok i → o'.table i.data = o.table i.data
  content : ∀ {other i}, o.walk other place = .ok i → o'.content i.data = o.content i.data

theorem Same.refl (o : Outline) (place : List String) : Same o o place := ⟨fun _ => rfl, fun _ => rfl, fun _ => rfl⟩

theorem Same.trans (h : Same o o' place) (k : Same o' o'' place) : Same o o'' place where
  walk other := (k.walk other).trans (h.walk other)
  table found := (k.table ((h.walk _).trans found)).trans (h.table found)
  content found := (k.content ((h.walk _).trans found)).trans (h.content found)

/-- Where no entry is found. -/
def Lost (o : Outline) (place : List String) : Prop := ∀ other, o.walk other place = .error (.notFound other)

/-- A directory with its table. -/
structure Holds (o : Outline) (place : List String) (i : Inode) (d : Directory) : Prop where
  walk : ∀ other, o.walk other place = .ok i
  is : i.isDirectory = true
  table : o.table i.data = some d

theorem Same.symm (h : Same o o' place) : Same o' o place where
  walk other := (h.walk other).symm
  table found := (h.table ((h.walk _).symm.trans found)).symm
  content found := (h.content ((h.walk _).symm.trans found)).symm

theorem Lost.same (h : o.Lost place) (same : Same o o' place) : o'.Lost place := fun other => (same.walk other).trans (h other)

theorem Holds.same (h : o.Holds place i d) (same : Same o o' place) : o'.Holds place i d where
  walk other := (same.walk other).trans (h.walk other)
  is := h.is
  table := (same.table (h.walk "")).trans h.table

theorem Holds.lost (h : o.Holds place i d) (none : d.find? name = none) : o.Lost (place ++ [name]) := fun other => by
  rw [walk_snoc, h.walk, ok_bind, child_of_table h.is h.table, none]

theorem Lost.not_holds (lost : o.Lost place) : ¬ o.Holds place i d := fun h => nomatch (lost "").symm.trans (h.walk "")

/-- The directory has one more name than in the table `d`, and its times are new. -/
def Gained (now : Int64) (o : Outline) (place : List String) (name : String) (i : Inode) (d : Directory) : Prop :=
  ∃ k id, d.names k = none ∧ o.Holds place (touched now i (d.put k ⟨name, id⟩).count) (d.put k ⟨name, id⟩)

theorem Gained.same (h : Gained now o place name i d) (same : Same o o' place) : Gained now o' place name i d := by
  obtain ⟨k, id, free, holds⟩ := h
  exact ⟨k, id, free, holds.same same⟩

/-- Nothing is found behind what is not found. -/
theorem Lost.append (h : o.Lost place) (rest : List String) : o.Lost (place ++ rest) := fun other => by
  rw [walk_append, h]
  rfl

namespace Made
variable {slot : Opening} {self data : Id} (made : Made now o path slot (.new self data mode uid gid now) o') (h : o.Sound)
  (opens : slot.Open o path) (new : o.New (.new self data mode uid gid now))
  (is : (Inode.new self data mode uid gid now).isDirectory = true)
include made h opens new is

theorem holds : o'.Holds (Path.segments path) (.new self data mode uid gid now) (.empty data) where
  walk := made.walk_entry opens
  is := is
  table := by
    have apart : data ≠ slot.parent.data := (new.data.data _ _ (h.walk_stored opens.found)).symm
    change o'.table data = _
    rw [made.table, update_of_ne apart, Inode.isDirectory_iff.mp is]
    exact table_setTable o (.empty data)

omit h new is in
theorem gained (held : o.Holds (Path.segments path).dropLast i d) :
    Gained now o' (Path.segments path).dropLast slot.name i d := by
  cases (held.walk path).symm.trans opens.found
  cases held.table.symm.trans opens.table
  refine ⟨slot.slot, self, ?_, fun other => ?_, opens.is, ?_⟩
  · rw [← Option.isNone_iff_eq_none, Directory.isNone_names, opens.free]
  · rw [made.walk, if_pos rfl]
    rfl
  · change o'.table slot.parent.data = _
    rw [made.table, update_self]
    rfl

/-- Nothing else has changed. -/
theorem same (apart : place ≠ (Path.segments path).dropLast) (other : place ≠ Path.segments path) : Same o o' place where
  walk p := by
    rw [made.walk, if_neg apart, if_neg other]
    split
    · rename_i behind
      obtain ⟨rest, rfl⟩ := behind
      rw [pastLeaf, if_pos is, Lost.append opens.lost]
    · rfl
  table found := by
    rw [made.table, update_of_ne (h.data_ne found opens.found apart)]
    exact table_apply_emptyData o _ (new.data.data _ _ (h.walk_stored found))
  content _ := by
    rw [made.content, Inode.isDirectory_iff.mp is]
    rfl

/-- The new directory is found by its name in the one above it, and no other place is touched. -/
theorem along (whole : Path.segments path = front ++ [name]) :
    o'.Holds (front ++ [name]) (.new self data mode uid gid now) (.empty data) ∧
      (∀ {i d}, o.Holds front i d → Gained now o' front name i d) ∧
      ∀ {place}, place ≠ front → place ≠ front ++ [name] → Same o o' place := by
  have parent : (Path.segments path).dropLast = front := by rw [whole, List.dropLast_concat]
  have named : slot.name = name := by
    have last := segments_of_lastName opens.last
    rw [parent, whole] at last
    exact List.singleton_inj.mp (List.append_cancel_left last)
  subst parent named
  rw [← whole]
  exact ⟨made.holds h opens new is, made.gained opens, made.same h opens new is⟩

end Made

/-- The directories along `front` are there. Those that were missing have been made, the last of those that were there
has gained the first of them, and all else is as it was. The directory at a place of so many names is made at the time
`now` tells for them, and that is when the one above it gains its name. -/
structure Chained (now : Nat → Int64) (mode uid gid : UInt32) (o : Outline) (front : List String) (o' : Outline) : Prop where
  stands : ∀ {place}, place <+: front → ∃ i d, o'.Holds place i d
  elsewhere : ∀ {place}, ¬ place <+: front → Same o o' place
  stays : ∀ {place other i}, place <+: front → o.walk other place = .ok i →
    (∀ name, place ++ [name] <+: front → ¬ o.Lost (place ++ [name])) → Same o o' place
  grown : ∀ {place i d name}, place ++ [name] <+: front → o.Holds place i d → o.Lost (place ++ [name]) →
    Gained (now (place.length + 1)) o' place name i d
  made : ∀ {place}, place <+: front → o.Lost place → ∃ self data,
    place = front ∧ o'.Holds place (.new self data mode uid gid (now place.length)) (.empty data) ∨
      ∃ name, place ++ [name] <+: front ∧
        Gained (now (place.length + 1)) o' place name (.new self data mode uid gid (now place.length)) (.empty data)

namespace Chained
variable {now : Nat → Int64} {above : List String}

theorem nil {i : Inode} {d : Directory} (root : o.Holds [] i d) : Chained now mode uid gid o [] o where
  stands before := ⟨i, d, List.prefix_nil.mp before ▸ root⟩
  elsewhere _ := .refl o _
  stays _ _ _ := .refl o _
  grown before := by simp at before
  made before lost := by
    rw [List.prefix_nil.mp before] at lost
    cases (lost "").symm.trans (root.walk "")

theorem not_prefix_snoc (above : List String) (name : String) : ¬ above ++ [name] <+: above := fun before => by
  have le := before.length_le
  rw [List.length_append, List.length_singleton] at le
  omega

theorem prefix_snoc (before : place <+: above) (name : String) : place <+: above ++ [name] :=
  before.trans (List.prefix_append ..)

/-- A directory that is there already. -/
theorem there (chained : Chained now mode uid gid o above o') (there : o'.Holds (above ++ [name]) i d) :
    Chained now mode uid gid o (above ++ [name]) o' := by
  have same : Same o o' (above ++ [name]) := chained.elsewhere (not_prefix_snoc above name)
  have was := there.same same.symm
  refine {
    stands := fun before => ?stands
    elsewhere := fun apart => chained.elsewhere fun before => apart (prefix_snoc before name)
    stays := fun before found next => ?stays
    grown := fun before held lost => ?grown
    made := fun before lost => ?made }
  case stands =>
    rcases List.prefix_concat_iff.mp before with rfl | before
    · exact ⟨i, d, there⟩
    · exact chained.stands before
  case stays =>
    rcases List.prefix_concat_iff.mp before with rfl | before
    · exact same
    · exact chained.stays before found fun n before => next n (prefix_snoc before name)
  case grown =>
    rcases List.prefix_concat_iff.mp before with whole | before
    · exact absurd was (whole ▸ lost).not_holds
    · exact chained.grown before held lost
  case made =>
    rcases List.prefix_concat_iff.mp before with rfl | before
    · exact absurd was lost.not_holds
    obtain ⟨self, data, ⟨rfl, empty⟩ | ⟨n, before, gained⟩⟩ := chained.made before lost
    · exact absurd there (empty.lost (Directory.find?_empty data name)).not_holds
    · exact ⟨self, data, .inr ⟨n, prefix_snoc before name, gained⟩⟩

/-- A new directory at the end of the chain, in which the last one of it gains a name. -/
theorem snoc {self data : Id} (chained : Chained now mode uid gid o above o') (lost : o'.Lost (above ++ [name]))
    (holds : o''.Holds (above ++ [name]) (.new self data mode uid gid (now (above.length + 1))) (.empty data))
    (gained : ∀ {i d}, o'.Holds above i d → Gained (now (above.length + 1)) o'' above name i d)
    (same : ∀ {place}, place ≠ above → place ≠ above ++ [name] → Same o' o'' place) :
    Chained now mode uid gid o (above ++ [name]) o'' := by
  have was : o.Lost (above ++ [name]) := lost.same (chained.elsewhere (not_prefix_snoc above name)).symm
  -- Of the directories along `above` the last gains a name, and those before it stay as they are.
  have within {place : List String} (before : place <+: above) (apart : place ≠ above) : Same o' o'' place :=
    same apart fun here => not_prefix_snoc above name (here ▸ before)
  refine {
    stands := fun {place} before => ?stands
    elsewhere := fun {place} apart => ?elsewhere
    stays := fun {place other _} before found next => ?stays
    grown := fun {place _ _ n} before held lost => ?grown
    made := fun {place} before lost => ?made }
  case stands =>
    rcases List.prefix_concat_iff.mp before with rfl | before
    · exact ⟨_, _, holds⟩
    obtain ⟨i, d, held⟩ := chained.stands before
    by_cases here : place = above
    · obtain ⟨k, id, _, more⟩ := gained (here ▸ held)
      exact ⟨_, _, here ▸ more⟩
    · exact ⟨i, d, held.same (within before here)⟩
  case elsewhere =>
    have above : place ≠ above := fun here => apart (here ▸ List.prefix_append ..)
    have outside := chained.elsewhere fun before => apart (prefix_snoc before name)
    exact outside.trans (same above fun here => apart (here ▸ List.prefix_rfl))
  case stays =>
    rcases List.prefix_concat_iff.mp before with rfl | before
    · cases (was other).symm.trans found
    by_cases here : place = above
    · exact absurd (here ▸ was) (next name (here ▸ List.prefix_rfl))
    · have still := chained.stays before found fun n before => next n (prefix_snoc before name)
      exact still.trans (within before here)
  case grown =>
    rcases List.prefix_concat_iff.mp before with whole | before
    · obtain ⟨rfl, last⟩ := List.append_inj' whole rfl
      cases last
      have still : Same o o' place :=
        chained.stays List.prefix_rfl (held.walk "") fun n before => absurd before (not_prefix_snoc place n)
      exact gained (held.same still)
    · have here : place ≠ above := fun here => not_prefix_snoc above n (here ▸ before)
      exact (chained.grown before held lost).same (within ((List.prefix_append ..).trans before) here)
  case made =>
    rcases List.prefix_concat_iff.mp before with rfl | before
    · rw [List.length_append, List.length_singleton]
      exact ⟨self, data, .inl ⟨rfl, holds⟩⟩
    obtain ⟨self', data', new⟩ := chained.made before lost
    refine ⟨self', data', .inr ?_⟩
    by_cases here : place = above
    · rcases new with ⟨_, empty⟩ | ⟨n, before, _⟩
      · exact ⟨name, here ▸ List.prefix_rfl, here ▸ gained (here ▸ empty)⟩
      · exact absurd (here ▸ before) (not_prefix_snoc above n)
    · obtain ⟨n, before', more⟩ := new.resolve_left fun last => here last.1
      exact ⟨n, prefix_snoc before' name, more.same (within before here)⟩

/-- A directory that is made. -/
theorem step {slot : Opening} {self data : Id} (chained : Chained now mode uid gid o above o') (h : o'.Sound)
    (whole : Path.segments path = above ++ [name]) (opens : slot.Open o' path)
    (new : o'.New (.new self data mode uid gid (now (above.length + 1))))
    (made : Made (now (above.length + 1)) o' path slot (.new self data mode uid gid (now (above.length + 1))) o'')
    (is : (Inode.new self data mode uid gid (now (above.length + 1))).isDirectory = true) :
    Chained now mode uid gid o (above ++ [name]) o'' := by
  obtain ⟨holds, gained, same⟩ := made.along h opens new is whole
  exact chained.snoc (whole ▸ opens.lost) holds gained same

end Chained

theorem Same.shape (h : Same o o' place) (other : String) : o'.shape other place = o.shape other place :=
  shape_of_map_glance (map_glance_congr (h.walk other) fun _ found => h.table found)

theorem Same.file? (h : Same o o' place) : o'.file? place = o.file? place := by
  rw [Outline.file?, Outline.file?, h.walk]
  cases found : o.walk "" place with
  | error e => rfl
  | ok i =>
    dsimp only
    rw [h.content found]

/-- Whatever a path is called by, it leads to an entry, to none, or through a file. -/
theorem Sound.walk_cases (h : o.Sound) (place : List String) :
    (∃ i, ∀ other, o.walk other place = .ok i) ∨ o.Lost place ∨
      ∀ other, o.walk other place = .error (.notADirectory other) := by
  induction place using List.reverseRecOn with
  | nil =>
    cases root : o.root with
    | none => exact .inr (.inl fun other => by rw [walk_nil, start, root])
    | some r => exact .inl ⟨r, fun other => by rw [walk_nil, start, root]⟩
  | append_singleton place name ih =>
    rcases ih with ⟨i, found⟩ | lost | blocked
    · cases is : i.isDirectory with
      | false =>
        refine .inr (.inr fun other => ?_)
        rw [walk_snoc, found]
        exact child_of_file is
      | true =>
        obtain ⟨d, table⟩ := h.directory _ _ (h.walk_stored (found "")) is
        have holds : o.Holds place i d := ⟨found, is, table⟩
        cases there : d.find? name with
        | none => exact .inr (.inl (holds.lost there))
        | some id =>
          obtain ⟨k, used, _, rfl⟩ := Directory.exists_of_find? there
          obtain ⟨j, stored⟩ := h.child _ _ k _ table (Directory.named?_eq_some.mpr ⟨used, rfl⟩)
          refine .inl ⟨j, fun other => ?_⟩
          rw [walk_snoc, found, ok_bind, child_of_table is table, there]
          exact load_eq_ok.mpr stored
    · exact .inr (.inl (lost.append [name]))
    · refine .inr (.inr fun other => ?_)
      rw [walk_snoc, blocked]
      rfl

/-- What lacks an entry is a directory. -/
theorem Sound.holds_of_lost (h : o.Sound) (found : o.walk path place = .ok i) (lost : o.Lost (place ++ [name])) :
    ∃ d, o.Holds place i d := by
  cases is : i.isDirectory with
  | true =>
    obtain ⟨d, table⟩ := h.directory _ _ (h.walk_stored found) is
    exact ⟨d, fun other => walk_congr_path other found, is, table⟩
  | false =>
    have blocked := lost path
    rw [walk_snoc, found, ok_bind, child_of_file is] at blocked
    cases blocked

/-- What is not found when asked is nowhere. -/
theorem Sound.lost (h : o.Sound) {e : Failure} (told : o.attributes path = .error e) (missing : e.isNotFound = true) :
    Path.check path = .ok () ∧ o.Lost (Path.segments path) := by
  cases checked : Path.check path with
  | error e' =>
    rw [Outline.attributes, resolve, checked] at told
    cases told
    rw [Path.check] at checked
    split at checked
    · cases checked
      cases missing
    · cases checked
  | ok _ =>
    refine ⟨rfl, ?_⟩
    rcases h.walk_cases (Path.segments path) with ⟨i, found⟩ | lost | blocked
    · rw [attributes_eq_ok.mpr ⟨i, resolve_eq_ok.mpr ⟨checked, found path⟩, rfl⟩] at told
      cases told
    · exact lost
    · rw [Outline.attributes, resolve, checked, ok_bind, blocked] at told
      cases told
      cases missing

end Outline

namespace Session
open Outline
variable {s t : Session} {now : Int64} {permissions uid gid : UInt32} {path : String} {front : List String}

/-- The same is told of a path. -/
structure SameAt (s t : Session) (path : String) : Prop where
  attributes : t.observe (attributes path) = s.observe (attributes path)
  names : t.observe (names path) = s.observe (names path)
  content : t.content path = s.content path

theorem SameAt.of_same (h : s.world.Sound) (h' : t.world.Sound)
    (same : Same s.world.outline t.world.outline (Path.segments path)) : s.SameAt t path where
  attributes := by
    rw [observe_attributes h', observe_attributes h, Outline.attributes, Outline.attributes, resolve, resolve, same.walk]
  names := by
    rw [observe_of_yields (h'.yields_names path), observe_of_yields (h.yields_names path)]
    exact names_congr h.outline h'.outline (same.shape path)
  content := by
    rw [content_eq h', content_eq h]
    exact bytes_congr h.outline h'.outline (same.shape path) same.file?

theorem missing_iff (h : s.world.Sound) (checked : Path.check path = .ok ()) :
    s.Missing path ↔ s.world.outline.Lost (Path.segments path) := by
  rw [Missing, observe_attributes h]
  constructor
  · rintro ⟨e, told, missing⟩
    exact (h.outline.lost told missing).2
  · intro lost
    refine ⟨.notFound path, ?_, rfl⟩
    rw [Outline.attributes, resolve, checked, ok_bind, lost]
    rfl

theorem Missing.check (h : s.world.Sound) (missing : s.Missing path) : Path.check path = .ok () := by
  obtain ⟨e, told, is⟩ := missing
  rw [observe_attributes h] at told
  exact (h.outline.lost told is).1

/-- What is told of a directory. -/
theorem told_of_holds {i : Inode} {d : Directory} (h : s.world.Sound) (held : s.world.outline.Holds (Path.segments path) i d)
    (checked : Path.check path = .ok ()) :
    s.observe (attributes path) = .ok (.ofInode i) ∧ s.observe (names path) = .ok d.listed := by
  have found := resolve_eq_ok.mpr ⟨checked, held.walk path⟩
  rw [observe_attributes h, observe_of_yields (h.yields_names path)]
  exact ⟨attributes_eq_ok.mpr ⟨i, found, rfl⟩, names_eq_listed.mpr ⟨d, listing_eq_ok.mpr ⟨i, found, held.is, held.table⟩, rfl⟩⟩

/-- What is told of a directory that has gained a name. -/
theorem told_of_gained {i : Inode} {d : Directory} {name : String} (h : s.world.Sound) (checked : Path.check path = .ok ())
    (nonempty : name ≠ "") (gained : Gained now s.world.outline (Path.segments path) name i d) : ∃ before after,
      d.listed = "." :: ".." :: (before ++ after) ∧
      s.observe (names path) = .ok ("." :: ".." :: (before ++ name :: after)) ∧
      s.observe (attributes path) = .ok (.ofInode (touched now i (before ++ name :: after).length)) := by
  obtain ⟨k, id, free, held⟩ := gained
  obtain ⟨told, listed⟩ := told_of_holds h held checked
  obtain ⟨before, after, was, more⟩ := Directory.listed_put free nonempty id
  rw [Directory.count_of_listed more] at told
  exact ⟨before, after, was, listed.trans (congrArg Except.ok more), told⟩

theorem plain_touched {i : Inode} {count : Nat} (now : Int64) (typed : i.Typed) (fits : count < UInt64.size) :
    (Attributes.ofInode (touched now i count)).plain = ((Facts.of i).touched now count).attributes i.kind := by
  have typed' : (touched now i count).Typed := typed
  rw [← Facts.attributes_of typed', Facts.of_touched now i fits]
  rfl

/-- The directories along `front` are there. Those that were missing are new, and each has the next one in it and
nothing else. A directory is made at the time `now` tells for the names that lead to it, and that is the last time at
which the one above it has changed. -/
structure Chain (now : Nat → Int64) (permissions uid gid : UInt32) (s : Session) (front : List String) (t : Session) : Prop where
  /-- The paths that the directories are made at lead to their places. -/
  spelled : ∀ {place}, place <+: front → Path.check (Path.along place) = .ok () ∧ Path.segments (Path.along place) = place
  stands : ∀ {path}, Path.check path = .ok () → Path.segments path <+: front →
    ∃ a, t.observe (attributes path) = .ok a ∧ a.kind = .directory
  /-- A new directory is the last of them, and empty, or has the next one in it. -/
  made : ∀ {path}, Path.segments path <+: front → s.Missing path →
    let new := Facts.new permissions uid gid (now (Path.segments path).length)
    Path.segments path = front ∧ t.observe (names path) = .ok [".", ".."] ∧
      (t.observe (attributes path)).map Attributes.plain = .ok (new.attributes .directory) ∨
    ∃ name, Path.segments path ++ [name] <+: front ∧ t.observe (names path) = .ok [".", "..", name] ∧
      (t.observe (attributes path)).map Attributes.plain =
        .ok ((new.touched (now ((Path.segments path).length + 1)) 1).attributes .directory)
  /-- A directory that was there and lacked the next one now has it, among the names that it had. -/
  grown : ∀ {path a name}, Path.segments path ++ [name] <+: front → s.observe (attributes path) = .ok a →
    s.Missing (Path.along (Path.segments path ++ [name])) → ∃ before after,
      s.observe (names path) = .ok ("." :: ".." :: (before ++ after)) ∧
      t.observe (names path) = .ok ("." :: ".." :: (before ++ name :: after)) ∧
      t.observe (attributes path) = .ok { a with
        size := UInt64.ofNat (before ++ name :: after).length
        mtime := now ((Path.segments path).length + 1)
        ctime := now ((Path.segments path).length + 1) }
  /-- All else that was there is as it was. -/
  stays : ∀ {path a}, s.observe (attributes path) = .ok a →
    (∀ name, Path.segments path ++ [name] <+: front → ¬ s.Missing (Path.along (Path.segments path ++ [name]))) →
    s.SameAt t path
  elsewhere : ∀ {path}, ¬ Path.segments path <+: front → s.SameAt t path

theorem Chain.of_chained {now : Nat → Int64} (h : s.world.Sound) (h' : t.world.Sound) (each : ∀ name ∈ front, Path.Segment name)
    (checked : Path.check (Path.along front) = .ok ())
    (chained : Chained now (Mode.directory ||| (permissions &&& Mode.permissionMask)) uid gid s.world.outline front
      t.world.outline) :
    s.Chain now permissions uid gid front t := by
  have segments {place : List String} (before : place <+: front) : Path.segments (Path.along place) = place :=
    Path.segments_along fun name member => each name (before.subset member)
  have nonempty {place : List String} {name : String} (before : place ++ [name] <+: front) : name ≠ "" :=
    (each name (before.subset (by simp))).1
  have elsewhere {path : String} (apart : ¬ Path.segments path <+: front) : s.SameAt t path :=
    .of_same h h' (chained.elsewhere apart)
  refine {
    spelled := fun before => ⟨Path.check_along before checked, segments before⟩
    stands := fun checked before => ?stands
    made := fun {path} before missing => ?made
    grown := fun {path a name} before told missing => ?grown
    stays := fun {path a} told next => ?stays
    elsewhere }
  case stands =>
    obtain ⟨i, d, held⟩ := chained.stands before
    exact ⟨_, (told_of_holds h' held checked).1, Inode.isDirectory_iff.mp held.is⟩
  case made =>
    have checked' := missing.check h
    have lost := (missing_iff h checked').mp missing
    obtain ⟨self, data, new⟩ := chained.made before lost
    obtain ⟨facts, kind, typed⟩ :=
      @Facts.of_new _ .directory self data permissions uid gid (now (Path.segments path).length) rfl
    rcases new with ⟨here, held⟩ | ⟨name, before', gained⟩
    · obtain ⟨told, listed⟩ := told_of_holds h' held checked'
      refine .inl ⟨here, listed.trans (congrArg Except.ok (Directory.listed_empty data)), ?_⟩
      have plain := Facts.attributes_of typed
      rw [facts, kind] at plain
      rw [told, plain]
      rfl
    · obtain ⟨front', back, none, listed, told⟩ := told_of_gained h' checked' (nonempty before') gained
      rw [Directory.listed_empty] at none
      obtain ⟨rfl, rfl⟩ := List.append_eq_nil_iff.mp (List.cons.inj (List.cons.inj none).2).2.symm
      refine .inr ⟨name, before', listed, ?_⟩
      have plain := plain_touched (now ((Path.segments path).length + 1)) typed (by decide : 1 < UInt64.size)
      rw [facts, kind] at plain
      rw [told]
      exact congrArg Except.ok plain
  case grown =>
    have next := missing_iff h (Path.check_along before checked)
    rw [segments before] at next
    rw [observe_attributes h] at told
    obtain ⟨i, found, rfl⟩ := attributes_eq_ok.mp told
    obtain ⟨checked', walked⟩ := resolve_eq_ok.mp found
    obtain ⟨d, held⟩ := h.outline.holds_of_lost walked (next.mp missing)
    have gained := chained.grown before held (next.mp missing)
    obtain ⟨front', back, was, listed, told'⟩ := told_of_gained h' checked' (nonempty before) gained
    refine ⟨front', back, ?_, listed, told'⟩
    rw [(told_of_holds h held checked').2, was]
  case stays =>
    by_cases before : Path.segments path <+: front
    · rw [observe_attributes h] at told
      obtain ⟨i, found, rfl⟩ := attributes_eq_ok.mp told
      refine .of_same h h' (chained.stays before (resolve_eq_ok.mp found).2 fun name before lost => next name before ?_)
      rw [missing_iff h (Path.check_along before checked), segments before]
      exact lost
    · exact elsewhere before

end Session
end RecordFs
