import RecordFs.Proofs.Tree.Making
import RecordFs.Proofs.Tree.Showing
import RecordFs.Proofs.Volume.FailedWrites
import RecordFs.Proofs.Volume.Interrupted

/-! Making and removing entries is all or nothing: after a failure at any call of the store the
volume shows the tree from before, or the tree of a call that did not fail. -/
namespace RecordFs
open Function Volume

theorem Directory.count_congr {d e : Directory} (same : d.names = e.names) : d.count = e.count := by
  have names : d.occupied.map (·.name) = e.occupied.map (·.name) := by
    rw [d.map_name_occupied, e.map_name_occupied, same]
  have lengths := congrArg List.length names
  rwa [List.length_map, List.length_map] at lengths

namespace Outline
variable {o o' o₁ o₂ : Outline} {path other : String} {now : Int64} {place segments : List String} {parent i i' : Inode}
  {slot : Opening}

section touched
variable (h : o.Sound) (found : o.walk path place = .ok parent) (now) (n : Nat)
include h found

/-- New times and a new size of a directory show at its own place only. -/
theorem map_glance_touched (apart : segments ≠ place) :
    ((o.setInode (touched now parent n)).walk other segments).map (o.setInode (touched now parent n)).glance =
      (o.walk other segments).map o.glance := by
  rw [h.walk_setInode (j := touched now parent n) (walk_congr_path other found) rfl rfl rfl, if_neg apart]
  rfl

theorem sameTree_touched (is : parent.isDirectory = true) : SameTree o (o.setInode (touched now parent n)) := by
  constructor
  · intro other segments
    by_cases here : segments = place
    · rw [shape, shape, h.walk_setInode (j := touched now parent n) (walk_congr_path other found) rfl rfl rfl,
        if_pos here, here, walk_congr_path other found]
      rfl
    · exact shape_of_map_glance (map_glance_touched now h found n here)
  · intro segments
    exact h.file?_setInode (j := touched now parent n) found rfl rfl rfl fun _ => .inl is

end touched

section twice
variable (made₁ : Made now o path slot i o₁) (made₂ : Made now o path slot i' o₂) (h : o.Sound) (opens : slot.Open o path)
  (new₁ : o.New i) (new₂ : o.New i') (kind : i'.kind = i.kind)
include made₁ made₂ h opens new₁ new₂ kind

/-- Two new entries with the same facts show the same, whatever their identifiers are. -/
theorem Made.map_glance_eq (facts : Facts.of i' = .of i) (other : String) (segments : List String) :
    (o₂.walk other segments).map o₂.glance = (o₁.walk other segments).map o₁.glance := by
  by_cases atParent : segments = (Path.segments path).dropLast
  · have nonempty := (entry_of_lastName opens.last).nonempty
    have count : (slot.filled i'.self).count = (slot.filled i.self).count :=
      Directory.count_congr ((Directory.names_put nonempty).trans (Directory.names_put nonempty).symm)
    rw [made₁.walk, made₂.walk, if_pos atParent, if_pos atParent]
    change Except.ok _ = Except.ok _
    rw [made₁.glance_parent opens, made₂.glance_parent opens, count]
  by_cases through : Path.segments path <+: segments
  · obtain ⟨rest, rfl⟩ := through
    cases rest with
    | nil =>
      rw [List.append_nil, made₁.walk_entry opens, made₂.walk_entry opens]
      change Except.ok _ = Except.ok _
      rw [made₁.glance_entry h opens new₁, made₂.glance_entry h opens new₂, facts, kind]
    | cons name rest =>
      rw [made₁.walk_behind, made₂.walk_behind, pastLeaf, pastLeaf, Inode.isDirectory, Inode.isDirectory, kind]
      rfl
  · rw [made₁.others h opens new₁ other atParent through, made₂.others h opens new₂ other atParent through]

omit h new₁ new₂ in
/-- A new file is empty, and a new directory is no file. -/
theorem Made.file?_entry (size₁ : i.size = 0) (size₂ : i'.size = 0) :
    o₂.file? (Path.segments path) = o₁.file? (Path.segments path) := by
  cases is : i.kind with
  | file => rw [made₁.file?_eq opens.last is size₁, made₂.file?_eq opens.last (kind.trans is) size₂]
  | directory =>
    rw [file?_of_walk (made₁.walk_entry opens path), file?_of_walk (made₂.walk_entry opens path),
      Inode.isDirectory_iff.mpr is, Inode.isDirectory_iff.mpr (kind.trans is)]
    rfl

end twice
end Outline

namespace Volume

/-- The path of the entry that a call makes or removes. -/
def Call.entry? : Call → Option String
  | .makeFile path .. | .makeDirectory path .. | .removeFile path | .removeDirectory path => some path
  | _ => none

/-- A kind with the permissions and the owner that go with it. -/
structure Request where
  kind : EntryKind
  mode : UInt32
  uid : UInt32
  gid : UInt32

/-- What a call is to make. -/
def Call.request? : Call → Option Request
  | .makeFile _ mode uid gid => some ⟨.file, mode, uid, gid⟩
  | .makeDirectory _ mode uid gid => some ⟨.directory, mode, uid, gid⟩
  | _ => none

end Volume

namespace Session

/-- Whatever is asked of any path, the answer is the same. -/
structure Unchanged (s t : Session) : Prop where
  attributes : ∀ path, t.observe (attributes path) = s.observe (attributes path)
  names : ∀ path, t.observe (names path) = s.observe (names path)
  entries : ∀ path, t.observe (entries path) = s.observe (entries path)
  read : ∀ path offset length, t.observe (read path offset length) = s.observe (read path offset length)

/-- The same names, kinds of entries and bytes of files. -/
structure SameTree (s t : Session) : Prop where
  kind : ∀ path, (t.observe (attributes path)).map (·.kind) = (s.observe (attributes path)).map (·.kind)
  names : ∀ path, t.observe (names path) = s.observe (names path)
  content : ∀ path, t.content path = s.content path

/-- An entry is as it was asked for, with nothing in it. -/
structure Complete (s : Session) (path : String) (now : Int64) (request : Request) : Prop where
  attributes : (s.observe (attributes path)).map Attributes.plain =
    .ok ((Facts.new request.mode request.uid request.gid now).attributes request.kind)
  empty : match request.kind with
    | .file => s.content path = .ok .empty
    | .directory => s.observe (names path) = .ok [".", ".."]

/-- All is there that the call leaves when nothing fails, but the directory of the entry has the size and the times
that it had. -/
structure Finished (s : Session) (now : Int64) (call : Call) (path : String) (t : Session) : Prop where
  tree : ∀ {r u}, s.calm.Performs now call r u → (∃ a, r = .ok a) ∧ u.SameTree t ∧
    ∀ other, Path.segments other ≠ (Path.segments path).dropLast →
      (t.observe (attributes other)).map Attributes.plain = (u.observe (attributes other)).map Attributes.plain
  parent : ∀ other, Path.segments other = (Path.segments path).dropLast →
    t.observe (attributes other) = s.observe (attributes other)
  complete : ∀ request, call.request? = some request → t.Complete path now request

/-- What making and removing entries leaves. -/
structure NamespaceLaws (s : Session) : Prop where
  failed : ∀ {now call path e t}, call.entry? = some path → s.Performs now call (.error e) t →
    s.Unchanged t ∨ s.Finished now call path t
  /-- A call that succeeds has brought the size of the directory up to date. -/
  counted : ∀ {now call path a t}, call.entry? = some path → s.Performs now call (.ok a) t →
    ∀ parent, Path.check parent = .ok () → Path.segments parent = (Path.segments path).dropLast →
      ∃ told names, t.observe (attributes parent) = .ok told ∧ t.observe (Volume.names parent) = .ok names ∧
        names.length = told.size.toNat + 2

open Outline

variable {s t u : Session} {now : Int64} {call : Call} {path : String} {e : Failure} {a : Answer}

theorem Unchanged.of_unseen (h : s.world.Sound) (h' : t.world.Sound) (unseen : Unseen s.world.outline t.world.outline) :
    s.Unchanged t where
  attributes path := by rw [observe_attributes h', observe_attributes h, unseen.attributes]
  names path := by rw [observe_of_yields (h'.yields_names path), observe_of_yields (h.yields_names path), unseen.names]
  entries path := by rw [observe_of_yields (h'.yields_entries path), observe_of_yields (h.yields_entries path), unseen.entries]
  read path offset length := by
    rw [observe_of_yields (h'.yields_read path offset length), observe_of_yields (h.yields_read path offset length), unseen.read]

theorem SameTree.of_outline (h : s.world.Sound) (h' : t.world.Sound)
    (same : Outline.SameTree s.world.outline t.world.outline) : s.SameTree t where
  kind path := by
    rw [observe_attributes h', observe_attributes h]
    exact kind_congr h.outline h'.outline (same.shape path _)
  names path := by
    rw [observe_of_yields (h'.yields_names path), observe_of_yields (h.yields_names path)]
    exact names_congr h.outline h'.outline (same.shape path _)
  content path := by
    rw [content_eq h', content_eq h]
    exact bytes_congr h.outline h'.outline (same.shape path _) (same.file? _)

/-- Only the inode of the directory is missing to what the call leaves when nothing fails. -/
theorem Finished.of_behind {parent : Inode} {n : Nat} (h : s.world.Sound) (h' : t.world.Sound)
    (before : s.world.outline.walk path (Path.segments path).dropLast = .ok parent)
    (after : t.world.outline.walk path (Path.segments path).dropLast = .ok parent) (is : parent.isDirectory = true)
    (ends : ∀ {r u}, s.calm.Performs now call r u → (∃ a, r = .ok a) ∧
      (∀ other segments, (u.world.outline.walk other segments).map u.world.outline.glance =
        ((t.world.outline.setInode (touched now parent n)).walk other segments).map
          (t.world.outline.setInode (touched now parent n)).glance) ∧
      ∀ segments, u.world.outline.file? segments = (t.world.outline.setInode (touched now parent n)).file? segments)
    (complete : ∀ request, call.request? = some request → t.Complete path now request) : s.Finished now call path t where
  tree {r u} performed := by
    have sound : u.world.Sound := (performed.follows (s := s.calm) h).1
    obtain ⟨ok, shown, files⟩ := ends performed
    have last : Outline.SameTree (t.world.outline.setInode (touched now parent n)) u.world.outline :=
      ⟨fun other segments => shape_of_map_glance (shown other segments), files⟩
    have same := (sameTree_touched now h'.outline after n is).trans last
    refine ⟨ok, .of_outline sound h' same.symm, fun other apart => ?_⟩
    rw [observe_attributes h', observe_attributes sound]
    apply plain_congr sound.outline h'.outline
    rw [shown]
    exact (map_glance_touched now h'.outline after n apart).symm
  parent other here := by
    rw [observe_attributes h', observe_attributes h, Outline.attributes, Outline.attributes, resolve, resolve, here,
      walk_congr_path other before, walk_congr_path other after]
  complete := complete

/-- Without a failure a call that is planned succeeds, and makes all its changes. -/
theorem carried_of_calm {α : Type} {g : α → Answer} {plan : Except Failure (Plan α)} {allowed : Plan α}
    {r : Except Failure Answer} (h : s.world.Sound) (planned : s.world.outline.plan now call = Plan.map g <$> plan)
    (ok : plan = .ok allowed) (performed : s.calm.Performs now call r u) :
    ∃ changes a, r = .ok (g a) ∧ allowed changes a ∧ Carried False changes (g a) s.world.outline (.ok (g a)) u.world.outline := by
  have follows := (performed.follows (s := s.calm) h).2
  change Follows s.calm.disk.Faulty (s.world.outline.plan now call) s.world.outline r u.world.outline at follows
  rw [planned] at follows
  obtain ⟨allowed', _, a', ok', _, rfl⟩ | ⟨e, refused, _⟩ | ⟨never, _⟩ := follows.result
  · obtain ⟨allowed', changes, a, ok', planned, carried⟩ := follows.succeeded
    rw [ok] at ok'
    cases ok'
    have steady := carried.steady
    rcases steady.result with same | ⟨never, _⟩
    · rw [same] at steady
      exact ⟨changes, a, same, planned, steady⟩
    · exact never.elim
  · rw [ok] at refused
    cases refused
  · exact absurd never s.not_faulty_calm

section make
variable (h : s.world.Sound) {place : Opening} {i : Inode} {request : Request}
include h

/-- What stands behind the name of a new entry. -/
theorem complete_of_made {o : Outline} (sound : t.world.Sound) (opens : place.Open s.world.outline path)
    (new : s.world.outline.New i) (made : Made now s.world.outline path place i o) (typed : i.Typed)
    (facts : Facts.of i = .new request.mode request.uid request.gid now) (kind : i.kind = request.kind) (size : i.size = 0)
    (same : Outline.SameTree t.world.outline o)
    (shown : (t.world.outline.walk path (Path.segments path)).map t.world.outline.glance =
      (o.walk path (Path.segments path)).map o.glance) : t.Complete path now request := by
  have checked := (lastName_eq_ok.mp opens.last).1
  have resolved : o.resolve path = .ok i := resolve_eq_ok.mpr ⟨checked, made.walk_entry opens path⟩
  constructor
  · rw [observe_attributes sound, plain_congr made.sound sound.outline shown, Outline.attributes, resolved]
    change Except.ok (Attributes.plain _) = _
    rw [← Facts.attributes_of typed, facts, kind]
  · cases is : request.kind with
    | file =>
      change t.content path = _
      rw [content_eq_ok_iff_file? sound, ← same.file?, made.file?_eq opens.last (kind.trans is) size]
      exact ⟨checked, rfl⟩
    | directory =>
      change t.observe (names path) = _
      have slots : (o.glance i).names = some fun _ => none := by
        rw [made.glance_entry h.outline opens new, kind, is]
        rfl
      rw [observe_of_yields (sound.yields_names path), names_congr made.sound sound.outline (same.shape path _).symm,
        made.sound.names_eq_ok resolved slots]
      simp

/-- An entry that was to be made is not to be seen, or is there as it was to be. -/
theorem unchanged_or_finished_make
    (plan : ∀ o : Outline, o.plan now call = Plan.map .attributes <$>
      o.planMake now path (request.kind.bits ||| (request.mode &&& Mode.permissionMask)) request.uid request.gid)
    (asked : call.request? = some request) (performed : s.Performs now call (.error e) t) :
    s.Unchanged t ∨ s.Finished now call path t := by
  obtain ⟨sound, follows⟩ := performed.follows h
  rw [plan] at follows
  rcases follows.carried with same | ⟨allowed, changes, a, planned, ok, carried⟩
  · exact .inl (.of_unseen h sound (same ▸ .refl _))
  have whole := planned
  obtain ⟨place, opened, same⟩ := bind_eq_ok.mp planned
  cases same
  obtain ⟨self, data, new, rfl, rfl⟩ := ok
  obtain ⟨facts, kind, typed⟩ := @Facts.of_new _ request.kind self data request.mode request.uid request.gid now rfl
  have opens := open_of_opening opened
  rcases unseen_or_linked h.outline opens new carried with unseen | ⟨found, finished⟩
  · exact .inl (.of_unseen h sound unseen)
  have saved := sound.save_touched now (sound.outline.walk_stored found) opens.is (place.filled self).count
  have soundLast := saved.1.outline
  rw [saved.2] at soundLast
  have made := finished soundLast
  right
  apply Finished.of_behind h sound opens.found found opens.is
  · intro r u performed
    obtain ⟨_, _, rfl, ⟨self', data', new', rfl, rfl⟩, carried'⟩ := carried_of_calm h (plan _) whole performed
    obtain ⟨facts', kind', _⟩ := @Facts.of_new _ request.kind self' data' request.mode request.uid request.gid now rfl
    obtain ⟨_, made'⟩ := made_of_carried h.outline opens new' carried'
    refine ⟨⟨_, rfl⟩, ?_, fun segments => ?_⟩
    · exact made.map_glance_eq made' h.outline opens new new' (kind'.trans kind.symm) (facts'.trans facts.symm)
    · by_cases here : segments = Path.segments path
      · rw [here]
        exact made.file?_entry made' opens (kind'.trans kind.symm) rfl rfl
      · rw [(sameTree_touched now sound.outline found _ opens.is).file?, file?_of_make h.outline opens new' carried' here,
          file?_of_make h.outline opens new carried here]
  · intro request' asked'
    rw [asked] at asked'
    cases asked'
    exact complete_of_made h sound opens new made typed facts kind rfl
      (sameTree_touched now sound.outline found _ opens.is)
      (map_glance_touched now sound.outline found _ fun here => not_prefix_dropLast opens.last (here ▸ List.prefix_rfl)).symm

end make

/-- An entry that was to be removed is there as it was, or gone. -/
theorem unchanged_or_finished_remove {plan : Except Failure (Plan Unit)} (h : s.world.Sound)
    (planned : s.world.outline.plan now call = Plan.map (fun _ => .done) <$> plan)
    (removes : ∀ {allowed}, plan = .ok allowed → ∃ parent d k, Removal s.world.outline path parent d k ∧
      allowed = .just [.table (d.put k {}), .inode (touched now parent (d.put k {}).count)] ())
    (asked : call.request? = none) (performed : s.Performs now call (.error e) t) :
    s.Unchanged t ∨ s.Finished now call path t := by
  obtain ⟨sound, follows⟩ := performed.follows h
  rw [planned] at follows
  rcases follows.carried with same | ⟨allowed, changes, a, ok, allows, carried⟩
  · exact .inl (.of_unseen h sound (same ▸ .refl _))
  obtain ⟨parent, d, k, removal, rfl⟩ := removes ok
  obtain ⟨rfl, _⟩ := allows
  rcases kept_or_removed h.outline removal carried with same | ⟨found, same⟩
  · exact .inl (.of_unseen h sound (same ▸ .refl _))
  right
  apply Finished.of_behind h sound removal.found found removal.is (n := (d.put k {}).count)
  · intro r u performed
    obtain ⟨_, _, rfl, ⟨rfl, _⟩, carried'⟩ := carried_of_calm h planned ok performed
    have last : u.world.outline = t.world.outline.setInode (touched now parent (d.put k {}).count) := by
      obtain ⟨_, rest⟩ := carried'.cons_ok
      obtain ⟨_, rest⟩ := rest.cons_ok
      rw [(rest.nil_ok).2, same]
      rfl
    rw [last]
    exact ⟨⟨_, rfl⟩, fun _ _ => rfl, fun _ => rfl⟩
  · intro request asked'
    rw [asked] at asked'
    cases asked'

/-- A directory with the size that it was just given shows as many names. -/
theorem counted_of_walk {parent : Inode} {d : Directory} {other : String} (sound : t.world.Sound)
    (checked : Path.check other = .ok ())
    (walked : t.world.outline.walk other (Path.segments other) = .ok (touched now parent d.count))
    (is : parent.isDirectory = true) (table : t.world.outline.table parent.data = some d) :
    ∃ told names, t.observe (attributes other) = .ok told ∧ t.observe (Volume.names other) = .ok names ∧
      names.length = told.size.toNat + 2 := by
  have resolved : t.world.outline.resolve other = .ok (touched now parent d.count) := resolve_eq_ok.mpr ⟨checked, walked⟩
  have listed : t.world.outline.listing other = .ok d := listing_eq_ok.mpr ⟨_, resolved, is, table⟩
  have fits : d.count < UInt64.size := Nat.lt_of_le_of_lt (Directory.count_le d) (by decide)
  have size : (touched now parent d.count).size.toNat = d.count := UInt64.toNat_ofNat_of_lt' fits
  refine ⟨.ofInode (touched now parent d.count), "." :: ".." :: d.occupied.map (·.name), ?_, ?_, ?_⟩
  · rw [observe_attributes sound]
    exact attributes_eq_ok.mpr ⟨_, resolved, rfl⟩
  · rw [observe_of_yields (sound.yields_names other), Outline.names, listed]
    rfl
  · change _ = (touched now parent d.count).size.toNat + 2
    rw [size, List.length_cons, List.length_cons, List.length_map]
    rfl

section counted
variable {other : String} (h : s.world.Sound) (checked : Path.check other = .ok ())
  (here : Path.segments other = (Path.segments path).dropLast) (performed : s.Performs now call (.ok a) t)
include h checked here performed

theorem counted_make {mode uid gid : UInt32} (planned : s.world.outline.plan now call =
    Plan.map .attributes <$> s.world.outline.planMake now path mode uid gid) :
    ∃ told names, t.observe (attributes other) = .ok told ∧ t.observe (Volume.names other) = .ok names ∧
      names.length = told.size.toNat + 2 := by
  obtain ⟨sound, follows⟩ := performed.follows h
  rw [planned] at follows
  obtain ⟨place, self, data, opens, new, _, made⟩ := follows.made h.outline
  have walked := made.walk other (Path.segments other)
  rw [if_pos here] at walked
  have table : t.world.outline.table place.parent.data = some (place.filled self) := by
    rw [made.table]
    exact update_self ..
  exact counted_of_walk sound checked walked opens.is table

theorem counted_remove {plan : Except Failure (Plan Unit)}
    (planned : s.world.outline.plan now call = Plan.map (fun _ => .done) <$> plan)
    (removes : ∀ {allowed}, plan = .ok allowed → ∃ parent d k, Removal s.world.outline path parent d k ∧
      allowed = .just [.table (d.put k {}), .inode (touched now parent (d.put k {}).count)] ()) :
    ∃ told names, t.observe (attributes other) = .ok told ∧ t.observe (Volume.names other) = .ok names ∧
      names.length = told.size.toNat + 2 := by
  obtain ⟨sound, follows⟩ := performed.follows h
  rw [planned] at follows
  obtain ⟨allowed, changes, _, ok, allows, carried⟩ := follows.succeeded
  obtain ⟨parent, d, k, removal, rfl⟩ := removes ok
  obtain ⟨rfl, _⟩ := allows
  obtain ⟨_, removed⟩ := removal.removed_of_carried h.outline carried
  have walked := removed.walk other (Path.segments other)
  rw [if_pos here] at walked
  have table : t.world.outline.table parent.data = some (d.put k {}) := by rw [removed.table, update_self]
  exact counted_of_walk sound checked walked removal.is table

end counted

theorem NamespaceLaws.of_sound (h : s.world.Sound) : s.NamespaceLaws where
  failed {now call path e t} entry performed := by
    cases call with
    | makeFile p mode uid gid =>
      cases entry
      have asked : (Call.makeFile path mode uid gid).request? = some ⟨.file, mode, uid, gid⟩ := rfl
      apply unchanged_or_finished_make h _ asked performed
      intro o
      rfl
    | makeDirectory p mode uid gid =>
      cases entry
      have asked : (Call.makeDirectory path mode uid gid).request? = some ⟨.directory, mode, uid, gid⟩ := rfl
      apply unchanged_or_finished_make h _ asked performed
      intro o
      rfl
    | removeFile p =>
      cases entry
      exact unchanged_or_finished_remove h rfl removal_of_removeFile rfl performed
    | removeDirectory p =>
      cases entry
      exact unchanged_or_finished_remove h rfl removal_of_removeDirectory rfl performed
    | attributes | names | entries | setMode | setOwner | setTimes | read | write | resize | settle => cases entry
  counted {now call path a t} entry performed parent checked here := by
    cases call with
    | makeFile p mode uid gid | makeDirectory p mode uid gid =>
      cases entry
      exact counted_make h checked here performed rfl
    | removeFile p =>
      cases entry
      exact counted_remove h checked here performed rfl removal_of_removeFile
    | removeDirectory p =>
      cases entry
      exact counted_remove h checked here performed rfl removal_of_removeDirectory
    | attributes | names | entries | setMode | setOwner | setTimes | read | write | resize | settle => cases entry

/-- Whatever failed before, the next change of names in a directory is all or nothing. -/
theorem Reachable.namespaceLaws (h : Reachable s) : s.NamespaceLaws := .of_sound h.sound

/-- On a full store neither a second file is made in a directory nor the first one removed. When there is room again
it is made, and the size of the directory is two. -/
theorem namespaceLaws_nested : nested.full.Reachable ∧ nested.full.NamespaceLaws ∧
    (∃ f t, nested.full.Performs 3 (.removeFile "/d/f") (.error (.ofFault f)) t ∧
      (nested.full.Unchanged t ∨ nested.full.Finished 3 (.removeFile "/d/f") "/d/f" t) ∧
      t.observe (names "/d") = .ok [".", "..", "f"]) ∧
    ∃ f t, nested.full.Performs 3 (.makeFile "/d/g" 0o644 0 0) (.error (.ofFault f)) t ∧
      (nested.full.Unchanged t ∨ nested.full.Finished 3 (.makeFile "/d/g" 0o644 0 0) "/d/g" t) ∧
      t.observe (names "/d") = .ok [".", "..", "f"] ∧
      ∃ a u told, t.calm.NamespaceLaws ∧ t.calm.Performs 4 (.makeFile "/d/g" 0o644 0 0) (.ok a) u ∧
        u.observe (attributes "/d") = .ok told ∧ told.size.toNat = 2 := by
  have reachable := displays_nested.reachable.full
  have laws := Reachable.namespaceLaws reachable
  have listed := displays_nested.shows.outline.names displays_nested.shows.sound.outline
    (by decide +kernel : nestedTree.Lists "/d" [".", "..", "f"])
  have fails (call : Call) (path : String) (entry : call.entry? = some path)
      (changes : (nestedTree.after 3 call).told path ≠ nestedTree.told path) :
      ∃ f t, nested.full.Performs 3 call (.error (.ofFault f)) t ∧
        (nested.full.Unchanged t ∨ nested.full.Finished 3 call path t) ∧ t.observe (names "/d") = .ok [".", "..", "f"] := by
    obtain ⟨f, t, failed, kept⟩ := displays_nested.fails_of_full (by decide) 3 call path changes
    have sound := (reachable.called failed).sound
    refine ⟨f, t, failed, laws.failed entry failed, ?_⟩
    rw [observe_of_yields (sound.yields_names "/d"), kept.outline, listed]
  obtain ⟨f, t, failed, whole, same⟩ := fails (.makeFile "/d/g" 0o644 0 0) "/d/g" rfl (by decide +kernel)
  have displays := displays_nested.calm_of_full failed
  obtain ⟨a, made, after⟩ := displays.succeeds (by decide) 4 (.makeFile "/d/g" 0o644 0 0) (by decide +kernel)
  have laws' := Reachable.namespaceLaws displays.reachable
  obtain ⟨told, held, shown, counted, length⟩ := laws'.counted rfl made "/d" rfl (by decide +kernel)
  have two := after.shows.outline.names after.shows.sound.outline
    (by decide +kernel : Tree.Lists _ "/d" [".", "..", "f", "g"])
  rw [observe_of_yields (after.shows.sound.yields_names "/d"), two] at counted
  cases counted
  have size : 4 = told.size.toNat + 2 := length
  exact ⟨reachable, laws, fails (.removeFile "/d/f") "/d/f" rfl (by decide +kernel), f, t, failed, whole, same, a, _, told,
    laws', made, shown, by omega⟩

end Session
end RecordFs
