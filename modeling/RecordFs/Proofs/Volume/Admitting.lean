import RecordFs.Proofs.Content.Admitting
import RecordFs.Proofs.Volume.Performing
import RecordFs.Proofs.Volume.Starting

/-! Calls put only what is admitted: an inode again with its key, its data and its type, a table again with
other entries, and anything else under a key that is new. Opening a volume puts a root where none is named. -/
namespace RecordFs
open Outline Stored Volume

theorem Inode.Alike.keeps {i j : Inode} (alike : i.Alike j) (typed : i.Typed) : i.Keeps j where
  self := alike.self
  data := alike.data
  type := by rw [alike.typed.type, typed.type, alike.kind]

theorem Inode.keeps_touched (now : Int64) (i : Inode) (size : Nat) : i.Keeps (touched now i size) := ⟨rfl, rfl, rfl⟩

namespace World
variable {α : Type} {w : World} {i parent : Inode} {d : Directory}

namespace Sound
variable (h : w.Sound) (now : Int64) (path : String)
include h

theorem careful_change {f : Inode → Inode} (alike : ∀ i : Inode, i.Typed → i.Alike (f i)) : Careful (change path now f) w := by
  refine .after (h.yields_resolve path) fun i ok => ?_
  have stored := h.outline.resolve_stored ok
  have typed := (h.inode _ _ stored).mode
  have same := (alike i typed).changed now
  have stored' : w.get Inode (f i).self = some i := (alike i typed).self ▸ stored
  exact .save (admits_again (κ := .inode) stored' (same.keeps typed))

theorem careful_saveTable (stored : w.get Inode parent.self = some parent) (table : w.get Directory parent.data = some d)
    (d' : Directory) : Careful (saveTable now parent d') w := by
  have other : parent.self ≠ parent.data := by
    intro same
    have none := get_none_of_kind (σ := Inode) table (by decide)
    rw [← same, stored] at none
    cases none
  have root := writable_of_apart (h.apart_of_room (room_of_get table) (by decide)) d'
  refine .save_bind (admits_again (κ := .directory) table trivial) root ?_
  have stored' : (w.save parent.data d').get Inode parent.self = some parent := by
    rw [get_of_find_eq (find_save_of_ne w d' other), stored]
  exact .save (admits_again (κ := .inode) stored' (Inode.keeps_touched now parent _))

theorem careful_detach (stored : w.get Inode parent.self = some parent) (table : w.get Directory parent.data = some d)
    (name : String) : Careful (detach now parent d name) w := by
  rw [detach]
  cases d.remove? name with
  | none => exact .throw _
  | some rest => exact h.careful_saveTable now stored table _

theorem careful_removeFile : Careful (removeFile now path) w := by
  refine .after (h.yields_resolveParent path) fun found ok => ?_
  obtain ⟨parent, name⟩ := found
  obtain ⟨_, walked, _⟩ := resolveParent_eq_ok.mp ok
  have stored := h.outline.walk_stored walked
  refine .after (h.yields_directory stored) fun d listed => ?_
  obtain ⟨_, table⟩ := directory_eq_ok.mp listed
  dsimp only
  cases found : d.find? name with
  | none => exact .throw _
  | some id =>
    obtain ⟨i, inode⟩ := h.outline.child_of_find? table found
    refine .after (Store.yields_load inode) ?_
    rintro _ ⟨⟩
    split
    · exact .throw _
    · exact h.careful_detach now stored table name

theorem careful_removeDirectory : Careful (removeDirectory now path) w := by
  refine .after (h.yields_resolve path) fun target ok => ?_
  have stored := h.outline.resolve_stored ok
  split
  · refine .after (h.yields_directory stored) fun d _ => ?_
    split
    · refine .after (h.yields_resolveParent path) fun found ok => ?_
      obtain ⟨parent, name⟩ := found
      obtain ⟨_, walked, is⟩ := resolveParent_eq_ok.mp ok
      have stored := h.outline.walk_stored walked
      refine .after (h.yields_directory stored) fun d listed => ?_
      exact h.careful_detach now stored (directory_eq_ok.mp listed).2 name
    · exact .throw _
  · exact .throw _

end Sound

/-- A new inode is stored, then the table that names it and the inode of its directory. -/
theorem Awaits.careful_link (h : w.Awaits i) (now : Int64) (other : i.self ≠ .rootPointer) (typed : i.Typed) (size : i.size = 0)
    (stored : w.get Inode parent.self = some parent) (table : w.get Directory parent.data = some d) (d' : Directory)
    (answer : α) : Careful (do Store.saveInode i; saveTable now parent d'; return answer) w := by
  have proper : i.Proper i.self := ⟨rfl, typed, fun _ => by rw [size]; exact Nat.zero_le _⟩
  obtain ⟨sound, _⟩ := h.sound.add_inode h.fresh.none h.fresh.used proper h.unnamed h.data
  refine .save_bind (admits_new h.fresh.none other i) (writable_inode w i) ?_
  have parent' := get_save_of_new h.fresh.none i stored
  have table' := get_save_of_new h.fresh.none i table
  exact (sound.careful_saveTable now parent' table' d').seq fun _ _ => .pure answer

namespace Sound
variable (h : w.Sound) (now : Int64) (path : String)
include h

theorem careful_make (used : w.taken .rootPointer) {mode uid gid : UInt32} (kind : EntryKind) {permissions : UInt32}
    (typed : mode = kind.bits ||| (permissions &&& Mode.permissionMask)) : Careful (make now path mode uid gid) w := by
  refine .after (h.yields_resolveParent path) fun found ok => ?_
  obtain ⟨parent, name⟩ := found
  obtain ⟨_, walked, _⟩ := resolveParent_eq_ok.mp ok
  have stored := h.outline.walk_stored walked
  refine .after (h.yields_directory stored) fun d listed => ?_
  obtain ⟨_, table⟩ := directory_eq_ok.mp listed
  dsimp only
  split
  · exact .throw _
  · refine .fresh fun self newSelf => .fresh fun data newData => ?_
    have sound := (h.take self).take data
    have fresh := (h.fresh_take newSelf).take data
    have freshData := (h.take self).fresh_take newData
    have apart : self ≠ data := fun same => newData (same ▸ .inl rfl)
    have other : self ≠ .rootPointer := fun same => newSelf (same ▸ used)
    have otherData : data ≠ .rootPointer := fun same => newData (same ▸ .inr used)
    cases d.insert? name self with
    | none => exact .throw _
    | some found =>
      obtain ⟨awaits, _⟩ := sound.saveEmpty (i := .new self data mode uid gid now) fresh freshData apart
      have linked {ρ : Type} [Stored ρ] [Sized ρ] (empty : ρ)
          (awaits : (((w.take self).take data).save data empty).Awaits (.new self data mode uid gid now)) :
          Careful (do
            Store.save data empty
            Store.saveInode (.new self data mode uid gid now)
            saveTable now parent found.2
            return Attributes.ofInode (.new self data mode uid gid now)) ((w.take self).take data) := by
        have root := writable_of_apart (sound.apart_of_room (room_of_none freshData.none .dataBlock) (by decide)) empty
        refine .save_bind (admits_new freshData.none otherData empty) root ?_
        exact awaits.careful_link now other (Inode.typed_of_mode typed) rfl
          (get_save_of_new freshData.none empty stored) (get_save_of_new freshData.none empty table) found.2 _
      dsimp only
      split
      · rename_i kind
        rw [kind] at awaits
        exact linked _ awaits
      · rename_i kind
        rw [kind] at awaits
        exact linked _ awaits

/-- Data is laid over a file, and its inode follows. -/
theorem careful_lay (used : w.taken .rootPointer) {m : BlockMap} (stored : w.get Inode i.self = some i)
    (map : w.get BlockMap i.data = some m) {data : ByteArray} {offset : Nat} (fits : offset + data.size ≤ maxFileSize)
    (sizeOf : Nat → Nat) (answerOf : Nat → α) : Careful (do
      let written ← Content.write i.data m data offset
      Store.saveInode (touched now i (sizeOf written))
      return answerOf written) w := by
  have careful := Content.careful_write h.closed (h.held map) used map fits
  refine .bind careful ?_
  refine (h.ensures_write map fits).mono ?_
  rintro r w' ⟨view, sound, outline, _⟩
  have stored' := get_inode_of_setContent outline stored
  cases r with
  | ok written => exact (Careful.save (admits_again (κ := .inode) stored' (Inode.keeps_touched now i _))).seq fun _ _ => .pure _
  | error e => trivial

theorem careful_write (used : w.taken .rootPointer) (data : ByteArray) (offset : UInt64) :
    Careful (write now path data offset) w := by
  refine .after (.ofExcept _) fun stop extent => .after (h.yields_resolveFile path) fun i ok => ?_
  obtain ⟨resolved, file⟩ := resolveFile_eq_ok.mp ok
  have stored := h.outline.resolve_stored resolved
  split
  · exact .pure _
  · obtain ⟨m, map⟩ := h.map_of_file stored file
    have fits := length_le_of_checkExtent extent
    refine .after (Store.yields_load map) ?_
    rintro _ ⟨⟩
    split
    · have careful := Content.careful_clear (h.held map) i.size.toNat offset.toNat
      refine .bind careful ?_
      refine ((h.ensures_clear map i.size.toNat offset.toNat (by omega)).taken used).mono ?_
      rintro r w' ⟨⟨view, sound, outline, map', _⟩, used'⟩
      have stored' := get_inode_of_setContent outline stored
      cases r with
      | ok cleared => exact sound.careful_lay now used' stored' map' fits (fun n => max i.size.toNat (offset.toNat + n)) id
      | error e => trivial
    · exact h.careful_lay now used stored map fits (fun n => max i.size.toNat (offset.toNat + n)) id

theorem careful_resize (used : w.taken .rootPointer) (size : UInt64) : Careful (resize now path size) w := by
  rw [resize]
  split
  · exact .throw _
  · rename_i fits
    refine .after (h.yields_resolveFile path) fun i ok => ?_
    obtain ⟨resolved, file⟩ := resolveFile_eq_ok.mp ok
    have stored := h.outline.resolve_stored resolved
    split
    · rename_i grows
      obtain ⟨m, map⟩ := h.map_of_file stored file
      refine .after (Store.yields_load map) ?_
      rintro _ ⟨⟩
      have last : i.size.toNat + (zeros (size.toNat - i.size.toNat)).size = size.toNat := by
        rw [UInt64.lt_iff_toNat_lt] at grows
        rw [size_zeros]
        omega
      have laid := h.careful_lay now used stored map (by rw [last]; omega) (fun _ => size.toNat) fun _ => ()
      rwa [bind_pure] at laid
    · exact .save (admits_again (κ := .inode) stored (Inode.keeps_touched now i _))

theorem careful_perform (used : w.taken .rootPointer) (call : Call) : Careful (call.perform now) w := by
  cases call with
  | attributes path => exact .map _ (.of_yields (h.yields_attributes path))
  | names path => exact .map _ (.of_yields (h.yields_names path))
  | entries path => exact .map _ (.of_yields (h.yields_entries path))
  | setMode path mode => exact .map _ (h.careful_change now path fun _ => Inode.alike_mode mode)
  | setOwner path uid gid => exact .map _ (h.careful_change now path fun _ => Inode.alike_owner _ _)
  | setTimes path atime mtime => exact .map _ (h.careful_change now path fun _ => Inode.alike_times _ _)
  | makeFile path mode uid gid => exact .map _ (h.careful_make now path used .file rfl)
  | makeDirectory path mode uid gid => exact .map _ (h.careful_make now path used .directory rfl)
  | removeFile path => exact .map _ (h.careful_removeFile now path)
  | removeDirectory path => exact .map _ (h.careful_removeDirectory now path)
  | read path offset length => exact .map _ (.of_yields (h.yields_read path offset length))
  | write path data offset => exact .map _ (h.careful_write now path used data offset)
  | resize path size => exact .map _ (h.careful_resize now path used size)
  | settle path => exact .pure _

end Sound

/-! ### Opening -/

section opening
variable (options : Options) (now : Int64)

theorem careful_makeRoot (closed : w.Closed) (detached : w.cache = none) (blank : w.find .rootPointer = none)
    (used : w.taken .rootPointer) : Careful (makeRoot options now) w := by
  refine .fresh fun self newSelf => .fresh fun data newData => ?_
  have apart : self ≠ data := fun same => newData (same ▸ .inl rfl)
  have away : self ≠ .rootPointer := fun same => newSelf (same ▸ used)
  have awayData : data ≠ .rootPointer := fun same => newData (same ▸ .inr used)
  have findSelf := closed.find_of_new newSelf
  have findData := closed.find_of_new fun old => newData (.inr old)
  have root {w' : World} (detached : w'.cache = none) (id : Id) {ρ : Type} [Stored ρ] (record : ρ) :=
    writable_of_apart (apart_of_closed detached id) record
  have detached₁ : (((w.take self).take data).save data (Directory.empty data)).cache = none :=
    cache_save_of_none detached _ _
  have detached₂ := cache_save_of_none detached₁ self (newRoot options now self data)
  refine .save_bind (admits_new findData awayData _) (root detached _ _) ?_
  refine .save_bind (admits_new ?_ away _) (root detached₁ _ _) ?_
  · exact (find_save_of_ne _ _ apart).trans findSelf
  · refine .save_bind (admits_pointer ?_ _) (root detached₂ _ _) (.pure _)
    exact (find_save_of_ne _ _ away.symm).trans ((find_save_of_ne _ _ awayData.symm).trans blank)

namespace Sound
variable {faulty : Prop} (h : w.Sound)
include h

/-- Loading the root gives the root that is named, or fails. -/
theorem exists_yields_loadRoot (faulty : Prop) : ∃ v, Yields faulty loadRoot w v ∧
    ∀ i, v = .ok i → w.target .root = some i.self ∧ w.get Inode i.self = some i := by
  obtain ⟨v, loaded, stored⟩ := Store.exists_yields_load faulty RootPointer w .rootPointer
  cases v with
  | error e => exact ⟨_, .bind_error _ loaded, fun _ failed => by cases failed⟩
  | ok p =>
    have named : w.target .root = some p.root := by rw [target, stored p rfl, Option.map_some]
    obtain ⟨i, inode, is⟩ := h.suited _ _ named
    refine ⟨.ok i, .bind_ok loaded (.bind_ok (Store.yields_load inode) ?_), ?_⟩
    · rw [if_pos is]
      exact .pure i
    · rintro _ ⟨⟩
      rw [(h.inode _ _ inode).self]
      exact ⟨named, inode⟩

theorem careful_openRoot (detached : w.cache = none) (used : w.taken .rootPointer) : Careful (openRoot options now) w := by
  have named : Yields True (Store.contains .rootPointer) w (.ok (w.find .rootPointer).isSome) :=
    .bind_ok (Store.yields_get _) (.pure _)
  have attached {x : Action Inode} (h : Careful x w) : Careful (do let root ← x; let _ ← Store.attachRoot root) w := by
    refine h.seq fun root w => .seq ?_ fun _ _ => .pure _
    obtain ⟨s, cache⟩ := w
    cases cache <;> trivial
  refine .after named ?_
  rintro _ ⟨⟩
  cases found : w.find .rootPointer with
  | none => exact attached (careful_makeRoot options now h.closed detached found used)
  | some bytes =>
    obtain ⟨_, loaded, _⟩ := h.exists_yields_loadRoot True
    exact attached (.of_yields loaded)

/-- A store stays sound when a volume is opened on it, whether it names a root or not. -/
theorem ensures_reopen (detached : w.cache = none) (used : w.taken .rootPointer) :
    Ensures faulty (openRoot options now) w fun _ w' => w'.Sound := by
  cases found : w.find .rootPointer with
  | none => exact (h.ensures_openRoot options now detached found used).mono fun _ _ opened => opened.1
  | some bytes =>
    rw [openRoot, Store.contains, bind_assoc, ensures_bind]
    refine Store.ensures_get (fun _ _ => h) ?_
    simp only [found, pure_bind, Option.isSome_some, if_true]
    obtain ⟨v, loaded, stored⟩ := h.exists_yields_loadRoot faulty
    refine loaded.andThen (fun _ _ => h) (fun _ _ => h) fun i ok => ?_
    obtain ⟨named, inode⟩ := stored i ok
    rw [ensures_bind]
    exact ensures_attachRoot detached (h.attach named inode)

end Sound
end opening

end World
end RecordFs
