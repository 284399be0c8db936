import RecordFs.Proofs.Volume.Metadata

/-! Making and removing entries. The table that names a new entry is stored after all that the
entry needs, so the store is sound at every point where a call may fail. -/
namespace RecordFs
open Outline Volume

namespace World
variable {α : Type} {faulty : Prop} {w : World} {parent : Inode} {d : Directory} (now : Int64)

theorem Sound.save_touched (h : w.Sound) (stored : w.get Inode parent.self = some parent)
    (is : parent.isDirectory = true) (n : Nat) :
    (w.save parent.self (touched now parent n)).Sound ∧
      (w.save parent.self (touched now parent n)).outline = w.outline.setInode (touched now parent n) := by
  refine h.update_inode (i := touched now parent n) stored rfl rfl
    ⟨rfl, (h.inode _ _ stored).mode, fun file => ?_⟩
  exact absurd is (Bool.eq_false_iff.mp file)

/-- A table that may be stored is stored, and then the inode of its directory. -/
theorem Sound.ensures_saveTable (h : w.Sound) (stored : w.get Inode parent.self = some parent)
    (is : parent.isDirectory = true) (room : w.Room .directory parent.data)
    (saved : (w.save parent.data d).Sound ∧ (w.save parent.data d).outline = w.outline.setTable d) (answer : α) :
    Ensures faulty (do saveTable now parent d; return answer) w
      (Leaves (Carried faulty [.table d, .inode (touched now parent d.count)] answer w.outline)) := by
  rw [saveTable, bind_assoc]
  refine h.ensures_step (c := .table d) (writable_of_apart (h.apart_of_room room (by decide)) d) saved.2 ?_
  have kept : (w.save parent.data d).get Inode parent.self = some parent := by
    rw [← outline_inode, saved.2]
    exact stored
  have last := saved.1.save_touched now kept is d.count
  have root := writable_inode (w.save parent.data d) (touched now parent d.count)
  exact saved.1.ensures_step (c := .inode (touched now parent d.count)) root last.2 ⟨last.1, .done last.1.outline⟩

variable (path : String)

theorem Sound.ensures_detach (h : w.Sound) (stored : w.get Inode parent.self = some parent)
    (is : parent.isDirectory = true) (table : w.get Directory parent.data = some d) (name : String) :
    Ensures faulty (detach now parent d name) w (Leaves (Follows faulty (planDetach now parent d name) w.outline)) := by
  rw [detach, planDetach]
  have proper := h.table _ _ table
  cases removed : d.remove? name with
  | none => exact ⟨h, .refused _⟩
  | some found =>
    obtain ⟨child, rest⟩ := found
    obtain ⟨k, _, _, _, rfl⟩ := Directory.remove?_eq_some removed
    have saved := h.drop_child (d := d.put k {}) (by rw [Directory.self_put, proper.self, table])
      (by rw [Directory.self_put, proper.self]; exact proper.remove k) fun j x named => by
        by_cases here : j = k
        · rw [Directory.named?_eq_some, Directory.slots_put, if_pos here] at named
          cases named.1
        · rwa [Directory.named?_put_of_ne here] at named
    rw [Directory.self_put, proper.self] at saved
    simp only
    rw [← bind_pure (saveTable _ _ _)]
    refine (h.ensures_saveTable now stored is (room_of_get table) saved ()).mono ?_
    exact fun r w' ⟨sound, carried⟩ => ⟨sound, .just carried⟩

theorem Sound.ensures_removeFile (h : w.Sound) :
    Ensures faulty (removeFile now path) w (Leaves (Follows faulty (w.outline.planRemoveFile now path) w.outline)) := by
  refine h.follows_bind (h.yields_resolveParent path) fun found ok => ?_
  obtain ⟨parent, name⟩ := found
  obtain ⟨_, walked, is⟩ := resolveParent_eq_ok.mp ok
  have stored := h.outline.walk_stored walked
  refine h.follows_bind (h.yields_directory stored) fun d listed => ?_
  obtain ⟨_, table⟩ := directory_eq_ok.mp listed
  cases found : d.find? name with
  | none => exact ⟨h, .refused _⟩
  | some id =>
    obtain ⟨i, inode⟩ := h.outline.child_of_find? table found
    refine h.follows_bind (v := load (w.outline.inode id) id) ?_ fun j loaded => ?_
    · rw [inode]
      exact Store.yields_load inode
    · simp only
      split
      · exact ⟨h, .refused _⟩
      · exact h.ensures_detach now stored is table name

theorem Sound.ensures_removeDirectory (h : w.Sound) : Ensures faulty (removeDirectory now path) w
    (Leaves (Follows faulty (w.outline.planRemoveDirectory now path) w.outline)) := by
  refine h.follows_bind (h.yields_resolve path) fun target ok => ?_
  have stored := h.outline.resolve_stored ok
  cases is : target.isDirectory with
  | false =>
    rw [directory, is]
    exact ⟨h, .refused _⟩
  | true =>
    refine h.follows_bind (h.yields_directory stored) fun d _ => ?_
    split
    · refine h.follows_bind (h.yields_resolveParent path) fun found ok => ?_
      obtain ⟨parent, name⟩ := found
      obtain ⟨_, walked, is⟩ := resolveParent_eq_ok.mp ok
      have stored := h.outline.walk_stored walked
      refine h.follows_bind (h.yields_directory stored) fun d listed => ?_
      exact h.ensures_detach now stored is (directory_eq_ok.mp listed).2 name
    · exact ⟨h, .refused _⟩

/-- An identifier that was just handed out. -/
structure Fresh (w : World) (id : Id) : Prop where
  used : w.taken id
  none : w.find id = none
  unnamed : ∀ q, w.target q ≠ some id

theorem Sound.fresh_take (h : w.Sound) {id : Id} (new : ¬ w.taken id) : (w.take id).Fresh id :=
  ⟨.inl rfl, h.closed.find_of_new new, h.untargeted new⟩

theorem Fresh.take {id : Id} (h : w.Fresh id) (x : Id) : (w.take x).Fresh id := ⟨.inr h.used, h.none, h.unnamed⟩

/-- A fresh identifier is unused. -/
theorem Fresh.unused {id : Id} (fresh : w.Fresh id) : w.outline.Unused id where
  inode := get_of_find_none fresh.none
  table := get_of_find_none fresh.none
  content := by rw [outline_content, content, get_of_find_none fresh.none, Option.map_none]
  data x i stored same := fresh.unnamed (.data x) (same ▸ target_data stored)
  child x d k stored named := fresh.unnamed (.slot x k) ((target_slot stored k).trans named)

/-- What a new entry of a kind starts with is stored. -/
def saveEmpty (w : World) (id : Id) : EntryKind → World
  | .directory => w.save id (Directory.empty id)
  | .file => w.save id BlockMap.empty

/-- What a new inode `i` needs before it is stored. -/
structure Awaits (w : World) (i : Inode) : Prop where
  sound : w.Sound
  fresh : w.Fresh i.self
  unnamed : ∀ q, w.target q ≠ some i.data
  data : if i.isDirectory then ∃ d, w.get Directory i.data = some d else ∃ m, w.get BlockMap i.data = some m

theorem Sound.saveEmpty (h : w.Sound) {i : Inode} (fresh : w.Fresh i.self) (data : w.Fresh i.data)
    (apart : i.self ≠ i.data) : (w.saveEmpty i.data i.kind).Awaits i ∧
      (w.saveEmpty i.data i.kind).outline = w.outline.apply (emptyData i.data i.kind) := by
  cases kind : i.kind with
  | directory =>
    have ⟨sound, outline⟩ := h.add_table data.none data.used
    have target := target_add_table data.none
    refine ⟨⟨sound, ⟨fresh.used, ?_, target ▸ fresh.unnamed⟩, target ▸ data.unnamed, ?_⟩, outline⟩
    · exact (find_save_of_ne w _ apart).trans fresh.none
    · rw [if_pos (Inode.isDirectory_iff.mpr kind)]
      refine ⟨.empty i.data, ?_⟩
      rw [World.saveEmpty, ← outline_table, outline]
      exact Function.update_self ..
  | file =>
    have ⟨sound, outline⟩ := h.add_map data.none data.used
    have target := target_save_map (room_of_none data.none _) data.none
    refine ⟨⟨sound, ⟨fresh.used, ?_, target ▸ fresh.unnamed⟩, target ▸ data.unnamed, ?_⟩, outline⟩
    · exact (find_save_of_ne w _ apart).trans fresh.none
    · rw [Inode.isDirectory, kind]
      exact ⟨.empty, by rw [World.saveEmpty, get_save, Function.update_self]⟩

variable (faulty) in
/-- A new inode is stored, then the table that names it and the inode of its directory. -/
theorem Awaits.ensures_link {i : Inode} (h : w.Awaits i) (typed : i.Typed) (size : i.size = 0) {place : Opening}
    (stored : w.get Inode place.parent.self = some place.parent) (is : place.parent.isDirectory = true)
    (table : w.get Directory place.parent.data = some place.table) (entry : Path.Entry place.name)
    (new : place.table.find? place.name = none) :
    Ensures faulty (do
      Store.saveInode i
      saveTable now place.parent (place.filled i.self)
      return Attributes.ofInode i) w
      (Leaves (Carried faulty [.inode i, .table (place.filled i.self),
        .inode (touched now place.parent (place.filled i.self).count)] (Attributes.ofInode i) w.outline)) := by
  have proper : i.Proper i.self := ⟨rfl, typed, fun _ => by rw [size]; exact Nat.zero_le _⟩
  obtain ⟨sound, outline⟩ := h.sound.add_inode h.fresh.none h.fresh.used proper h.unnamed h.data
  refine h.sound.ensures_step (c := .inode i) (writable_inode w i) outline ?_
  have inode : (w.save i.self i).get Inode i.self = some i := by rw [get_save, Function.update_self]
  have unnamed : i.self ≠ i.data := by
    intro same
    have data := h.data
    rw [← same, get_of_find_none h.fresh.none, get_of_find_none h.fresh.none] at data
    split at data <;> exact data.elim nofun
  have stored' := get_save_of_new h.fresh.none i stored
  have table' := get_save_of_new h.fresh.none i table
  have old := sound.table _ _ table'
  have here : (place.filled i.self).self = place.parent.data := old.self
  have filled : (place.filled i.self).slots.get place.slot = ⟨place.name, i.self⟩ := by
    rw [Opening.filled, Directory.slots_put, if_pos rfl]
  have old_stored : (w.save i.self i).get Directory (place.filled i.self).self = some place.table := by
    rw [here, table']
  have saved := sound.add_child (d := place.filled i.self) (k := place.slot) old_stored
    (by rw [here]; exact old.insert place.slot entry new i.self) inode
    (unnamed_save_inode h.fresh.none h.fresh.unnamed unnamed)
    (by
      rw [Directory.named?_eq_some, filled]
      exact ⟨Directory.isFree_eq_false_iff.mpr entry.nonempty, rfl⟩)
    fun j other => Directory.named?_put_of_ne other
  rw [here] at saved
  exact sound.ensures_saveTable now stored' is (room_of_get table') saved (Attributes.ofInode i)

/-- All that a new entry needs is stored, the inode of its directory last. -/
theorem Sound.ensures_fill (h : w.Sound) {i : Inode} (fresh : w.Fresh i.self) (data : w.Fresh i.data)
    (apart : i.self ≠ i.data) (typed : i.Typed) (size : i.size = 0) (place : Opening)
    (stored : w.get Inode place.parent.self = some place.parent) (is : place.parent.isDirectory = true)
    (table : w.get Directory place.parent.data = some place.table) (entry : Path.Entry place.name)
    (new : place.table.find? place.name = none) :
    Ensures faulty
      (match i.kind with
      | .directory => do
        Store.save i.data (Directory.empty i.data)
        Store.saveInode i
        saveTable now place.parent (place.filled i.self)
        return Attributes.ofInode i
      | .file => do
        Store.save i.data BlockMap.empty
        Store.saveInode i
        saveTable now place.parent (place.filled i.self)
        return Attributes.ofInode i) w
      (Leaves (Carried faulty (place.changes now i) (.ofInode i) w.outline)) := by
  obtain ⟨awaits, outline⟩ := h.saveEmpty fresh data apart
  have stored' : (w.saveEmpty i.data i.kind).get Inode place.parent.self = some place.parent := by
    rw [← outline_inode, outline, inode_apply_emptyData]
    exact stored
  have table' : (w.saveEmpty i.data i.kind).get Directory place.parent.data = some place.table := by
    have other : place.parent.data ≠ i.data := by
      intro same
      rw [same, get_of_find_none data.none] at table
      cases table
    rw [← outline_table, outline, table_apply_emptyData _ _ other]
    exact table
  have linked := awaits.ensures_link faulty now typed size stored' is table' entry new
  cases kind : i.kind with
  | directory =>
    rw [kind] at outline linked
    have writable := writable_of_apart (h.apart_of_room (room_of_none data.none .directory) (by decide)) (Directory.empty i.data)
    rw [Opening.changes, kind]
    exact h.ensures_step (c := emptyData i.data .directory) writable outline linked
  | file =>
    rw [kind] at outline linked
    have writable := writable_of_apart (h.apart_of_room (room_of_none data.none .blockMap) (by decide)) BlockMap.empty
    rw [Opening.changes, kind]
    exact h.ensures_step (c := emptyData i.data .file) writable outline linked

theorem Sound.ensures_make (h : w.Sound) {mode uid gid : UInt32} (kind : EntryKind) {permissions : UInt32}
    (typed : mode = kind.bits ||| (permissions &&& Mode.permissionMask)) :
    Ensures faulty (make now path mode uid gid) w
      (Leaves (Follows faulty (w.outline.planMake now path mode uid gid) w.outline)) := by
  simp only [planMake, opening, bind_assoc]
  refine h.follows_bind (h.yields_resolveParent path) fun found ok => ?_
  obtain ⟨parent, name⟩ := found
  obtain ⟨last, walked, is⟩ := resolveParent_eq_ok.mp ok
  have stored := h.outline.walk_stored walked
  refine h.follows_bind (h.yields_directory stored) fun d listed => ?_
  obtain ⟨_, table⟩ := directory_eq_ok.mp listed
  simp only
  split
  · exact ⟨h, .refused _⟩
  · rename_i new
    rw [ensures_bind]
    refine Store.ensures_freshId fun self newSelf => ?_
    simp only
    rw [ensures_bind]
    refine Store.ensures_freshId fun data newData => ?_
    have sound := (h.take self).take data
    have fresh := (h.fresh_take newSelf).take data
    have freshData := (h.take self).fresh_take newData
    have apart : self ≠ data := fun same => newData (same ▸ .inl rfl)
    simp only
    cases inserted : d.insert? name self with
    | none =>
      rw [Directory.findFinIdx?_eq_none.mpr (Directory.insert?_eq_none.mp inserted)]
      exact ⟨sound, .refused _⟩
    | some found =>
      obtain ⟨k, d'⟩ := found
      obtain ⟨free, before, rfl⟩ := Directory.insert?_eq_some.mp inserted
      rw [Directory.findFinIdx?_eq_some.mpr ⟨free, before⟩]
      refine (sound.ensures_fill now (i := .new self data mode uid gid now) fresh freshData apart
        (Inode.typed_of_mode typed) rfl ⟨parent, name, d, k⟩ stored is table (entry_of_lastName last)
        (Option.not_isSome_iff_eq_none.mp new)).mono ?_
      rintro r w' ⟨sound', carried⟩
      refine ⟨sound', .inr ⟨_, _, ?_, carried⟩⟩
      exact ⟨self, data, ⟨fresh.unused, freshData.unused, apart⟩, rfl, rfl⟩

end World
end RecordFs
