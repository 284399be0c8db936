import RecordFs.Proofs.Renaming.Contents

/-! Calls under other names. No call looks at an identifier but to compare it with another one or
with zero, so every call does the same under other names. -/
namespace RecordFs
open Renaming Volume

variable {σ : Renaming}

namespace Lookup
variable (σ) (path name : String) (dir : Inode)

theorem mirrors_check : Mirrors σ (Renamed σ) (MonadExcept.ofExcept (Path.check path)) (MonadExcept.ofExcept (Path.check path)) := by
  rw [Path.check]
  split
  · exact .throw rfl
  · exact .pure rfl

theorem mirrors_checkName :
    Mirrors σ (Renamed σ) (MonadExcept.ofExcept (Path.checkName name)) (MonadExcept.ofExcept (Path.checkName name)) := by
  rw [Path.checkName]
  split
  · exact .throw rfl
  · exact .pure rfl

theorem mirrors_root : Mirrors σ (Renamed σ) (root path) (root path) := by
  apply (Store.mirrors_cache σ).bind
  rintro c _ rfl
  cases c with
  | none => exact .throw rfl
  | some r => exact .pure rfl

theorem mirrors_directory : Mirrors σ (Renamed σ) (directory dir path) (directory (rename σ dir) path) := by
  apply Mirrors.ite Iff.rfl
  · intro _
    exact Store.mirrors_load σ Directory dir.data
  · intro _
    exact .throw rfl

theorem mirrors_child : Mirrors σ (Renamed σ) (child path dir name) (child path (rename σ dir) name) := by
  apply (mirrors_directory σ path dir).bind
  rintro d _ rfl
  rw [find?_rename]
  cases d.find? name with
  | none => exact .throw rfl
  | some id => exact Store.mirrors_load σ Inode id

theorem mirrors_foldlM (segments : List String) :
    Mirrors σ (Renamed σ) (segments.foldlM (child path) dir) (segments.foldlM (child path) (rename σ dir)) := by
  induction segments generalizing dir with
  | nil => exact .pure rfl
  | cons name rest ih =>
    rw [List.foldlM_cons, List.foldlM_cons]
    apply (mirrors_child σ path name dir).bind
    rintro i _ rfl
    exact ih i

theorem mirrors_resolve : Mirrors σ (Renamed σ) (resolve path) (resolve path) := by
  apply (mirrors_check σ path).bind
  intro _ _ _
  apply (mirrors_root σ path).bind
  rintro r _ rfl
  exact mirrors_foldlM σ path r _

theorem mirrors_resolveParent :
    Mirrors σ (fun a b => b = (rename σ a.1, a.2)) (resolveParent path) (resolveParent path) := by
  apply (mirrors_check σ path).bind
  intro _ _ _
  cases (Path.segments path).getLast? with
  | none => exact .throw rfl
  | some name =>
    apply (mirrors_checkName σ name).bind
    intro _ _ _
    by_cases special : name = "." ∨ name = ".."
    · simp only [if_pos special]
      exact .throw rfl
    · simp only [if_neg special]
      apply (mirrors_root σ path).bind
      rintro r _ rfl
      apply (mirrors_foldlM σ path r _).bind
      rintro parent _ rfl
      apply Mirrors.ite Iff.rfl
      · intro _
        exact .pure rfl
      · intro _
        exact .throw rfl

end Lookup

namespace Volume
variable (σ) (path name : String) (now : Int64)

theorem mirrors_attributes : Mirrors σ (Renamed σ) (attributes path) (attributes path) := by
  apply (Lookup.mirrors_resolve σ path).bind
  rintro i _ rfl
  exact .pure rfl

theorem mirrors_table : Mirrors σ (Renamed σ) (table path) (table path) := by
  apply (Lookup.mirrors_resolve σ path).bind
  rintro i _ rfl
  exact Lookup.mirrors_directory σ path i

theorem mirrors_names : Mirrors σ (Renamed σ) (names path) (names path) := by
  apply (mirrors_table σ path).bind
  rintro d _ rfl
  apply Mirrors.pure
  rw [occupied_rename, List.map_map]
  exact (List.map_id _).symm

/-- Whatever is done for the members of a list, one after another. -/
theorem mirrors_mapM {α β : Type} [Renames α] [Renames β] {f : α → Action β} (each : ∀ a, Mirrors σ (Renamed σ) (f a) (f (rename σ a)))
    (l : List α) : Mirrors σ (Renamed σ) (l.mapM f) ((l.map (rename σ)).mapM f) := by
  induction l with
  | nil => exact .pure rfl
  | cons a rest ih =>
    rw [List.map_cons, List.mapM_cons, List.mapM_cons]
    apply (each a).bind
    rintro b _ rfl
    apply ih.bind
    rintro bs _ rfl
    exact .pure rfl

theorem mirrors_entries : Mirrors σ (Renamed σ) (entries path) (entries path) := by
  apply (mirrors_table σ path).bind
  rintro d _ rfl
  rw [occupied_rename]
  apply mirrors_mapM
  intro slot
  apply (Store.mirrors_load σ Inode slot.child).bind
  rintro i _ rfl
  exact .pure rfl

/-- Changes that leave identifiers alone. -/
theorem mirrors_change {f : Inode → Inode} (alone : ∀ i, f (rename σ i) = rename σ (f i)) :
    Mirrors σ (Renamed σ) (change path now f) (change path now f) := by
  apply (Lookup.mirrors_resolve σ path).bind
  rintro i _ rfl
  rw [alone]
  exact Store.mirrors_saveInode σ { f i with ctime := now }

theorem mirrors_saveTable (parent : Inode) (dir : Directory) :
    Mirrors σ (Renamed σ) (saveTable now parent dir) (saveTable now (rename σ parent) (rename σ dir)) := by
  apply (Store.mirrors_save σ parent.data dir).bind
  intro _ _ _
  rw [count_rename]
  exact Store.mirrors_saveInode σ { parent with size := UInt64.ofNat dir.count, mtime := now, ctime := now }

theorem mirrors_make (mode uid gid : UInt32) : Mirrors σ (Renamed σ) (make now path mode uid gid) (make now path mode uid gid) := by
  apply (Lookup.mirrors_resolveParent σ path).bind
  rintro ⟨parent, name⟩ _ rfl
  apply (Lookup.mirrors_directory σ path parent).bind
  rintro d _ rfl
  apply Mirrors.ite (by rw [find?_rename, Option.isSome_map])
  · intro _
    exact .throw rfl
  · intro _
    apply (Store.mirrors_freshId σ).bind
    rintro self _ rfl
    apply (Store.mirrors_freshId σ).bind
    rintro data _ rfl
    rw [insert?_rename]
    cases d.insert? name self with
    | none => exact .throw rfl
    | some found =>
      obtain ⟨_, d⟩ := found
      have rest : Mirrors σ (Renamed σ)
          (do Store.saveInode (.new self data mode uid gid now); saveTable now parent d
              return Attributes.ofInode (.new self data mode uid gid now))
          (do Store.saveInode (.new (rename σ self) (rename σ data) mode uid gid now); saveTable now (rename σ parent) (rename σ d)
              return Attributes.ofInode (.new (rename σ self) (rename σ data) mode uid gid now)) := by
        apply (Store.mirrors_saveInode σ (.new self data mode uid gid now)).bind
        intro _ _ _
        apply (mirrors_saveTable σ now parent d).bind
        intro _ _ _
        exact .pure rfl
      have same : (Inode.new (rename σ self) (rename σ data) mode uid gid now).kind =
        (Inode.new self data mode uid gid now).kind := rfl
      simp only [Option.map_some, same]
      cases (Inode.new self data mode uid gid now).kind with
      | directory =>
        have table := Store.mirrors_save σ data (Directory.empty data)
        rw [rename_empty] at table
        apply table.bind
        intro _ _ _
        exact rest
      | file =>
        have map := Store.mirrors_save σ data BlockMap.empty
        rw [rename_emptyMap] at map
        apply map.bind
        intro _ _ _
        exact rest

theorem mirrors_detach (parent : Inode) (dir : Directory) :
    Mirrors σ (Renamed σ) (detach now parent dir name) (detach now (rename σ parent) (rename σ dir) name) := by
  rw [detach, detach, remove?_rename]
  cases dir.remove? name with
  | none => exact .throw rfl
  | some found => exact mirrors_saveTable σ now parent found.2

theorem mirrors_removeFile : Mirrors σ (Renamed σ) (removeFile now path) (removeFile now path) := by
  apply (Lookup.mirrors_resolveParent σ path).bind
  rintro ⟨parent, name⟩ _ rfl
  apply (Lookup.mirrors_directory σ path parent).bind
  rintro d _ rfl
  simp only [find?_rename]
  cases d.find? name with
  | none => exact .throw rfl
  | some id =>
    apply (Store.mirrors_load σ Inode id).bind
    rintro i _ rfl
    apply Mirrors.ite Iff.rfl
    · intro _
      exact .throw rfl
    · intro _
      exact mirrors_detach σ name now parent d

theorem mirrors_removeDirectory : Mirrors σ (Renamed σ) (removeDirectory now path) (removeDirectory now path) := by
  apply (Lookup.mirrors_resolve σ path).bind
  rintro target _ rfl
  let last := do
    let entry ← Lookup.resolveParent path
    detach now entry.1 (← Lookup.directory entry.1 path) entry.2
  have rest : Mirrors σ (Renamed σ) last last := by
    apply (Lookup.mirrors_resolveParent σ path).bind
    rintro ⟨parent, name⟩ _ rfl
    apply (Lookup.mirrors_directory σ path parent).bind
    rintro d _ rfl
    exact mirrors_detach σ name now parent d
  have emptied : Mirrors σ (Renamed σ)
      (do unless (← Lookup.directory target path).isEmpty do throw (.directoryNotEmpty path)
          last)
      (do unless (← Lookup.directory (rename σ target) path).isEmpty do throw (.directoryNotEmpty path)
          last) := by
    apply (Lookup.mirrors_directory σ path target).bind
    rintro d _ rfl
    apply Mirrors.ite (by rw [isEmpty_rename])
    · intro _
      exact rest
    · intro _
      exact .throw rfl
  apply Mirrors.ite Iff.rfl
  · intro _
    exact emptied
  · intro _
    exact .throw rfl

theorem mirrors_resolveFile : Mirrors σ (Renamed σ) (resolveFile path) (resolveFile path) := by
  apply (Lookup.mirrors_resolve σ path).bind
  rintro i _ rfl
  apply Mirrors.ite Iff.rfl
  · intro _
    exact .throw rfl
  · intro _
    exact .pure rfl

theorem mirrors_read (offset : UInt64) (length : Nat) : Mirrors σ (Renamed σ) (read path offset length) (read path offset length) := by
  apply (mirrors_resolveFile σ path).bind
  rintro i _ rfl
  apply Mirrors.ite Iff.rfl
  · intro _
    exact .pure rfl
  · intro _
    apply (Store.mirrors_load σ BlockMap i.data).bind
    rintro map _ rfl
    exact Content.mirrors_read map offset.toNat _

theorem mirrors_write (data : ByteArray) (offset : UInt64) :
    Mirrors σ (Renamed σ) (write now path data offset) (write now path data offset) := by
  apply (Mirrors.ofExcept (Content.outcome_checkExtent σ offset.toNat data.size)).bind
  intro _ _ _
  apply (mirrors_resolveFile σ path).bind
  rintro i _ rfl
  apply Mirrors.ite Iff.rfl
  · intro _
    exact .pure rfl
  · intro _
    apply (Store.mirrors_load σ BlockMap i.data).bind
    rintro map _ rfl
    have rest : Mirrors σ (Renamed σ)
        (do let written ← Content.write i.data map data offset.toNat
            Store.saveInode (touched now i (max i.size.toNat (offset.toNat + written)))
            return written)
        (do let written ← Content.write (rename σ i).data (rename σ map) data offset.toNat
            Store.saveInode (touched now (rename σ i) (max i.size.toNat (offset.toNat + written)))
            return written) := by
      apply (Content.mirrors_write i.data data offset.toNat map).bind
      rintro _ written rfl
      apply (Store.mirrors_saveInode σ (touched now i (max i.size.toNat (offset.toNat + written)))).bind
      intro _ _ _
      exact .pure rfl
    apply Mirrors.ite Iff.rfl
    · intro _
      apply (Content.mirrors_clear map i.size.toNat offset.toNat).bind
      intro _ _ _
      exact rest
    · intro _
      exact rest

theorem mirrors_resize (size : UInt64) : Mirrors σ (Renamed σ) (resize now path size) (resize now path size) := by
  apply Mirrors.ite Iff.rfl
  · intro _
    exact .throw rfl
  · intro _
    apply (mirrors_resolveFile σ path).bind
    rintro i _ rfl
    have last := Store.mirrors_saveInode σ (touched now i size.toNat)
    apply Mirrors.ite Iff.rfl
    · intro _
      apply (Store.mirrors_load σ BlockMap i.data).bind
      rintro map _ rfl
      apply (Content.mirrors_write i.data (zeros (size.toNat - i.size.toNat)) i.size.toNat map).bind
      intro _ _ _
      exact last
    · intro _
      exact last

/-- Every call does the same under other names. -/
theorem mirrors_perform (call : Call) : Mirrors σ (Renamed σ) (call.perform now) (call.perform now) := by
  have done {x : Action Unit} (h : Mirrors σ (Renamed σ) x x) :
      Mirrors σ (Renamed σ) ((fun _ => Answer.done) <$> x) ((fun _ => Answer.done) <$> x) := h.map fun _ _ _ => rfl
  cases call with
  | attributes path =>
    apply (mirrors_attributes σ path).map
    rintro a _ rfl
    rfl
  | names path =>
    apply (mirrors_names σ path).map
    rintro l _ rfl
    exact congrArg Answer.names (List.map_id l)
  | entries path =>
    apply (mirrors_entries σ path).map
    rintro l _ rfl
    rfl
  | setMode path mode => exact done (mirrors_change σ path now fun _ => rfl)
  | setOwner path uid gid => exact done (mirrors_change σ path now fun _ => rfl)
  | setTimes path atime mtime => exact done (mirrors_change σ path now fun _ => rfl)
  | makeFile path mode uid gid | makeDirectory path mode uid gid =>
    apply (mirrors_make σ path now _ uid gid).map
    rintro a _ rfl
    rfl
  | removeFile path => exact done (mirrors_removeFile σ path now)
  | removeDirectory path => exact done (mirrors_removeDirectory σ path now)
  | read path offset length =>
    apply (mirrors_read σ path offset length).map
    rintro _ bytes rfl
    rfl
  | write path data offset =>
    apply (mirrors_write σ path now data offset).map
    rintro _ count rfl
    rfl
  | resize path size => exact done (mirrors_resize σ path now size)
  | settle path => exact .pure rfl

section opening
variable (options : Options)

theorem mirrors_loadRoot : Mirrors σ (Renamed σ) loadRoot loadRoot := by
  have pointer := Store.mirrors_load σ RootPointer .rootPointer
  rw [rename_rootPointer] at pointer
  apply pointer.bind
  rintro p _ rfl
  apply (Store.mirrors_load σ Inode p.root).bind
  rintro root _ rfl
  apply Mirrors.ite Iff.rfl
  · intro _
    exact .pure rfl
  · intro _
    exact .throw rfl

theorem mirrors_makeRoot : Mirrors σ (Renamed σ) (makeRoot options now) (makeRoot options now) := by
  apply (Store.mirrors_freshId σ).bind
  rintro self _ rfl
  apply (Store.mirrors_freshId σ).bind
  rintro data _ rfl
  have table := Store.mirrors_save σ data (Directory.empty data)
  rw [rename_empty] at table
  apply table.bind
  intro _ _ _
  apply (Store.mirrors_saveInode σ (.new self data _ options.uid options.gid now)).bind
  intro _ _ _
  have pointer := Store.mirrors_save σ .rootPointer (RootPointer.mk self)
  rw [rename_rootPointer] at pointer
  apply pointer.bind
  intro _ _ _
  exact .pure rfl

theorem mirrors_attachRoot (root : Inode) :
    Mirrors σ (Renamed σ) (Store.attachRoot root) (Store.attachRoot (rename σ root)) := by
  apply (Store.mirrors_cache σ).bind
  rintro c _ rfl
  cases c with
  | some _ => exact .pure rfl
  | none =>
    apply (Store.mirrors_setCache σ (some ⟨root.self, root⟩)).bind
    intro _ _ _
    exact .pure rfl

/-- So does opening. -/
theorem mirrors_openRoot : Mirrors σ (Renamed σ) (openRoot options now) (openRoot options now) := by
  have contains := Store.mirrors_contains σ .rootPointer
  rw [rename_rootPointer] at contains
  apply contains.bind
  rintro _ named rfl
  have attached {x : Action Inode} (h : Mirrors σ (Renamed σ) x x) :
      Mirrors σ (Renamed σ) (do let root ← x; let _ ← Store.attachRoot root) (do let root ← x; let _ ← Store.attachRoot root) := by
    apply h.bind
    rintro root _ rfl
    apply (mirrors_attachRoot σ root).bind
    intro _ _ _
    exact .pure rfl
  apply Mirrors.ite Iff.rfl
  · intro _
    exact attached (mirrors_loadRoot σ)
  · intro _
    exact attached (mirrors_makeRoot σ now options)

end opening
end Volume
end RecordFs
