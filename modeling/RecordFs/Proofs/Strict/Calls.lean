import RecordFs.Proofs.Path
import RecordFs.Proofs.Strict.Writing
import RecordFs.Volume.Call

/-! Every call with every step checked. What a call relies on is what it has looked at before: tables that were
read have names that fit, and so does the name of a new entry. -/
namespace RecordFs
open Checked
open MonadExcept (ofExcept)

/-- A name that is put into a table must be one that a slot has room for. -/
def Directory.insertChecked (dir : Directory) (name : String) (child : Id) : Checked (Option (Fin dirEntries × Directory)) := do
  demand (name ≠ "" ∧ name.utf8ByteSize ≤ maxNameLength) .assertion
  return dir.insert? name child

namespace Lookup.Strict

def directory (dir : Inode) (path : String) : StrictAction Directory := do
  if dir.isDirectory then Store.Strict.load Directory dir.data else throw (.notADirectory path)

def child (path : String) (dir : Inode) (name : String) : StrictAction Inode := do
  match (← directory dir path).find? name with
  | some id => Store.Strict.load Inode id
  | none => throw (.notFound path)

def resolve (path : String) : StrictAction Inode := do
  ofExcept (Path.check path)
  (Path.segments path).foldlM (child path) (← root path)

def resolveParent (path : String) : StrictAction (Inode × String) := do
  ofExcept (Path.check path)
  match (Path.segments path).getLast? with
  | none => throw (.invalidPath path)
  | some name =>
    ofExcept (Path.checkName name)
    if name = "." ∨ name = ".." then throw (.invalidPath path)
    let parent ← (Path.segments path).dropLast.foldlM (child path) (← root path)
    unless parent.isDirectory do throw (.notADirectory path)
    return (parent, name)

end Lookup.Strict

namespace Volume.Strict

def attributes (path : String) : StrictAction Attributes := return .ofInode (← Lookup.Strict.resolve path)

def table (path : String) : StrictAction Directory := do
  Lookup.Strict.directory (← Lookup.Strict.resolve path) path

/-- Room for all the names is made at the start. -/
def names (path : String) : StrictAction (List String) := do
  let table ← table path
  let _ ← add 2 table.count
  return "." :: ".." :: table.occupied.map (·.name)

def entries (path : String) : StrictAction (List Entry) := do
  (← table path).occupied.mapM fun slot => do
    return ⟨slot.name, .ofInode (← Store.Strict.load Inode slot.child)⟩

def change (path : String) (now : Int64) (f : Inode → Inode) : StrictAction Unit := do
  let inode ← Lookup.Strict.resolve path
  Store.Strict.saveInode { f inode with ctime := now }

def setMode (now : Int64) (path : String) (mode : UInt32) : StrictAction Unit :=
  change path now fun i =>
    { i with mode := (i.mode &&& Mode.typeMask) ||| (mode &&& Mode.permissionMask) }

def setOwner (now : Int64) (path : String) (uid gid : Option UInt32) : StrictAction Unit :=
  change path now fun i => { i with uid := uid.getD i.uid, gid := gid.getD i.gid }

def setTimes (now : Int64) (path : String) (atime mtime : Option Int64) : StrictAction Unit :=
  change path now fun i => { i with atime := atime.getD i.atime, mtime := mtime.getD i.mtime }

def saveTable (now : Int64) (parent : Inode) (dir : Directory) : StrictAction Unit := do
  Store.Strict.save parent.data dir
  Store.Strict.saveInode { parent with size := UInt64.ofNat dir.count, mtime := now, ctime := now }

def make (now : Int64) (path : String) (mode uid gid : UInt32) : StrictAction Attributes := do
  let (parent, name) ← Lookup.Strict.resolveParent path
  let dir ← Lookup.Strict.directory parent path
  if (dir.find? name).isSome then throw (.alreadyExists path)
  let self ← Store.freshId
  let data ← Store.freshId
  let inode := Inode.new self data mode uid gid now
  match ← dir.insertChecked name self with
  | none => throw (.directoryFull (Path.directoryOf path))
  | some (_, dir) =>
    match inode.kind with
    | .directory => Store.Strict.save data (Directory.empty data)
    | .file => Store.Strict.save data BlockMap.empty
    Store.Strict.saveInode inode
    saveTable now parent dir
    return .ofInode inode

def makeFile (now : Int64) (path : String) (mode uid gid : UInt32) : StrictAction Attributes :=
  make now path (Mode.regular ||| (mode &&& Mode.permissionMask)) uid gid

def makeDirectory (now : Int64) (path : String) (mode uid gid : UInt32) : StrictAction Attributes :=
  make now path (Mode.directory ||| (mode &&& Mode.permissionMask)) uid gid

def detach (now : Int64) (parent : Inode) (dir : Directory) (name : String) : StrictAction Unit := do
  match dir.remove? name with
  | none => throw (.notFound name)
  | some (_, dir) => saveTable now parent dir

def removeFile (now : Int64) (path : String) : StrictAction Unit := do
  let (parent, name) ← Lookup.Strict.resolveParent path
  let dir ← Lookup.Strict.directory parent path
  match dir.find? name with
  | none => throw (.notFound path)
  | some id =>
    if (← Store.Strict.load Inode id).isDirectory then throw (.isADirectory path)
    detach now parent dir name

def removeDirectory (now : Int64) (path : String) : StrictAction Unit := do
  let target ← Lookup.Strict.resolve path
  unless target.isDirectory do throw (.notADirectory path)
  unless (← Lookup.Strict.directory target path).isEmpty do throw (.directoryNotEmpty path)
  let (parent, name) ← Lookup.Strict.resolveParent path
  detach now parent (← Lookup.Strict.directory parent path) name

def resolveFile (path : String) : StrictAction Inode := do
  let inode ← Lookup.Strict.resolve path
  if inode.isDirectory then throw (.isADirectory path)
  return inode

def read (path : String) (offset : UInt64) (length : Nat) : StrictAction ByteArray := do
  let inode ← resolveFile path
  if inode.size ≤ offset then return .empty
  let stop := min (min (offset.toNat + length) Content.countMax) inode.size.toNat
  let length ← sub stop offset.toNat
  Content.Strict.read (← Store.Strict.load BlockMap inode.data) offset.toNat length

def write (now : Int64) (path : String) (data : ByteArray) (offset : UInt64) : StrictAction Nat := do
  let offset := offset.toNat
  let _ ← ofExcept (Content.checkExtent offset data.size)
  let inode ← resolveFile path
  if data.isEmpty then return 0
  let map ← Store.Strict.load BlockMap inode.data
  if inode.size.toNat < offset then Content.Strict.clear map inode.size.toNat offset
  let written ← Content.Strict.write inode.data map data offset
  Store.Strict.saveInode (touched now inode (max inode.size.toNat (← add offset written)))
  return written

/-- The zeros that a file grows by are laid out before they are written. -/
def resize (now : Int64) (path : String) (size : UInt64) : StrictAction Unit := do
  if maxFileSize < size.toNat then throw (.fileTooLarge size.toNat maxFileSize)
  let inode ← resolveFile path
  if inode.size < size then
    let map ← Store.Strict.load BlockMap inode.data
    let growth ← sub size.toNat inode.size.toNat
    allocate growth
    let _ ← Content.Strict.write inode.data map (zeros growth) inode.size.toNat
  Store.Strict.saveInode (touched now inode size.toNat)

def loadRoot : StrictAction Inode := do
  let pointer ← Store.Strict.load RootPointer .rootPointer
  let root ← Store.Strict.load Inode pointer.root
  unless root.isDirectory do throw (.notADirectory "/")
  return root

def makeRoot (options : Options) (now : Int64) : StrictAction Inode := do
  let self ← Store.freshId
  let data ← Store.freshId
  let mode := Mode.directory ||| (options.rootPermissions &&& Mode.permissionMask)
  let root := Inode.new self data mode options.uid options.gid now
  Store.Strict.save data (Directory.empty data)
  Store.Strict.saveInode root
  Store.Strict.save .rootPointer (RootPointer.mk self)
  return root

def openRoot (options : Options) (now : Int64) : StrictAction Unit := do
  let root ← if ← Store.contains .rootPointer then loadRoot else makeRoot options now
  let _ ← Store.attachRoot root

def perform (now : Int64) : Call → StrictAction Answer
  | .attributes path => .attributes <$> attributes path
  | .names path => .names <$> names path
  | .entries path => .entries <$> entries path
  | .setMode path mode => (fun _ => .done) <$> setMode now path mode
  | .setOwner path uid gid => (fun _ => .done) <$> setOwner now path uid gid
  | .setTimes path atime mtime => (fun _ => .done) <$> setTimes now path atime mtime
  | .makeFile path mode uid gid => .attributes <$> makeFile now path mode uid gid
  | .makeDirectory path mode uid gid => .attributes <$> makeDirectory now path mode uid gid
  | .removeFile path => (fun _ => .done) <$> removeFile now path
  | .removeDirectory path => (fun _ => .done) <$> removeDirectory now path
  | .read path offset length => .bytes <$> read path offset length
  | .write path data offset => .count <$> write now path data offset
  | .resize path size => (fun _ => .done) <$> resize now path size
  | .settle _ => return .done

end Volume.Strict

namespace Directory
variable {dir dir' : Directory} {name : String} {child : Id}

theorem Fits.set (h : dir.Fits) {slot : Slot} (fits : slot.Fits) (i : Fin dirEntries) :
    Fits { dir with slots := dir.slots.set i slot i.isLt } := by
  intro s member
  rw [Vector.toList_set] at member
  rcases List.mem_or_eq_of_mem_set member with old | rfl
  · exact h s old
  · exact fits

theorem fits_empty (self : Id) : (empty self).Fits := by
  intro slot member
  have free := Vector.eq_of_mem_replicate (Vector.mem_toList_iff.mp member)
  rw [free]
  exact Nat.zero_le _

theorem Fits.insert? (h : dir.Fits) (short : name.utf8ByteSize ≤ maxNameLength) {i : Fin dirEntries}
    (inserted : dir.insert? name child = some (i, dir')) : dir'.Fits := by
  obtain ⟨k, -, same⟩ := Option.map_eq_some_iff.mp inserted
  cases same
  exact h.set (show Slot.Fits { name, child } from short) i

theorem Fits.remove? (h : dir.Fits) (removed : dir.remove? name = some (child, dir')) : dir'.Fits := by
  rw [Directory.remove?] at removed
  split at removed
  · cases removed
  · obtain ⟨k, -, same⟩ := Option.map_eq_some_iff.mp removed
    cases same
    exact h.set (Nat.zero_le _) k

theorem insertChecked_eq (nonempty : name ≠ "") (short : name.utf8ByteSize ≤ maxNameLength) :
    dir.insertChecked name child = .ok (dir.insert? name child) := by
  rw [insertChecked, demand_of ⟨nonempty, short⟩]
  rfl

end Directory

namespace Lookup

theorem inStep_directory (dir : Inode) (path : String) : InStep Directory.Fits (Strict.directory dir path) (directory dir path) := by
  refine .ite Iff.rfl (fun _ => Store.inStep_load Directory dir.data) fun _ => .throw _

theorem inStep_child (path : String) (dir : Inode) (name : String) :
    InStep (fun _ => True) (Strict.child path dir name) (child path dir name) := by
  apply (inStep_directory dir path).bind
  intro table _
  cases table.find? name with
  | none => exact .throw _
  | some id => exact Store.inStep_load Inode id

theorem inStep_walk (path : String) (dir : Inode) (segments : List String) :
    InStep (fun _ => True) (segments.foldlM (Strict.child path) dir) (segments.foldlM (child path) dir) := by
  induction segments generalizing dir with
  | nil => exact .pure trivial
  | cons name rest ih =>
    rw [List.foldlM_cons, List.foldlM_cons]
    exact (inStep_child path dir name).bind fun i _ => ih i

theorem inStep_resolve (path : String) : InStep (fun _ => True) (Strict.resolve path) (resolve path) := by
  apply (InStep.ofExcept _ fun _ _ => trivial).bind
  intro _ _
  exact (InStep.lift _).bind fun r _ => inStep_walk path r _

/-- The last name of a path is one that a slot has room for. -/
theorem inStep_resolveParent (path : String) : InStep (fun place => place.2 ≠ "" ∧ place.2.utf8ByteSize ≤ maxNameLength)
    (Strict.resolveParent path) (resolveParent path) := by
  apply (InStep.ofExcept _ fun _ _ => trivial).bind
  intro _ _
  cases last : (Path.segments path).getLast? with
  | none => exact .throw _
  | some name =>
    have nonempty := (Path.of_mem_segments (List.mem_of_getLast? last)).1
    apply (InStep.ofExcept _ fun _ => Path.checkName_eq_ok.mp).bind
    intro _ short
    refine .ite Iff.rfl (fun _ => .throw _) fun _ => ?_
    apply (InStep.lift _).bind
    intro r _
    apply (inStep_walk path r _).bind
    intro parent _
    exact .ite Iff.rfl (fun _ => .pure ⟨nonempty, short⟩) fun _ => .throw _

end Lookup

namespace Volume
variable (now : Int64) (path : String)

theorem inStep_attributes : InStep (fun _ => True) (Strict.attributes path) (attributes path) :=
  (Lookup.inStep_resolve path).bind fun _ _ => .pure trivial

theorem inStep_table : InStep Directory.Fits (Strict.table path) (table path) :=
  (Lookup.inStep_resolve path).bind fun i _ => Lookup.inStep_directory i path

theorem inStep_names : InStep (fun _ => True) (Strict.names path) (names path) := by
  apply (inStep_table path).bind
  intro table _
  have few : table.count ≤ dirEntries := by
    have filtered := List.length_filter_le (!·.isFree) table.slots.toList
    rwa [Vector.length_toList] at filtered
  have small : 2 + dirEntries ≤ maxFileSize := by decide
  exact .check (add_of_le (by omega)) (.pure trivial)

theorem inStep_entries : InStep (fun _ => True) (Strict.entries path) (entries path) := by
  apply (inStep_table path).bind
  intro table _
  induction table.occupied with
  | nil => exact .pure trivial
  | cons slot rest ih =>
    rw [List.mapM_cons, List.mapM_cons]
    have first := (Store.inStep_load Inode slot.child).bind (Q := fun _ => True)
      fun i _ => .pure (a := Entry.mk slot.name (.ofInode i)) trivial
    exact first.bind fun _ _ => ih.bind fun _ _ => .pure trivial

theorem inStep_change (f : Inode → Inode) : InStep (fun _ => True) (Strict.change path now f) (change path now f) :=
  (Lookup.inStep_resolve path).bind fun _ _ => Store.inStep_saveInode _

theorem inStep_saveTable (parent : Inode) {dir : Directory} (fits : dir.Fits) :
    InStep (fun _ => True) (Strict.saveTable now parent dir) (saveTable now parent dir) :=
  (Store.inStep_save (r := dir) fits parent.data).bind fun _ _ => Store.inStep_saveInode _

theorem inStep_make (mode uid gid : UInt32) :
    InStep (fun _ => True) (Strict.make now path mode uid gid) (make now path mode uid gid) := by
  apply (Lookup.inStep_resolveParent path).bind
  rintro ⟨parent, name⟩ ⟨nonempty, short⟩
  apply (Lookup.inStep_directory parent path).bind
  intro dir fits
  refine .ite Iff.rfl (fun _ => .throw _) fun _ => ?_
  apply (InStep.lift _).bind
  intro self _
  apply (InStep.lift _).bind
  intro data _
  apply InStep.check (Directory.insertChecked_eq nonempty short)
  cases inserted : dir.insert? name self with
  | none => exact .throw _
  | some found =>
    obtain ⟨i, dir'⟩ := found
    have last : InStep (fun _ => True)
        (do
          Store.Strict.saveInode (Inode.new self data mode uid gid now)
          Strict.saveTable now parent dir'
          return Attributes.ofInode (Inode.new self data mode uid gid now))
        (do
          Store.saveInode (Inode.new self data mode uid gid now)
          saveTable now parent dir'
          return Attributes.ofInode (Inode.new self data mode uid gid now)) :=
      (Store.inStep_saveInode _).bind fun _ _ =>
        (inStep_saveTable now parent (fits.insert? short inserted)).bind fun _ _ => .pure trivial
    dsimp only
    cases (Inode.new self data mode uid gid now).kind with
    | directory => exact (Store.inStep_save (Directory.fits_empty data) data).bind fun _ _ => last
    | file => exact (Store.inStep_save (r := BlockMap.empty) trivial data).bind fun _ _ => last

theorem inStep_detach (parent : Inode) {dir : Directory} (fits : dir.Fits) (name : String) :
    InStep (fun _ => True) (Strict.detach now parent dir name) (detach now parent dir name) := by
  rw [Strict.detach, detach]
  cases removed : dir.remove? name with
  | none => exact .throw _
  | some found => exact inStep_saveTable now parent (fits.remove? removed)

theorem inStep_removeFile : InStep (fun _ => True) (Strict.removeFile now path) (removeFile now path) := by
  apply (Lookup.inStep_resolveParent path).bind
  rintro ⟨parent, name⟩ _
  apply (Lookup.inStep_directory parent path).bind
  intro dir fits
  dsimp only
  cases dir.find? name with
  | none => exact .throw _
  | some id =>
    apply (Store.inStep_load Inode id).bind
    intro target _
    exact .ite Iff.rfl (fun _ => .throw _) fun _ => inStep_detach now parent fits name

theorem inStep_removeDirectory : InStep (fun _ => True) (Strict.removeDirectory now path) (removeDirectory now path) := by
  apply (Lookup.inStep_resolve path).bind
  intro target _
  refine .ite Iff.rfl (fun _ => ?_) fun _ => .throw _
  apply (Lookup.inStep_directory target path).bind
  intro table _
  refine .ite Iff.rfl (fun _ => ?_) fun _ => .throw _
  apply (Lookup.inStep_resolveParent path).bind
  rintro ⟨parent, name⟩ _
  apply (Lookup.inStep_directory parent path).bind
  intro dir fits
  exact inStep_detach now parent fits name

theorem inStep_resolveFile : InStep (fun _ => True) (Strict.resolveFile path) (resolveFile path) :=
  (Lookup.inStep_resolve path).bind fun _ _ => .ite Iff.rfl (fun _ => .throw _) fun _ => .pure trivial

theorem inStep_read (offset : UInt64) (length : Nat) :
    InStep (fun _ => True) (Strict.read path offset length) (read path offset length) := by
  apply (inStep_resolveFile path).bind
  intro inode _
  refine .ite Iff.rfl (fun _ => .pure trivial) fun before => ?_
  have size : offset.toNat < inode.size.toNat := UInt64.lt_iff_toNat_lt.mp (UInt64.not_le.mp before)
  have far : offset.toNat ≤ Content.countMax := Nat.le_of_lt_succ offset.toNat_lt
  have within : offset.toNat ≤ min (min (offset.toNat + length) Content.countMax) inode.size.toNat := by omega
  apply InStep.check (sub_of_le within)
  exact (Store.inStep_load BlockMap inode.data).bind fun map _ => Content.inStep_read map _ _

theorem inStep_volume_write (data : ByteArray) (offset : UInt64) :
    InStep (fun _ => True) (Strict.write now path data offset) (write now path data offset) := by
  apply (InStep.ofExcept _ fun _ _ => trivial).bind
  intro _ _
  apply (inStep_resolveFile path).bind
  intro inode _
  refine .ite Iff.rfl (fun _ => .pure trivial) fun _ => ?_
  apply (Store.inStep_load BlockMap inode.data).bind
  intro map _
  have last : InStep (fun _ => True)
      (do
        let written ← Content.Strict.write inode.data map data offset.toNat
        Store.Strict.saveInode (touched now inode (max inode.size.toNat (← add offset.toNat written)))
        return written)
      (do
        let written ← Content.write inode.data map data offset.toNat
        Store.saveInode (touched now inode (max inode.size.toNat (offset.toNat + written)))
        return written) := by
    apply (Content.inStep_write inode.data map data offset.toNat).bind
    intro written small
    exact .check (add_of_le small) ((Store.inStep_saveInode _).bind fun _ _ => .pure trivial)
  exact .ite Iff.rfl (fun _ => (Content.inStep_clear map _ _).bind fun _ _ => last) fun _ => last

theorem inStep_resize (size : UInt64) : InStep (fun _ => True) (Strict.resize now path size) (resize now path size) := by
  refine .ite Iff.rfl (fun _ => .throw _) fun small => ?_
  apply (inStep_resolveFile path).bind
  intro inode _
  refine .ite Iff.rfl (fun grows => ?_) fun _ => Store.inStep_saveInode _
  have more : inode.size.toNat < size.toNat := UInt64.lt_iff_toNat_lt.mp grows
  apply (Store.inStep_load BlockMap inode.data).bind
  intro map _
  apply InStep.check (sub_of_le (Nat.le_of_lt more))
  apply InStep.check (allocate_of_le (by omega))
  exact (Content.inStep_write inode.data map _ _).bind fun _ _ => Store.inStep_saveInode _

theorem inStep_openRoot (options : Options) : InStep (fun _ => True) (Strict.openRoot options now) (openRoot options now) := by
  have loaded : InStep (fun _ => True) Strict.loadRoot loadRoot := by
    apply (Store.inStep_load RootPointer .rootPointer).bind
    intro pointer _
    apply (Store.inStep_load Inode pointer.root).bind
    intro root _
    exact .ite Iff.rfl (fun _ => .pure trivial) fun _ => .throw _
  have made : InStep (fun _ => True) (Strict.makeRoot options now) (makeRoot options now) := by
    apply (InStep.lift _).bind
    intro self _
    apply (InStep.lift _).bind
    intro data _
    apply (Store.inStep_save (Directory.fits_empty data) data).bind
    intro _ _
    apply (Store.inStep_saveInode _).bind
    intro _ _
    exact (Store.inStep_save (r := RootPointer.mk self) trivial .rootPointer).bind fun _ _ => .pure trivial
  apply (InStep.lift _).bind
  intro present _
  have attached (root : Inode) : InStep (fun _ => True) (do let _ ← Store.attachRoot root) (do let _ ← Store.attachRoot root) :=
    (InStep.lift _).bind fun _ _ => .pure trivial
  exact .ite Iff.rfl (fun _ => loaded.bind fun root _ => attached root) fun _ => made.bind fun root _ => attached root

theorem inStep_perform (call : Call) : InStep (fun _ => True) (Strict.perform now call) (call.perform now) := by
  cases call with
  | attributes path => exact (inStep_attributes path).map _ fun _ _ => trivial
  | names path => exact (inStep_names path).map _ fun _ _ => trivial
  | entries path => exact (inStep_entries path).map _ fun _ _ => trivial
  | setMode path mode => exact (inStep_change now path _).map _ fun _ _ => trivial
  | setOwner path uid gid => exact (inStep_change now path _).map _ fun _ _ => trivial
  | setTimes path atime mtime => exact (inStep_change now path _).map _ fun _ _ => trivial
  | makeFile path mode uid gid => exact (inStep_make now path _ uid gid).map _ fun _ _ => trivial
  | makeDirectory path mode uid gid => exact (inStep_make now path _ uid gid).map _ fun _ _ => trivial
  | removeFile path => exact (inStep_removeFile now path).map _ fun _ _ => trivial
  | removeDirectory path => exact (inStep_removeDirectory now path).map _ fun _ _ => trivial
  | read path offset length => exact (inStep_read path offset length).map _ fun _ _ => trivial
  | write path data offset => exact (inStep_volume_write now path data offset).map _ fun _ _ => trivial
  | resize path size => exact (inStep_resize now path size).map _ fun _ _ => trivial
  | settle path => exact .pure trivial

end Volume
end RecordFs
