import RecordFs.Proofs.Content.Asking
import RecordFs.Volume.Call

/-! How many identifiers calls ask for, and opening a volume: two for a new entry or a new root, those of the
blocks when bytes are laid over a file, and none otherwise. -/
namespace RecordFs.Asks
open Volume

variable (now : Int64) (path name : String) (parent : Inode)

theorem root : Asks 0 (Lookup.root path) := by
  apply Asks.cache.after
  rintro (none | root)
  · exact .throw _
  · exact .pure _

theorem directory : Asks 0 (Lookup.directory parent path) := .ite (.load _) (.throw _)

theorem child : Asks 0 (Lookup.child path parent name) := by
  apply (Asks.directory path parent).after
  intro d
  cases d.find? name with
  | none => exact .throw _
  | some id => exact .load id

theorem resolve : Asks 0 (Lookup.resolve path) :=
  (Asks.ofExcept _).after fun _ => (Asks.root path).after fun start =>
    .foldlM (fun dir name => Asks.child path name dir) _ start

theorem resolveParent : Asks 0 (Lookup.resolveParent path) := by
  apply (Asks.ofExcept _).after
  intro _
  cases (Path.segments path).getLast? with
  | none => exact .throw _
  | some name =>
    apply (Asks.ofExcept _).after
    intro _
    refine .ite (.throw _) ?_
    apply (Asks.root path).after
    intro start
    apply (Asks.foldlM (fun dir name => Asks.child path name dir) _ start).after
    intro parent
    exact .ite (.pure _) ((Asks.throw _).after fun _ => .pure _)

theorem saveTable (d : Directory) : Asks 0 (saveTable now parent d) := (Asks.save _ d).after fun _ => .save _ _

theorem detach (d : Directory) : Asks 0 (detach now parent d name) := by
  rw [Volume.detach]
  cases d.remove? name with
  | none => exact .throw _
  | some rest => exact .saveTable now parent _

theorem make (mode uid gid : UInt32) : Asks 2 (make now path mode uid gid) := by
  apply (Asks.resolveParent path).after
  rintro ⟨parent, name⟩
  apply (Asks.directory path parent).after
  intro d
  refine .ite (.throw _) ?_
  apply Asks.freshId.bind (n := 1)
  intro self
  apply Asks.freshId.bind (n := 0)
  intro data
  cases d.insert? name self with
  | none => exact .throw _
  | some filled =>
    obtain ⟨_, filled⟩ := filled
    have linked : Asks 0 (do
        Store.saveInode (Inode.new self data mode uid gid now)
        Volume.saveTable now parent filled
        return Attributes.ofInode (Inode.new self data mode uid gid now)) :=
      (Asks.save _ _).after fun _ => (Asks.saveTable now parent filled).after fun _ => .pure _
    dsimp only
    cases (Inode.new self data mode uid gid now).kind with
    | directory => exact (Asks.save data _).after fun _ => linked
    | file => exact (Asks.save data _).after fun _ => linked

theorem removeFile : Asks 0 (removeFile now path) := by
  apply (Asks.resolveParent path).after
  rintro ⟨parent, name⟩
  apply (Asks.directory path parent).after
  intro d
  dsimp only
  cases d.find? name with
  | none => exact .throw _
  | some id =>
    apply (Asks.load id).after
    intro i
    have detached := Asks.detach now name parent d
    exact .ite ((Asks.throw _).after fun _ => detached) detached

theorem removeDirectory : Asks 0 (removeDirectory now path) := by
  apply (Asks.resolve path).after
  intro target
  have emptied : Asks 0 (do
      let place ← Lookup.resolveParent path
      Volume.detach now place.1 (← Lookup.directory place.1 path) place.2) :=
    (Asks.resolveParent path).after fun place => (Asks.directory path place.1).after fun d => .detach now place.2 place.1 d
  have listed : Asks 0 (do
      unless (← Lookup.directory target path).isEmpty do MonadExcept.throw (.directoryNotEmpty path)
      let place ← Lookup.resolveParent path
      Volume.detach now place.1 (← Lookup.directory place.1 path) place.2) :=
    (Asks.directory path target).after fun d => .ite emptied ((Asks.throw _).after fun _ => emptied)
  exact .ite listed ((Asks.throw _).after fun _ => listed)

theorem table : Asks 0 (table path) := (Asks.resolve path).after fun i => .directory path i

theorem names : Asks 0 (names path) := (Asks.table path).after fun _ => .pure _

theorem entries : Asks 0 (entries path) := by
  apply (Asks.table path).after
  intro d
  refine Asks.mapM (fun slot => ?_) d.occupied
  exact (Asks.load slot.child).after fun _ => .pure _

theorem attributes : Asks 0 (attributes path) := (Asks.resolve path).after fun _ => .pure _

theorem change (F : Inode → Inode) : Asks 0 (change path now F) := (Asks.resolve path).after fun _ => .save _ _

theorem resolveFile : Asks 0 (resolveFile path) := by
  apply (Asks.resolve path).after
  intro i
  exact .ite ((Asks.throw _).after fun _ => .pure _) (.pure _)

section bytes
variable (data : ByteArray) (offset size : UInt64) (length : Nat)

theorem read : Asks 0 (read path offset length) := by
  apply (Asks.resolveFile path).after
  intro i
  refine .ite (.pure _) ?_
  exact (Asks.load i.data).after fun map => .readSpans map _ _ _

theorem write : Asks (2 * maxBlocks) (write now path data offset) := by
  apply (Asks.ofExcept _).after
  intro _
  apply (Asks.resolveFile path).after
  intro i
  refine .ite (.pure _) ?_
  apply (Asks.load i.data).after
  intro map
  have written : Asks (2 * maxBlocks) (do
      let written ← Content.write i.data map data offset.toNat
      Store.saveInode (touched now i (max i.size.toNat (offset.toNat + written)))
      return written) :=
    (Asks.content i.data map data offset.toNat).bind (n := 0) fun _ => (Asks.save _ _).after fun _ => .pure _
  exact .ite ((Asks.clearSpans map _ _).after fun _ => written) written

/-- Nothing is written for a new length that is not above the old one, as zero never is. -/
theorem resize_zero : Asks 0 (resize now path 0) := by
  have within : ¬ maxFileSize < (0 : UInt64).toNat := by decide
  rw [resize, if_neg within]
  apply (Asks.resolveFile path).after
  intro i
  dsimp only
  rw [if_neg UInt64.not_lt_zero]
  exact .save _ _

/-- Only a new length above the old one is written. -/
theorem resize : Asks (2 * maxBlocks) (resize now path size) := by
  rw [Volume.resize]
  split
  · exact .throw _
  apply (Asks.resolveFile path).after
  intro i
  have noted (n : Nat) : Asks 0 (Store.saveInode (touched now i n)) := .save _ _
  refine .ite ((Asks.load i.data).after fun map => ?_) ((noted _).mono (Nat.zero_le _))
  exact (Asks.content i.data map _ _).bind (n := 0) fun _ => noted _

end bytes

/-- Whatever is called, so many identifiers are enough. -/
theorem call (call : Call) : Asks (2 * maxBlocks) (call.perform now) := by
  have none {α : Type} (f : α → Answer) {x : Action α} (asks : Asks 0 x) : Asks (2 * maxBlocks) (f <$> x) :=
    (asks.mono (Nat.zero_le _)).map f
  have two (path : String) (mode uid gid : UInt32) :
      Asks (2 * maxBlocks) (Answer.attributes <$> Volume.make now path mode uid gid) :=
    ((Asks.make now path mode uid gid).mono (n := 2 * maxBlocks) (by decide)).map Answer.attributes
  cases call with
  | attributes path => exact none _ (.attributes path)
  | names path => exact none _ (.names path)
  | entries path => exact none _ (.entries path)
  | setMode path mode => exact none _ (.change now path _)
  | setOwner path uid gid => exact none _ (.change now path _)
  | setTimes path atime mtime => exact none _ (.change now path _)
  | makeFile path mode uid gid => exact two path _ uid gid
  | makeDirectory path mode uid gid => exact two path _ uid gid
  | removeFile path => exact none _ (.removeFile now path)
  | removeDirectory path => exact none _ (.removeDirectory now path)
  | read path offset length => exact none _ (.read path offset length)
  | write path data offset => exact (Asks.write now path data offset).map Answer.count
  | resize path size => exact (Asks.resize now path size).map fun _ => Answer.done
  | settle path => exact .pure _

theorem openRoot (options : Options) : Asks 2 (openRoot options now) := by
  have attached {x : Action Inode} (h : Asks 2 x) : Asks 2 (do let root ← x; let _ ← Store.attachRoot root) := by
    apply h.bind (n := 0)
    intro root
    refine Asks.after ?_ fun _ => .pure _
    apply Asks.cache.after
    rintro (none | held)
    · exact (Asks.setCache _).after fun _ => .pure _
    · exact .pure _
  have named : Asks 0 (Store.contains .rootPointer) := (Asks.get _).after fun _ => .pure _
  apply named.after
  intro present
  refine .ite (attached ?_) (attached ?_)
  · refine Asks.mono (m := 0) ?_ (Nat.zero_le 2)
    apply (Asks.load .rootPointer).after
    intro pointer
    apply (Asks.load _).after
    intro root
    exact .ite (.pure _) ((Asks.throw _).after fun _ => .pure _)
  · apply Asks.freshId.bind (n := 1)
    intro self
    apply Asks.freshId.bind (n := 0)
    intro data
    exact (Asks.save data _).after fun _ => (Asks.save _ _).after fun _ => (Asks.save _ _).after fun _ => .pure _

end RecordFs.Asks
