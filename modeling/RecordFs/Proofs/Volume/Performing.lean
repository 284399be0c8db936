import RecordFs.Proofs.Volume.Contents
import RecordFs.Proofs.Volume.Entries

/-! Every call follows its plan. -/
namespace RecordFs.World
open Outline Volume

variable {faulty : Prop} {w : World}

theorem Sound.ensures_perform (h : w.Sound) (now : Int64) (call : Call) : Ensures faulty (call.perform now) w
    (Leaves (Follows faulty (w.outline.plan now call) w.outline)) := by
  cases call with
  | attributes path => exact follows_map _ (h.follows_query (h.yields_attributes path))
  | names path => exact follows_map _ (h.follows_query (h.yields_names path))
  | entries path => exact follows_map _ (h.follows_query (h.yields_entries path))
  | setMode path mode => exact follows_map _ (h.ensures_setMode now path mode)
  | setOwner path uid gid => exact follows_map _ (h.ensures_setOwner now path uid gid)
  | setTimes path atime mtime => exact follows_map _ (h.ensures_setTimes now path atime mtime)
  | makeFile path mode uid gid => exact follows_map _ (h.ensures_make now path .file rfl)
  | makeDirectory path mode uid gid => exact follows_map _ (h.ensures_make now path .directory rfl)
  | removeFile path => exact follows_map _ (h.ensures_removeFile now path)
  | removeDirectory path => exact follows_map _ (h.ensures_removeDirectory now path)
  | read path offset length => exact follows_map _ (h.follows_query (h.yields_read path offset length))
  | write path data offset => exact follows_map _ (h.ensures_volume_write now path data offset)
  | resize path size => exact follows_map _ (h.ensures_resize now path size)
  | settle path => exact ⟨h, .just (.done h.outline)⟩

end RecordFs.World
