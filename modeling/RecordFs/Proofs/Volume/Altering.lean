import RecordFs.Proofs.Volume.ContentLaws

/-! Calls that alter one entry, its metadata or its length. The path leads to the entry still, and of all
files only this one may hold other bytes. -/
namespace RecordFs
open Outline Volume

namespace Session
variable {s t u : Session} {now : Int64} {path : String} {i j k : Inode} {f g : ByteArray → ByteArray} {call : Call}
  {r : Except Failure Answer}

/-- Where `i` stood now stands `j`, of the same kind. A file there has its bytes sent through `f`, and no other
file has changed. -/
structure Altered (s : Session) (path : String) (i j : Inode) (f : ByteArray → ByteArray) (t : Session) : Prop where
  resolved : t.world.outline.resolve path = .ok j
  kind : j.kind = i.kind
  content : ∀ c, s.content path = .ok c → t.content path = .ok (f c)
  elsewhere : ∀ other c, Path.segments other ≠ Path.segments path → (t.content other = .ok c ↔ s.content other = .ok c)

theorem Altered.trans (h : s.Altered path i j f t) (l : t.Altered path j k g u) : s.Altered path i k (g ∘ f) u where
  resolved := l.resolved
  kind := l.kind.trans h.kind
  content c held := l.content _ (h.content c held)
  elsewhere other c apart := (l.elsewhere other c apart).trans (h.elsewhere other c apart)

theorem Altered.refl (found : s.world.outline.resolve path = .ok i) : s.Altered path i i id s :=
  ⟨found, rfl, fun _ => id, fun _ _ _ => Iff.rfl⟩

theorem Altered.of_outline (h : s.Altered path i j f t) (same : u.world.outline = t.world.outline)
    (sound : t.world.Sound) (sound' : u.world.Sound) : s.Altered path i j f u := by
  have content (other : String) : u.content other = t.content other := by
    rw [content_eq sound', content_eq sound, same]
  refine ⟨same ▸ h.resolved, h.kind, fun c held => ?_, fun other c apart => ?_⟩
  · rw [content]
    exact h.content c held
  · rw [content]
    exact h.elsewhere other c apart

section change
variable {F : Inode → Inode} (h : s.world.Sound) (found : s.world.outline.resolve path = .ok i)
  (planned : s.world.outline.plan now call = Plan.map (fun _ => .done) <$> s.world.outline.planChange now path F)
include h found planned

/-- A change of metadata stores the inode again, with the time of the change, and nothing else. -/
theorem outline_of_change (performed : s.Performs now call (.ok .done) t) :
    t.world.outline = s.world.outline.setInode { F i with ctime := now } := by
  obtain ⟨_, follows⟩ := performed.follows h
  rw [planned] at follows
  obtain ⟨_, changes, _, plan, allowed, carried⟩ := follows.succeeded
  rw [planChange, found] at plan
  cases plan
  obtain ⟨rfl, _⟩ := allowed
  obtain ⟨_, rest⟩ := carried.cons_ok
  exact rest.nil_ok.2

/-- A change of metadata that keeps what the entry is. -/
theorem altered_of_change (alike : ∀ i : Inode, i.Typed → i.Alike (F i)) (no : call.place? = none)
    (performed : s.Performs now call (.ok .done) t) : s.Altered path i { F i with ctime := now } id t := by
  have same := outline_of_change h found planned performed
  have stored := h.outline.resolve_stored found
  have alike := (alike i (h.inode _ _ stored).mode).changed now
  obtain ⟨checked, walked⟩ := resolve_eq_ok.mp found
  have walk := h.outline.walk_setInode walked alike.self alike.data alike.isDirectory (Path.segments path)
  rw [if_pos rfl] at walk
  have content (other : String) (c : ByteArray) : t.content other = .ok c ↔ s.content other = .ok c :=
    content_elsewhere h performed c (by rw [no]; exact nofun)
  exact ⟨resolve_eq_ok.mpr ⟨checked, same ▸ walk⟩, alike.kind, fun c => (content path c).mpr, fun other c _ => content other c⟩

theorem done_of_change (steady : ¬ s.disk.Faulty) (performed : s.Performs now call r t) : r = .ok .done := by
  obtain ⟨_, follows⟩ := performed.follows h
  rw [planned] at follows
  rcases follows.result with ⟨_, _, _, _, _, ok⟩ | ⟨e, refused, _⟩ | ⟨faulty, _⟩
  · exact ok
  · rw [planChange, found] at refused
    cases refused
  · exact absurd faulty steady

end change

section resize
variable {size : UInt64} (h : s.world.Sound) (found : s.world.outline.resolve path = .ok i)
include h found

theorem altered_of_resize (performed : s.Performs now (.resize path size) (.ok .done) t) :
    s.Altered path i (touched now i size.toNat) (resized · size.toNat) t := by
  obtain ⟨_, follows⟩ := performed.follows h
  obtain ⟨plan, changes, _, planned, allowed, carried⟩ := follows.succeeded
  obtain ⟨_, i', file, planned⟩ := planResize_eq_ok planned
  obtain ⟨resolved, _⟩ := resolveFile_eq_ok.mp file
  cases found.symm.trans resolved
  obtain ⟨checked, walked⟩ := resolve_eq_ok.mp found
  have walk : t.world.outline.walk path (Path.segments path) = .ok (touched now i size.toNat) := by
    rcases planned with ⟨_, old, _, rfl⟩ | ⟨_, rfl⟩
    · obtain ⟨_, _, _, _, laid⟩ := laid_of_carried walked allowed carried
      rw [laid.walk, if_pos rfl]
    · obtain ⟨rfl, _⟩ := allowed
      obtain ⟨_, rest⟩ := carried.cons_ok
      have same : t.world.outline = s.world.outline.setInode (touched now i size.toNat) := rest.nil_ok.2
      rw [same, h.outline.walk_setInode (j := touched now i size.toNat) walked rfl rfl rfl, if_pos rfl]
  refine ⟨resolve_eq_ok.mpr ⟨checked, walk⟩, rfl, fun c held => ?_, fun other c apart => ?_⟩
  · obtain ⟨c', held', after⟩ := content_resized h performed
    cases held.symm.trans held'
    exact after
  · exact content_elsewhere h performed c fun p named => by
      cases named
      exact apart

theorem done_of_resize (steady : ¬ s.disk.Faulty) (file : i.kind = .file) (fits : size.toNat ≤ maxFileSize)
    (performed : s.Performs now (.resize path size) r t) : r = .ok .done := by
  have is : i.isDirectory = false := by
    rw [Inode.isDirectory, file]
    rfl
  have stored := h.outline.resolve_stored found
  obtain ⟨view, content⟩ := h.outline.file _ _ stored is
  have held := (content_eq_ok h).mpr ⟨i, view, resolveFile_eq_ok.mpr ⟨found, is⟩, content, rfl⟩
  exact (content_resize_fits h held performed fits).resolve_right fun failed => steady failed.1

end resize
end Session
end RecordFs
