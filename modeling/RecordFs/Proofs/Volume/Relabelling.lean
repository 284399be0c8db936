import RecordFs.Proofs.Tree.AllOrNothing
import RecordFs.Proofs.Volume.Sequencing

/-! Calls that change what is told of one entry, and nothing else that can be seen. -/
namespace RecordFs
open Outline Volume

namespace Outline
variable {o : Outline} {path : String} {place : List String} {i j : Inode} (h : o.Sound) (found : o.walk path place = .ok i)
  (alike : i.Alike j)
include h found alike

theorem walk_relabelled (other : String) (segments : List String) :
    (o.setInode j).walk other segments = if segments = place then .ok j else o.walk other segments :=
  h.walk_setInode (walk_congr_path other found) alike.self alike.data alike.isDirectory segments

theorem sameTree_relabelled : SameTree o (o.setInode j) where
  shape other segments := by
    have names : ((o.setInode j).glance j).names = (o.glance i).names := by
      change (if _ then (o.table _).map _ else none) = (if _ then (o.table _).map _ else none)
      rw [alike.isDirectory, alike.data]
    rw [shape, shape, walk_relabelled h found alike]
    split
    · rename_i here
      rw [here, walk_congr_path other found]
      exact congrArg Except.ok names
    · rfl
  file? other := h.file?_setInode found alike.self alike.data alike.isDirectory fun _ => .inr alike.size

theorem attributes_relabelled {other : String} (apart : Path.segments other ≠ place) :
    (o.setInode j).attributes other = o.attributes other := by
  rw [Outline.attributes, Outline.attributes, resolve, resolve, walk_relabelled h found alike, if_neg apart]

end Outline

namespace Session
variable {s t u : Session} {now : Int64} {path : String} {i j k : Inode}

theorem SameTree.refl (s : Session) : s.SameTree s := ⟨fun _ => rfl, fun _ => rfl, fun _ => rfl⟩

theorem SameTree.trans (h : s.SameTree t) (l : t.SameTree u) : s.SameTree u where
  kind path := (l.kind path).trans (h.kind path)
  names path := (l.names path).trans (h.names path)
  content path := (l.content path).trans (h.content path)

/-- Where `i` stood now stands `j`, the same entry under other permissions, owners or times. -/
structure Relabelled (s : Session) (path : String) (i j : Inode) (t : Session) : Prop where
  resolved : t.world.outline.resolve path = .ok j
  tree : s.SameTree t
  elsewhere : ∀ other, Path.segments other ≠ Path.segments path →
    t.observe (attributes other) = s.observe (attributes other)

namespace Relabelled

theorem refl (found : s.world.outline.resolve path = .ok i) : s.Relabelled path i i s :=
  ⟨found, .refl s, fun _ _ => rfl⟩

theorem trans (h : s.Relabelled path i j t) (l : t.Relabelled path j k u) : s.Relabelled path i k u where
  resolved := l.resolved
  tree := h.tree.trans l.tree
  elsewhere other apart := (l.elsewhere other apart).trans (h.elsewhere other apart)

end Relabelled

/-- A change of metadata that is planned is made, where nothing fails. -/
theorem relabelled_of_change {call : Call} {F : Inode → Inode} {r : Except Failure Answer} (h : s.world.Sound)
    (found : s.world.outline.resolve path = .ok i)
    (planned : ∀ o : Outline, o.plan now call = Plan.map (fun _ => .done) <$> o.planChange now path F)
    (alike : i.Typed → i.Alike (F i)) (steady : ¬ s.disk.Faulty) (performed : s.Performs now call r t) :
    r = .ok .done ∧ s.Relabelled path i { F i with ctime := now } t := by
  obtain rfl := done_of_change h found (planned _) steady performed
  have sound := (performed.follows h).1
  have same := outline_of_change h found (planned _) performed
  have stored := h.outline.resolve_stored found
  have alike := (alike (h.inode _ _ stored).mode).changed now
  obtain ⟨checked, walked⟩ := resolve_eq_ok.mp found
  refine ⟨rfl, resolve_eq_ok.mpr ⟨checked, ?_⟩, .of_outline h sound ?_, fun other apart => ?_⟩
  · rw [same, walk_relabelled h.outline walked alike, if_pos rfl]
  · rw [same]
    exact sameTree_relabelled h.outline walked alike
  · rw [observe_attributes sound, observe_attributes h, same]
    exact attributes_relabelled h.outline walked alike apart

end Session
end RecordFs
