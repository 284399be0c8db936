import RecordFs.Proofs.Volume.Effects

/-! Making and removing entries with a failure on the way. The table of the directory is what makes
the change show: before it is stored nothing is to be seen, after it only the inode of the directory
is behind. -/
namespace RecordFs
open Function Volume

private theorem mapM_congr {α β : Type} {f g : α → Except Failure β} (l : List α) (same : ∀ a ∈ l, f a = g a) :
    l.mapM f = l.mapM g := by
  induction l with
  | nil => rfl
  | cons a l ih =>
    rw [List.mapM_cons, List.mapM_cons, same a List.mem_cons_self, ih fun b member => same b (List.mem_cons_of_mem a member)]

namespace Outline

variable {o o' : Outline} {path : String} {now : Int64}

/-- What is new is on no path, and what is on a path is what it was. -/
structure Unseen (o o' : Outline) : Prop where
  walk : ∀ path segments, o'.walk path segments = o.walk path segments
  table : ∀ {path segments i}, o.walk path segments = .ok i → o'.table i.data = o.table i.data
  content : ∀ {path segments i}, o.walk path segments = .ok i → o'.content i.data = o.content i.data
  child : ∀ {path segments i d slot}, o.walk path segments = .ok i → o.table i.data = some d → slot ∈ d.occupied →
    o'.inode slot.child = o.inode slot.child

namespace Unseen

theorem refl (o : Outline) : Unseen o o := ⟨fun _ _ => rfl, fun _ => rfl, fun _ => rfl, fun _ _ _ => rfl⟩

variable (h : Unseen o o') (path : String)
include h

theorem resolve : o'.resolve path = o.resolve path := by
  rw [Outline.resolve, Outline.resolve, h.walk]

theorem attributes : o'.attributes path = o.attributes path := by
  rw [Outline.attributes, Outline.attributes, h.resolve]

theorem listing : o'.listing path = o.listing path := by
  rw [Outline.listing, Outline.listing, h.resolve]
  cases found : o.resolve path with
  | error e => rfl
  | ok i =>
    rw [ok_bind, ok_bind, directory, directory, h.table (resolve_eq_ok.mp found).2]

theorem names : o'.names path = o.names path := by
  rw [Outline.names, Outline.names, h.listing]

theorem entries : o'.entries path = o.entries path := by
  rw [Outline.entries, Outline.entries, h.listing]
  cases listed : o.listing path with
  | error e => rfl
  | ok d =>
    obtain ⟨i, found, _, table⟩ := listing_eq_ok.mp listed
    rw [ok_bind, ok_bind]
    apply mapM_congr
    intro slot member
    rw [h.child (resolve_eq_ok.mp found).2 table member]

theorem read (offset length : Nat) : o'.read path offset length = o.read path offset length := by
  rw [Outline.read, Outline.read, resolveFile, resolveFile, h.resolve]
  cases found : o.resolve path with
  | error e => rfl
  | ok i =>
    rw [ok_bind]
    split
    · rfl
    · rw [ok_bind, ok_bind, h.content (resolve_eq_ok.mp found).2]

end Unseen
section make
variable {i : Inode} {place : Opening}

theorem unseen_emptyData (h : o.Sound) (new : o.New i) : Unseen o (o.apply (emptyData i.data i.kind)) where
  walk := walk_emptyData h new
  table found := table_apply_emptyData o i.kind (new.data.data _ _ (h.walk_stored found))
  content found := by
    cases i.kind with
    | directory => rfl
    | file => exact content_setContent_of_ne o _ (new.data.data _ _ (h.walk_stored found))
  child _ _ _ := by rw [inode_apply_emptyData]

/-- No table names the new entry yet. -/
theorem unseen_unlinked (h : o.Sound) (h₁ : (o.apply (emptyData i.data i.kind)).Sound) (new : o.New i) :
    Unseen o ((o.apply (emptyData i.data i.kind)).setInode i) where
  walk _ segments := walk_unlinked h h₁ new segments
  table found := (unseen_emptyData h new).table found
  content found := (unseen_emptyData h new).content found
  child {_ _ _ d _} _ listed member := by
    obtain ⟨k, rfl, used⟩ := Directory.mem_occupied.mp member
    have other : (d.slots.get k).child ≠ i.self := fun same =>
      new.self.child _ d k listed (Directory.named?_eq_some.mpr ⟨used, same⟩)
    exact (update_of_ne other ..).trans (congrFun (inode_apply_emptyData o i.data i.kind) _)

/-- Of a new entry nothing is to be seen, or all but the size and the times of its directory. -/
theorem unseen_or_linked {α : Type} {faulty : Prop} {answer : α} {e : Failure} (h : o.Sound) (opens : place.Open o path)
    (new : o.New i) (carried : Carried faulty (place.changes now i) answer o (.error e) o') :
    Unseen o o' ∨ o'.walk path (Path.segments path).dropLast = .ok place.parent ∧
      ((o'.setInode (touched now place.parent (place.filled i.self).count)).Sound →
        Made now o path place i (o'.setInode (touched now place.parent (place.filled i.self).count))) := by
  rw [Opening.changes] at carried
  rcases carried.cons with rfl | ⟨h₁, rest⟩
  · exact .inl (.refl _)
  rcases rest.cons with rfl | ⟨h₂, rest⟩
  · exact .inl (unseen_emptyData h new)
  rcases rest.cons with rfl | ⟨h₃, rest⟩
  · exact .inl (unseen_unlinked h h₁ new)
  rcases rest.cons with rfl | ⟨_, rest⟩
  · refine .inr ⟨(awaited_of_new h h₁ new opens).found_linked h₂, fun sound => ?_⟩
    -- The change that is missing can still be made, and then the call is as it would have succeeded.
    have finished : Carried False (place.changes now i) () o (.ok ()) _ :=
      .step h (.step h₁ (.step h₂ (.step h₃ (.done sound))))
    exact (made_of_carried h opens new finished).2
  · cases rest

end make

section remove
variable {parent : Inode} {d : Directory} {k : Fin dirEntries} {n : Nat}

/-- An entry that is to be removed is there as it was, or gone, with the inode of its directory behind. -/
theorem kept_or_removed {α : Type} {faulty : Prop} {answer : α} {e : Failure} (h : o.Sound) (removal : Removal o path parent d k)
    (carried : Carried faulty [.table (d.put k {}), .inode (touched now parent n)] answer o (.error e) o') :
    o' = o ∨ o'.walk path (Path.segments path).dropLast = .ok parent ∧ o' = o.setTable (d.put k {}) := by
  rcases carried.cons with rfl | ⟨_, rest⟩
  · exact .inl rfl
  rcases rest.cons with rfl | ⟨_, rest⟩
  · exact .inr ⟨removal.found_removed h, rfl⟩
  · cases rest

end remove
end Outline
end RecordFs
