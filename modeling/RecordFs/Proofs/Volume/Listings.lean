import Mathlib.Data.List.Nodup
import RecordFs.Proofs.Tree.Removing

/-! The order of a listing. Names are listed by their slots. A new entry fills one free slot and an entry
that leaves frees one, so in every directory the names that stay keep their order. -/
namespace RecordFs
open Function Volume

/-- Where some of the values are missing, the others come in the same order. -/
theorem filterMap_sublist {α β : Type} {f g : α → Option β} (fewer : ∀ a, g a = none ∨ g a = f a) (l : List α) :
    (l.filterMap g).Sublist (l.filterMap f) := by
  induction l with
  | nil => exact List.Sublist.refl _
  | cons a rest ih =>
    rcases fewer a with none | same
    · rw [List.filterMap_cons_none none]
      cases there : f a with
      | none => rwa [List.filterMap_cons_none there]
      | some b =>
        rw [List.filterMap_cons_some there]
        exact ih.cons b
    · cases there : f a with
      | none => rwa [List.filterMap_cons_none there, List.filterMap_cons_none (same.trans there)]
      | some b =>
        rw [List.filterMap_cons_some there, List.filterMap_cons_some (same.trans there)]
        exact ih.cons_cons b

namespace Directory
variable {d e : Directory} {id : Id}

/-- What is listed of a table, itself and its parent first. -/
def listed (d : Directory) : List String := "." :: ".." :: d.occupied.map (·.name)

theorem listed_eq (d : Directory) : d.listed = "." :: ".." :: (List.finRange dirEntries).filterMap d.names :=
  congrArg (fun names : List String => "." :: ".." :: names) d.map_name_occupied

theorem listed_sublist (fewer : ∀ k, d.names k = none ∨ d.names k = e.names k) : d.listed.Sublist e.listed := by
  rw [listed_eq, listed_eq]
  exact ((filterMap_sublist fewer _).cons_cons "..").cons_cons "."

theorem Proper.listed_nodup (h : d.Proper id) : d.listed.Nodup := by
  have entry {name : String} (member : name ∈ (List.finRange dirEntries).filterMap d.names) : Path.Entry name := by
    obtain ⟨k, _, named⟩ := List.mem_filterMap.mp member
    obtain ⟨used, rfl⟩ := names_eq_some.mp named
    exact h.names k used
  have single : ((List.finRange dirEntries).filterMap d.names).Nodup := by
    refine List.Nodup.filterMap ?_ (List.nodup_finRange _)
    intro j k name here there
    obtain ⟨used, named⟩ := names_eq_some.mp here
    exact h.distinct j k used (named.trans (names_eq_some.mp there).2.symm)
  rw [listed_eq, List.nodup_cons, List.nodup_cons]
  refine ⟨?_, fun member => (entry member).not_parent rfl, single⟩
  intro member
  rcases List.mem_cons.mp member with same | member
  · exact absurd same (by decide)
  · exact (entry member).not_self rfl

theorem length_listed_le (d : Directory) : d.listed.length ≤ dirEntries + 2 := by
  rw [listed, List.length_cons, List.length_cons, List.length_map]
  exact Nat.add_le_add_right d.count_le 2

end Directory

namespace Outline
variable {o o' : Outline} {now : Int64} {path other : String} {parent i : Inode} {d e : Directory} {k : Fin dirEntries}
  {l l' : List String}

theorem names_eq_listed : o.names other = .ok l ↔ ∃ d, o.listing other = .ok d ∧ d.listed = l := by
  rw [names, bind_eq_ok]
  exact exists_congr fun d => and_congr Iff.rfl (Except.ok.injEq ..).to_iff

private theorem map_name_of_mapM {f : Slot → Except Failure Entry} (named : ∀ slot e, f slot = .ok e → e.name = slot.name)
    {slots : List Slot} {entries : List Entry} (all : slots.mapM f = .ok entries) :
    entries.map (·.name) = slots.map (·.name) := by
  induction slots generalizing entries with
  | nil =>
    cases all
    rfl
  | cons slot rest ih =>
    rw [List.mapM_cons] at all
    obtain ⟨e, first, all⟩ := bind_eq_ok.mp all
    obtain ⟨es, others, same⟩ := bind_eq_ok.mp all
    cases same
    rw [List.map_cons, List.map_cons, named slot e first, ih others]

/-- The entries of a directory are told in the order of its names. -/
theorem names_of_entries {entries : List Entry} (told : o.entries other = .ok entries) :
    o.names other = .ok ("." :: ".." :: entries.map (·.name)) := by
  obtain ⟨d, listed, all⟩ := bind_eq_ok.mp told
  refine names_eq_listed.mpr ⟨d, listed, ?_⟩
  rw [Directory.listed, map_name_of_mapM ?_ all]
  intro slot e ok
  obtain ⟨i, _, same⟩ := bind_eq_ok.mp ok
  cases same
  rfl

section sound
variable (h : o.Sound) (listed : o.names other = .ok l)
include h listed

theorem Sound.names_nodup : l.Nodup := by
  obtain ⟨d, found, rfl⟩ := names_eq_listed.mp listed
  obtain ⟨i, _, _, table⟩ := listing_eq_ok.mp found
  exact (h.table _ _ table).listed_nodup

omit h in
theorem length_names_le : l.length ≤ dirEntries + 2 := by
  obtain ⟨d, _, rfl⟩ := names_eq_listed.mp listed
  exact d.length_listed_le

end sound

/-- No entry is where a new one is to be made. -/
theorem Opening.Open.lost {place : Opening} (opens : place.Open o path) (other : String) :
    o.walk other (Path.segments path) = .error (.notFound other) := by
  rw [← segments_of_lastName opens.last, walk_snoc, walk_congr_path other opens.found, ok_bind,
    child_of_table opens.is opens.table, opens.new]

/-- A slot that an entry was made in had no name. -/
theorem Made.listing_before {place : Opening} (made : Made now o path place i o') (h : o.Sound) (opens : place.Open o path)
    (new : o.New i) (before : o.listing other = .ok d) (after : o'.listing other = .ok e) (k : Fin dirEntries) :
    d.names k = none ∨ d.names k = e.names k := by
  obtain ⟨a, found, _, table⟩ := listing_eq_ok.mp before
  obtain ⟨b, found', _, table'⟩ := listing_eq_ok.mp after
  have walked := (resolve_eq_ok.mp found).2
  have walked' := (resolve_eq_ok.mp found').2
  rw [made.walk] at walked'
  split at walked'
  · rename_i here
    rw [here, walk_congr_path other opens.found] at walked
    cases walked
    cases walked'
    rw [opens.table] at table
    cases table
    change o'.table place.parent.data = _ at table'
    rw [made.table, update_self] at table'
    cases table'
    rw [Opening.filled, Directory.names_put (entry_of_lastName opens.last).nonempty]
    by_cases slot : k = place.slot
    · left
      rw [slot, ← Option.isNone_iff_eq_none, Directory.isNone_names, opens.free]
    · right
      rw [update_of_ne slot]
  · rename_i apart
    split at walked'
    · rename_i here
      rw [here, opens.lost] at walked
      cases walked
    · split at walked'
      · cases walked'
      · rw [walked] at walked'
        cases walked'
        have kept := table_apply_emptyData o i.kind (new.data.data _ _ (h.walk_stored walked))
        rw [made.table, update_of_ne (h.data_ne walked opens.found apart), kept, table] at table'
        cases table'
        exact .inr rfl

/-- The slot of an entry that was removed has no name. -/
theorem Removal.Removed.listing_after (removed : Removed now o path parent d k o') (h : o.Sound) (removal : Removal o path parent d k)
    {e e' : Directory} (before : o.listing other = .ok e) (after : o'.listing other = .ok e') (j : Fin dirEntries) :
    e'.names j = none ∨ e'.names j = e.names j := by
  obtain ⟨a, found, _, table⟩ := listing_eq_ok.mp before
  obtain ⟨b, found', _, table'⟩ := listing_eq_ok.mp after
  have walked := (resolve_eq_ok.mp found).2
  have walked' := (resolve_eq_ok.mp found').2
  rw [removed.walk] at walked'
  split at walked'
  · rename_i here
    rw [here, walk_congr_path other removal.found] at walked
    cases walked
    cases walked'
    rw [removal.table] at table
    cases table
    change o'.table parent.data = _ at table'
    rw [removed.table, update_self] at table'
    cases table'
    rw [Directory.names_put_empty]
    by_cases slot : j = k
    · left
      rw [slot, update_self]
    · right
      rw [update_of_ne slot]
  · rename_i apart
    split at walked'
    · cases walked'
    · rw [walked] at walked'
      cases walked'
      rw [removed.table, update_of_ne (h.data_ne walked removal.found apart), table] at table'
      cases table'
      exact .inr rfl

section order
variable {α : Type} {faulty : Prop} {a : α} (h : o.Sound) (before : o.names other = .ok l) (after : o'.names other = .ok l')
include h before after

/-- What was listed before an entry was made is listed in the same order after it. -/
theorem Follows.names_grow {g : Attributes → α} {mode uid gid : UInt32}
    (follows : Follows faulty (Plan.map g <$> o.planMake now path mode uid gid) o (.ok a) o') : l.Sublist l' := by
  obtain ⟨place, self, data, opens, new, _, made⟩ := follows.made h
  obtain ⟨d, listed, rfl⟩ := names_eq_listed.mp before
  obtain ⟨e, listed', rfl⟩ := names_eq_listed.mp after
  exact Directory.listed_sublist (made.listing_before h opens new listed listed')

/-- What is listed after an entry was removed was listed in the same order before it. -/
theorem Follows.names_shrink {g : Unit → α} {plan : Except Failure (Plan Unit)}
    (removes : ∀ {allowed}, plan = .ok allowed → ∃ parent d k, Removal o path parent d k ∧
      allowed = .just [.table (d.put k {}), .inode (touched now parent (d.put k {}).count)] ())
    (follows : Follows faulty (Plan.map g <$> plan) o (.ok a) o') : l'.Sublist l := by
  obtain ⟨allowed, changes, _, planned, allows, carried⟩ := follows.succeeded
  obtain ⟨parent, d, k, removal, rfl⟩ := removes planned
  obtain ⟨rfl, _⟩ := allows
  obtain ⟨_, removed⟩ := removal.removed_of_carried h carried
  obtain ⟨e, listed, rfl⟩ := names_eq_listed.mp before
  obtain ⟨e', listed', rfl⟩ := names_eq_listed.mp after
  exact Directory.listed_sublist (removed.listing_after h removal listed listed')

end order
end Outline
end RecordFs
