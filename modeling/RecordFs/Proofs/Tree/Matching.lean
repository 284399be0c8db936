import RecordFs.Proofs.Tree.Places
import RecordFs.Proofs.Volume.Effects

/-! An outline and a tree match when the same segments lead to entries that show the same, or to the
same refusal. A change of one entry keeps this when it is the same change in both. -/
namespace RecordFs
open Function Volume

/-- What an inode tells of its entry. -/
def Facts.of (i : Inode) : Facts where
  permissions := i.permissions
  uid := i.uid
  gid := i.gid
  atime := i.atime
  mtime := i.mtime
  ctime := i.ctime
  size := i.size.toNat

namespace Slots
variable {slots : Slots} {d : Directory} (same : slots.names = d.names)
include same

theorem length_occupied_of_names : slots.occupied.length = d.count := by
  have names : slots.occupied.map (·.1) = d.occupied.map (·.name) := by
    rw [map_names_occupied, same, d.map_name_occupied]
  have lengths := congrArg List.length names
  rwa [List.length_map, List.length_map] at lengths

theorem find?_eq_none_of_names {name : String} (nonempty : name ≠ "") : slots.find? name = none ↔ d.find? name = none := by
  rw [find?_eq_none, same, Directory.find?_eq_none_iff_names nonempty]

theorem free?_of_names : slots.free? = d.slots.findFinIdx? (·.isFree) := by
  have free (k : Fin dirEntries) : (slots k).isNone = (d.slots.get k).isFree := by
    rw [← Directory.isNone_names, ← same, names, Option.isNone_map]
  refine Option.ext fun k => ?_
  rw [free?, ← Fin.find?_eq_find?_finRange, Fin.find?_eq_some_iff, Directory.findFinIdx?_eq_some]
  simp only [free]

end Slots

/-- Two results of which one is told in terms of the other's are both refusals or both not. -/
theorem map_eq_map {ε α β γ : Type} {x : Except ε α} {y : Except ε β} {f : α → γ} {g : β → γ}
    (same : x.map f = y.map g) :
    (∃ e, x = .error e ∧ y = .error e) ∨ ∃ a b, x = .ok a ∧ y = .ok b ∧ f a = g b := by
  cases x with
  | error e =>
    cases y with
    | error e' => exact .inl ⟨e, rfl, congrArg Except.error (Except.error.inj same).symm⟩
    | ok b => cases same
  | ok a =>
    cases y with
    | error e' => cases same
    | ok b => exact .inr ⟨a, b, rfl, rfl, Except.ok.inj same⟩

namespace Outline
variable {o o' : Outline} {tree node : Tree} {facts : Facts} {slots slots' : Slots} {path name : String}
  {place segments : List String} {i j : Inode} {now : Int64}

def glance (o : Outline) (i : Inode) : Glance where
  facts := .of i
  names := if i.isDirectory then (o.table i.data).map Directory.names else none

theorem glance_of_file (file : i.isDirectory = false) : o.glance i = ⟨.of i, none⟩ := by
  rw [glance, file]
  rfl

theorem glance_of_table {d : Directory} (is : i.isDirectory = true) (table : o.table i.data = some d) :
    o.glance i = ⟨.of i, some d.names⟩ := by
  rw [glance, if_pos is, table, Option.map_some]

theorem glance_congr (table : i.isDirectory = true → o'.table i.data = o.table i.data) : o'.glance i = o.glance i := by
  cases is : i.isDirectory with
  | false => rw [glance_of_file is, glance_of_file is]
  | true => rw [glance, glance, table is]

namespace Sound

/-- What a stored entry and a node that shows the same have in common. -/
theorem glance_eq_file (h : o.Sound) (stored : o.inode i.self = some i) (same : o.glance i = (Tree.file facts).glance) :
    i.isDirectory = false ∧ facts = .of i := by
  cases is : i.isDirectory with
  | false =>
    rw [glance_of_file is] at same
    cases same
    exact ⟨rfl, rfl⟩
  | true =>
    obtain ⟨d, table⟩ := h.directory _ _ stored is
    rw [glance_of_table is table] at same
    cases same

theorem glance_eq_directory (h : o.Sound) (stored : o.inode i.self = some i)
    (same : o.glance i = (Tree.directory facts slots).glance) :
    i.isDirectory = true ∧ facts = .of i ∧ ∃ d, o.table i.data = some d ∧ slots.names = d.names := by
  cases is : i.isDirectory with
  | false =>
    rw [glance_of_file is] at same
    cases same
  | true =>
    obtain ⟨d, table⟩ := h.directory _ _ stored is
    rw [glance_of_table is table] at same
    obtain ⟨rfl, names⟩ := Glance.mk.inj same
    exact ⟨rfl, rfl, d, table, (Option.some.inj names).symm⟩

end Sound

/-- The same segments lead to entries that show the same, or to the same refusal. -/
def Matches (o : Outline) (tree : Tree) : Prop :=
  ∀ path segments, (o.walk path segments).map o.glance = (tree.walk path segments).map Tree.glance

namespace Matches
variable (m : o.Matches tree)
include m

/-- It is enough to look at the place that changed. -/
theorem put {new : Tree} (found : tree.walk path place = .ok node)
    (inside : ∀ path rest, (o'.walk path (place ++ rest)).map o'.glance = (new.walk path rest).map Tree.glance)
    (outside : ∀ path segments, ¬ place <+: segments →
      (o'.walk path segments).map o'.glance = (o.walk path segments).map o.glance) : o'.Matches (tree.set place new) := by
  intro path segments
  by_cases through : place <+: segments
  · obtain ⟨rest, rfl⟩ := through
    rw [Tree.walk_set_self (Tree.walk_congr_path path found), inside]
  · rw [Tree.walk_set_of_not_prefix through, outside _ _ through, m]

/-- One entry shows other facts. -/
theorem withFacts (found : tree.walk path place = .ok node) (here : ∀ path, o'.walk path place = .ok j)
    (shown : o'.glance j = (node.withFacts facts).glance)
    (others : ∀ path segments, segments ≠ place →
      (o'.walk path segments).map o'.glance = (o.walk path segments).map o.glance) :
    o'.Matches (tree.set place (node.withFacts facts)) := by
  refine m.put found (fun path rest => ?_) fun path segments apart =>
    others path segments fun same => apart (same ▸ List.prefix_rfl)
  cases rest with
  | nil =>
    rw [List.append_nil, here]
    exact congrArg Except.ok shown
  | cons name rest =>
    have past : place ++ name :: rest ≠ place := fun same => by simp at same
    rw [others _ _ past, m, Tree.walk_append (Tree.walk_congr_path path found)]
    cases node <;> rfl

/-- One directory has another entry under one name. -/
theorem refill (found : tree.walk path place = .ok (.directory facts slots)) (here : ∀ path, o'.walk path place = .ok j)
    {facts' : Facts} (shown : o'.glance j = (Tree.directory facts' slots').glance)
    (same : ∀ x, x ≠ name → slots'.find? x = slots.find? x)
    (behind : ∀ path rest, (o'.walk path (place ++ name :: rest)).map o'.glance =
      ((Tree.directory facts' slots').walk path (name :: rest)).map Tree.glance)
    (others : ∀ path segments, segments ≠ place → ¬ place ++ [name] <+: segments →
      (o'.walk path segments).map o'.glance = (o.walk path segments).map o.glance) :
    o'.Matches (tree.set place (.directory facts' slots')) := by
  refine m.put found (fun path rest => ?_) fun path segments apart => others path segments
    (fun same => apart (same ▸ List.prefix_rfl)) fun through => apart ((List.prefix_append ..).trans through)
  cases rest with
  | nil =>
    rw [List.append_nil, here]
    exact congrArg Except.ok shown
  | cons x rest =>
    by_cases changed : x = name
    · rw [changed, behind]
    · have past : place ++ x :: rest ≠ place := fun same => by simp at same
      have apart : ¬ place ++ [name] <+: place ++ x :: rest := by
        rw [List.prefix_append_right_inj, List.cons_prefix_cons]
        exact fun through => changed through.1.symm
      rw [others _ _ past apart, m, Tree.walk_append (Tree.walk_congr_path path found), Tree.walk_cons, Tree.walk_cons,
        same x changed]

end Matches
end Outline
end RecordFs
