import Mathlib.Data.List.Nodup
import Mathlib.Data.Set.Card
import RecordFs.Proofs.Record.Kinds
import RecordFs.Proofs.Record.Table

/-! A table in use. Entries are looked up, put in and taken out, and the table may be written out and read
back in between. It stays a map from names to children that is told by what was put in last, and every entry
stays in its slot until it is taken out. -/
namespace RecordFs.Directory
open Stored

/-- What is done with a table. -/
inductive Use where
  | find (name : String)
  | insert (name : String) (child : Id)
  | remove (name : String)
  /-- The table is written out and read back. -/
  | reread
  deriving DecidableEq, Repr

/-- What is told of it. -/
inductive Told where
  | child (child : Option Id)
  | slot (filled : Option (Fin dirEntries))
  | nothing
  deriving DecidableEq, Repr

def use (dir : Directory) : Use → Except Malformed (Told × Directory)
  | .find name => .ok (.child (dir.find? name), dir)
  | .insert name child =>
    match dir.insert? name child with
    | some (k, dir) => .ok (.slot (some k), dir)
    | none => .ok (.slot none, dir)
  | .remove name =>
    match dir.remove? name with
    | some (child, dir) => .ok (.child (some child), dir)
    | none => .ok (.child none, dir)
  | .reread => (Stored.read Directory (encode dir)).map fun dir => (.nothing, dir)

/-- Uses with what was told of each. -/
abbrev Log := List (Use × Told)

def useAll (dir : Directory) : List Use → Except Malformed (Log × Directory)
  | [] => .ok ([], dir)
  | use :: rest => do
    let (told, dir) ← dir.use use
    let (log, dir) ← dir.useAll rest
    return ((use, told) :: log, dir)

/-- What is seen to before a use: a name is new when it is put in, and all names fit when the table is written. -/
def Admits (dir : Directory) : Use → Prop
  | .insert name _ => name ≠ "" ∧ dir.find? name = none
  | .reread => dir.Fits
  | .find _ | .remove _ => True

def Admitted (dir : Directory) : List Use → Prop
  | [] => True
  | use :: rest => dir.Admits use ∧ ∀ told dir', dir.use use = .ok (told, dir') → dir'.Admitted rest

/-- A name is touched when a child is put in under it and when it is taken out. -/
inductive Touches (name : String) : Use × Told → Prop where
  | inserted (child : Id) (k : Fin dirEntries) : Touches name (.insert name child, .slot (some k))
  | removed (told : Told) : Touches name (.remove name, told)

def Untouched (name : String) (log : Log) : Prop := ∀ e ∈ log, ¬ Touches name e

/-- A name is told of when it is looked up and when it is taken out. -/
inductive Tells (name : String) (found : Option Id) : Use × Told → Prop where
  | find : Tells name found (.find name, .child found)
  | remove : Tells name found (.remove name, .child found)

/-- The child was put in last under this name, or was there from the start, and has not been taken out. -/
def Entered (dir : Directory) (log : Log) (name : String) (child : Id) : Prop :=
  (∃ before k after, log = before ++ (.insert name child, .slot (some k)) :: after ∧ Untouched name after) ∨
    ∃ k : Fin dirEntries, dir.slots.get k = ⟨name, child⟩ ∧ name ≠ "" ∧ Untouched name log

/-- All that a use can come to. -/
inductive Step (dir : Directory) : Use × Told → Directory → Prop where
  | found (name : String) : Step dir (.find name, .child (dir.find? name)) dir
  | full (taken : ∀ k : Fin dirEntries, (dir.slots.get k).isFree = false) (name : String) (child : Id) :
      Step dir (.insert name child, .slot none) dir
  | reread : Step dir (.reread, .nothing) dir
  | filled {name : String} {k : Fin dirEntries} (nonempty : name ≠ "") (new : dir.find? name = none)
      (free : (dir.slots.get k).isFree = true) (first : ∀ j < k, (dir.slots.get j).isFree = false) (child : Id) :
      Step dir (.insert name child, .slot (some k)) (dir.put k ⟨name, child⟩)
  | missed {name : String} (lost : dir.find? name = none) : Step dir (.remove name, .child none) dir
  | freed {k : Fin dirEntries} (used : (dir.slots.get k).isFree = false) :
      Step dir (.remove (dir.slots.get k).name, .child (some (dir.slots.get k).child)) (dir.put k {})

variable {dir dir₁ dir₂ dir' : Directory} {log before after : Log} {e x : Use × Told} {name : String} {child : Id}
  {k : Fin dirEntries} {use : Use} {told : Told} {uses : List Use}

theorem step_of_use (dir : Directory) (use : Use) (admits : dir.Admits use) :
    ∃ told dir', dir.use use = .ok (told, dir') ∧ dir.Step (use, told) dir' := by
  cases use with
  | find name => exact ⟨_, _, rfl, .found name⟩
  | insert name child =>
    rw [Directory.use]
    cases filled : dir.insert? name child with
    | none => exact ⟨_, _, rfl, .full (insert?_eq_none.mp filled) name child⟩
    | some out =>
      obtain ⟨k, dir'⟩ := out
      obtain ⟨free, first, rfl⟩ := insert?_eq_some.mp filled
      exact ⟨_, _, rfl, .filled admits.1 admits.2 free first child⟩
  | remove name =>
    rw [Directory.use]
    cases freed : dir.remove? name with
    | none => exact ⟨_, _, rfl, .missed (remove?_eq_none_iff.mp freed)⟩
    | some out =>
      obtain ⟨child, dir'⟩ := out
      obtain ⟨k, used, rfl, rfl, rfl⟩ := remove?_eq_some freed
      exact ⟨_, _, rfl, .freed used⟩
  | reread => exact ⟨_, _, congrArg (Except.map _) (readsBack admits), .reread⟩

theorem untouched_snoc : Untouched name (log ++ [e]) ↔ Untouched name log ∧ ¬ Touches name e := by
  rw [Untouched, List.forall_mem_append, List.forall_mem_singleton, Untouched]

/-- What is in a log was there before its last use or is that use. -/
theorem snoc_eq_append_cons (cut : log ++ [e] = before ++ x :: after) :
    (before = log ∧ e = x) ∨ ∃ middle, after = middle ++ [e] ∧ log = before ++ x :: middle := by
  rcases List.eq_nil_or_concat after with rfl | ⟨middle, last, rfl⟩
  · obtain ⟨rfl, same⟩ := List.append_inj' cut rfl
    exact .inl ⟨rfl, List.singleton_inj.mp same⟩
  · rw [List.concat_eq_append] at cut ⊢
    rw [← List.cons_append, ← List.append_assoc] at cut
    obtain ⟨rfl, same⟩ := List.append_inj' cut rfl
    obtain rfl := List.singleton_inj.mp same
    exact .inr ⟨middle, rfl, rfl⟩

/-- Nothing changes under a name that is not touched. -/
theorem entered_of_not_touches (other : ¬ Touches name e) : dir.Entered (log ++ [e]) name child ↔ dir.Entered log name child := by
  constructor
  · rintro (⟨before, k, after, cut, untouched⟩ | ⟨k, there, nonempty, untouched⟩)
    · rcases snoc_eq_append_cons cut with ⟨_, rfl⟩ | ⟨middle, rfl, rfl⟩
      · exact absurd (.inserted child k) other
      · exact .inl ⟨before, k, middle, rfl, (untouched_snoc.mp untouched).1⟩
    · exact .inr ⟨k, there, nonempty, (untouched_snoc.mp untouched).1⟩
  · rintro (⟨before, k, after, rfl, untouched⟩ | ⟨k, there, nonempty, untouched⟩)
    · exact .inl ⟨before, k, after ++ [e], by rw [List.append_assoc, List.cons_append], untouched_snoc.mpr ⟨untouched, other⟩⟩
    · exact .inr ⟨k, there, nonempty, untouched_snoc.mpr ⟨untouched, other⟩⟩

/-- Under a name that is touched stands what the use has put in, if it has. -/
theorem entered_of_touches (touches : Touches name e) :
    dir.Entered (log ++ [e]) name child ↔ ∃ k, e = (.insert name child, .slot (some k)) := by
  constructor
  · rintro (⟨before, k, after, cut, untouched⟩ | ⟨k, there, nonempty, untouched⟩)
    · rcases snoc_eq_append_cons cut with ⟨_, rfl⟩ | ⟨middle, rfl, _⟩
      · exact ⟨k, rfl⟩
      · exact absurd touches (untouched_snoc.mp untouched).2
    · exact absurd touches (untouched_snoc.mp untouched).2
  · rintro ⟨k, rfl⟩
    exact .inl ⟨log, k, [], rfl, fun _ member => nomatch member⟩

/-- What was there from the start. -/
theorem Distinct.find?_eq_some_iff_entered (h : dir.Distinct) : dir.find? name = some child ↔ dir.Entered [] name child := by
  rw [h.find?_eq_some]
  constructor
  · rintro ⟨k, used, rfl, rfl⟩
    exact .inr ⟨k, rfl, isFree_eq_false_iff.mp used, fun _ member => nomatch member⟩
  · rintro (⟨before, k, after, cut, _⟩ | ⟨k, there, nonempty, _⟩)
    · exact absurd cut (by simp)
    · have used : (dir.slots.get k).isFree = false := by
        rw [there]
        exact isFree_eq_false_iff.mpr nonempty
      exact ⟨k, used, by rw [there], by rw [there]⟩

/-- The entries in the slots, as far as they are looked at. -/
theorem filter_occupied (dir : Directory) (p : Slot → Bool) :
    dir.occupied.filter p = (List.finRange dirEntries).filterMap fun k =>
      (if (dir.slots.get k).isFree then none else some (dir.slots.get k)).filter p := by
  rw [occupied_eq, List.filter_filterMap]

/-- A slot that held and holds none of the entries looked at. -/
theorem filter_occupied_put {p : Slot → Bool} {slot : Slot} (old : (dir.slots.get k).isFree = false → p (dir.slots.get k) = false)
    (new : slot.isFree = false → p slot = false) : (dir.put k slot).occupied.filter p = dir.occupied.filter p := by
  have passed {s : Slot} (left : s.isFree = false → p s = false) : (if s.isFree then none else some s).filter p = none := by
    cases free : s.isFree with
    | true => rfl
    | false => simp [left free]
  rw [filter_occupied, filter_occupied]
  refine List.filterMap_congr fun j _ => ?_
  rw [slots_put]
  split
  · rename_i here
    rw [here, passed old, passed new]
  · rfl

/-- What uses have made of a table, and what they have left of it. -/
structure Traced (dir : Directory) (log : Log) (dir' : Directory) : Prop where
  distinct : dir'.Distinct
  /-- Found is what was put in last under a name and has not been taken out. -/
  find : ∀ name child, dir'.find? name = some child ↔ dir.Entered log name child
  /-- The same was told whenever a name was looked up or taken out. -/
  told : ∀ {before e after name found}, log = before ++ e :: after → Tells name found e →
    ∀ child, found = some child ↔ dir.Entered before name child
  /-- An entry that is not touched stays in its slot. -/
  kept : ∀ k : Fin dirEntries, (dir.slots.get k).isFree = false → Untouched (dir.slots.get k).name log →
    dir'.slots.get k = dir.slots.get k
  /-- Entries of names that are not touched are listed in the same order. -/
  order : ∀ p : String → Bool, (∀ name, p name = true → Untouched name log) →
    dir'.occupied.filter (p ·.name) = dir.occupied.filter (p ·.name)

theorem Distinct.traced (h : dir.Distinct) : dir.Traced [] dir where
  distinct := h
  find _ _ := h.find?_eq_some_iff_entered
  told cut := absurd cut (by simp)
  kept _ _ _ := rfl
  order _ _ := rfl

namespace Traced
variable (h : dir.Traced log dir₁)
include h

/-- What is told of a name is what is found under it. -/
theorem told_snoc (last : ∀ {name found}, Tells name found e → found = dir₁.find? name) {name : String} {found : Option Id}
    (cut : log ++ [e] = before ++ x :: after) (tells : Tells name found x) :
    ∀ child, found = some child ↔ dir.Entered before name child := by
  rcases snoc_eq_append_cons cut with ⟨rfl, rfl⟩ | ⟨middle, _, rfl⟩
  · rw [last tells]
    exact h.find name
  · exact h.told rfl tells

/-- A use that changes nothing. -/
theorem same (last : ∀ {name found}, Tells name found e → found = dir₁.find? name)
    (find : ∀ name child, dir.Entered (log ++ [e]) name child ↔ dir.Entered log name child) : dir.Traced (log ++ [e]) dir₁ where
  distinct := h.distinct
  find name child := (h.find name child).trans (find name child).symm
  told := h.told_snoc last
  kept k used left := h.kept k used (untouched_snoc.mp left).1
  order p all := h.order p fun name chosen => (untouched_snoc.mp (all name chosen)).1

theorem missed (lost : dir₁.find? name = none) : dir.Traced (log ++ [(.remove name, .child none)]) dir₁ := by
  refine h.same (fun tells => ?_) fun x child => ?_
  · cases tells
    exact lost.symm
  · by_cases here : x = name
    · subst here
      rw [entered_of_touches (.removed _), ← h.find, lost]
      exact iff_of_false (fun ⟨_, inserted⟩ => nomatch inserted) nofun
    · rw [entered_of_not_touches]
      rintro ⟨⟩
      exact here rfl

theorem filled (nonempty : name ≠ "") (new : dir₁.find? name = none) (free : (dir₁.slots.get k).isFree = true) (child : Id) :
    dir.Traced (log ++ [(.insert name child, .slot (some k))]) (dir₁.put k ⟨name, child⟩) where
  distinct := h.distinct.insert k nonempty new child
  find x found := by
    have distinct := h.distinct.insert k nonempty new child
    by_cases here : x = name
    · subst here
      have stored := distinct.find?_put_self ⟨x, child⟩ (isFree_eq_false_iff.mpr nonempty)
      rw [entered_of_touches (.inserted child k), stored]
      constructor
      · rintro ⟨⟩
        exact ⟨k, rfl⟩
      · rintro ⟨_, ⟨⟩⟩
        rfl
    · rw [h.distinct.find?_put_of_ne distinct (fun used => nomatch free.symm.trans used) fun _ same => here same.symm, h.find,
        entered_of_not_touches]
      rintro ⟨⟩
      exact here rfl
  told := h.told_snoc fun tells => by cases tells
  kept j used left := by
    have same := h.kept j used (untouched_snoc.mp left).1
    rw [slots_put, if_neg, same]
    -- The slot that is filled was free, so it holds no entry from the start.
    rintro rfl
    rw [same, used] at free
    cases free
  order p all := by
    have passed : p name = false :=
      Bool.eq_false_iff.mpr fun chosen => (untouched_snoc.mp (all name chosen)).2 (.inserted child k)
    rw [filter_occupied_put (fun used => nomatch free.symm.trans used) fun _ => passed]
    exact h.order p fun name chosen => (untouched_snoc.mp (all name chosen)).1

theorem freed (used : (dir₁.slots.get k).isFree = false) :
    dir.Traced (log ++ [(.remove (dir₁.slots.get k).name, .child (some (dir₁.slots.get k).child))]) (dir₁.put k {}) where
  distinct := h.distinct.remove k
  find x found := by
    by_cases here : x = (dir₁.slots.get k).name
    · subst here
      rw [entered_of_touches (.removed _), h.distinct.find?_put_empty used]
      exact iff_of_false nofun fun ⟨_, inserted⟩ => nomatch inserted
    · rw [h.distinct.find?_put_of_ne (h.distinct.remove k) (fun _ same => here same.symm) nofun, h.find, entered_of_not_touches]
      rintro ⟨⟩
      exact here rfl
  told := h.told_snoc fun tells => by
    cases tells
    exact (h.distinct.find?_of_slot used).symm
  kept j used left := by
    obtain ⟨before, apart⟩ := untouched_snoc.mp left
    have same := h.kept j used before
    rw [slots_put, if_neg, same]
    rintro rfl
    rw [same] at apart
    exact apart (.removed _)
  order p all := by
    have passed : p (dir₁.slots.get k).name = false :=
      Bool.eq_false_iff.mpr fun chosen => (untouched_snoc.mp (all _ chosen)).2 (.removed _)
    rw [filter_occupied_put (fun _ => passed) fun used => nomatch isFree_default.symm.trans used]
    exact h.order p fun name chosen => (untouched_snoc.mp (all name chosen)).1

theorem step (step : dir₁.Step e dir₂) : dir.Traced (log ++ [e]) dir₂ := by
  cases step with
  | found name =>
    refine h.same (fun tells => ?_) fun _ _ => entered_of_not_touches nofun
    cases tells
    rfl
  | full => exact h.same nofun fun _ _ => entered_of_not_touches nofun
  | reread => exact h.same nofun fun _ _ => entered_of_not_touches nofun
  | filled nonempty new free _ child => exact h.filled nonempty new free child
  | missed lost => exact h.missed lost
  | freed used => exact h.freed used

end Traced

theorem useAll_cons (used : dir.use use = .ok (told, dir₁)) (rest : List Use) :
    dir.useAll (use :: rest) = (dir₁.useAll rest).map fun out => ((use, told) :: out.1, out.2) := by
  rw [useAll, used]
  change (dir₁.useAll rest >>= _) = _
  cases dir₁.useAll rest <;> rfl

/-- Every use is told of, and what came before goes on. -/
theorem Traced.useAll (h : dir.Traced before dir₁) (admitted : dir₁.Admitted uses) :
    ∃ log dir₂, dir₁.useAll uses = .ok (log, dir₂) ∧ log.map Prod.fst = uses ∧ dir.Traced (before ++ log) dir₂ := by
  induction uses generalizing before dir₁ with
  | nil => exact ⟨[], dir₁, rfl, rfl, (List.append_nil before).symm ▸ h⟩
  | cons use rest ih =>
    obtain ⟨admits, later⟩ := admitted
    obtain ⟨told, dir₂, used, step⟩ := step_of_use _ use admits
    obtain ⟨log, dir₃, ran, uses, traced⟩ := ih (h.step step) (later told dir₂ used)
    refine ⟨(use, told) :: log, dir₃, ?_, congrArg (use :: ·) uses, ?_⟩
    · rw [useAll_cons used, ran]
      rfl
    · rwa [List.append_assoc] at traced

/-- Writing a table out and reading it back changes nothing that is told later. -/
theorem useAll_filter (admitted : dir.Admitted uses) (ran : dir.useAll uses = .ok (log, dir')) :
    dir.useAll (uses.filter (· ≠ .reread)) = .ok (log.filter (·.1 ≠ .reread), dir') := by
  induction uses generalizing dir log with
  | nil =>
    cases ran
    rfl
  | cons use rest ih =>
    obtain ⟨admits, later⟩ := admitted
    obtain ⟨told, dir₁, used, step⟩ := step_of_use _ use admits
    rw [useAll_cons used] at ran
    cases ran_rest : dir₁.useAll rest with
    | error e =>
      rw [ran_rest] at ran
      cases ran
    | ok out =>
      rw [ran_rest] at ran
      cases ran
      have rest := ih (later told dir₁ used) ran_rest
      by_cases again : use = .reread
      · subst again
        cases step
        simpa using rest
      · rw [List.filter_cons_of_pos (by simpa using again), List.filter_cons_of_pos (by simpa using again), useAll_cons used,
          rest]
        rfl

section distinct
variable (h : dir.Distinct)
include h

theorem Distinct.mem_occupied_iff {slot : Slot} :
    slot ∈ dir.occupied ↔ slot.name ≠ "" ∧ dir.find? slot.name = some slot.child := by
  rw [mem_occupied, h.find?_eq_some]
  constructor
  · rintro ⟨k, rfl, used⟩
    exact ⟨isFree_eq_false_iff.mp used, k, used, rfl, rfl⟩
  · rintro ⟨nonempty, k, used, named, there⟩
    obtain ⟨name, child⟩ := slot
    subst named there
    exact ⟨k, rfl, used⟩

theorem Distinct.nodup_names : (dir.occupied.map (·.name)).Nodup := by
  rw [map_name_occupied]
  refine List.Nodup.filterMap ?_ (List.nodup_finRange _)
  intro j k name here there
  obtain ⟨used, named⟩ := names_eq_some.mp here
  exact h j k used (named.trans (names_eq_some.mp there).2.symm)

theorem Distinct.count_eq_ncard : dir.count = {name | (dir.find? name).isSome}.ncard := by
  have found : {name | (dir.find? name).isSome} = ((dir.occupied.map (·.name)).toFinset : Set String) := by
    ext name
    rw [Set.mem_ofPred_eq, Option.isSome_iff_exists, List.coe_toFinset, Set.mem_ofPred_eq, List.mem_map]
    constructor
    · rintro ⟨child, found⟩
      obtain ⟨k, used, named, there⟩ := exists_of_find? found
      exact ⟨dir.slots.get k, mem_occupied.mpr ⟨k, rfl, used⟩, named⟩
    · rintro ⟨slot, member, rfl⟩
      exact ⟨slot.child, (h.mem_occupied_iff.mp member).2⟩
  rw [found, Set.ncard_coe_finset, List.toFinset_card_of_nodup h.nodup_names, List.length_map, count]

theorem Distinct.isEmpty_iff_find? : dir.isEmpty = true ↔ ∀ name, dir.find? name = none := by
  refine ⟨find?_of_isEmpty, fun lost => isEmpty_iff.mpr fun k => ?_⟩
  cases free : (dir.slots.get k).isFree with
  | true => rfl
  | false => exact nomatch (h.find?_of_slot free).symm.trans (lost _)

end distinct

/-- What holds of a table in use. -/
structure TableLaws (dir : Directory) (log : Log) (dir' : Directory) : Prop extends dir.Traced log dir' where
  /-- The first free slot is filled, and no other slot changes. -/
  insert (name : String) (child : Id) (k : Fin dirEntries) (next : Directory) : dir'.insert? name child = some (k, next) ↔
    (dir'.slots.get k).isFree = true ∧ (∀ j < k, (dir'.slots.get j).isFree = false) ∧ next = dir'.put k ⟨name, child⟩
  full (name : String) (child : Id) : dir'.insert? name child = none ↔ ∀ k : Fin dirEntries, (dir'.slots.get k).isFree = false
  remove (name : String) : (dir'.remove? name).map (·.1) = dir'.find? name
  /-- The slot of the name is freed, its child is forgotten, and no other slot changes. -/
  removed (name : String) (child : Id) (next : Directory) : dir'.remove? name = some (child, next) →
    ∃ k : Fin dirEntries, dir'.slots.get k = ⟨name, child⟩ ∧ next = dir'.put k {}
  /-- The slots that are not free are what is found. -/
  occupied (slot : Slot) : slot ∈ dir'.occupied ↔ slot.name ≠ "" ∧ dir'.find? slot.name = some slot.child
  unique : (dir'.occupied.map (·.name)).Nodup
  count : dir'.count = {name | (dir'.find? name).isSome}.ncard
  isEmpty : dir'.isEmpty = true ↔ ∀ name, dir'.find? name = none

theorem Traced.tableLaws (h : dir.Traced log dir') : TableLaws dir log dir' where
  toTraced := h
  insert _ _ _ _ := insert?_eq_some
  full _ _ := insert?_eq_none
  remove name := by
    cases freed : dir'.remove? name with
    | none => exact (remove?_eq_none_iff.mp freed).symm
    | some out =>
      obtain ⟨child, next⟩ := out
      obtain ⟨k, used, rfl, rfl, _⟩ := remove?_eq_some freed
      exact (h.distinct.find?_of_slot used).symm
  removed name child next freed := by
    obtain ⟨k, _, rfl, rfl, rfl⟩ := remove?_eq_some freed
    exact ⟨k, rfl, rfl⟩
  occupied _ := h.distinct.mem_occupied_iff
  unique := h.distinct.nodup_names
  count := h.distinct.count_eq_ncard
  isEmpty := h.distinct.isEmpty_iff_find?

/-- A table whose names are distinct stays a map with steady slots in every use that is seen to, and being written
and read back in between changes nothing that is told. -/
theorem Distinct.mapLaws (h : dir.Distinct) (admitted : dir.Admitted uses) : ∃ log dir', dir.useAll uses = .ok (log, dir') ∧
    log.map Prod.fst = uses ∧ dir.useAll (uses.filter (· ≠ .reread)) = .ok (log.filter (·.1 ≠ .reread), dir') ∧
      TableLaws dir log dir' := by
  obtain ⟨log, dir', ran, uses, traced⟩ := h.traced.useAll admitted
  exact ⟨log, dir', ran, uses, useAll_filter admitted ran, traced.tableLaws⟩

/-- An entry may be put in again once it has been taken out. -/
theorem Distinct.admitted_again (h : dir.Distinct) (fits : dir.Fits) (nonempty : name ≠ "") (child : Id) :
    dir.Admitted [.reread, .remove name, .insert name child, .find name] := by
  have lost {told : Told} {dir' : Directory} (removed : dir.use (.remove name) = .ok (told, dir')) :
      dir'.find? name = none := by
    obtain ⟨_, _, same, step⟩ := step_of_use dir (.remove name) trivial
    cases removed.symm.trans same
    cases step with
    | missed lost => exact lost
    | freed used => exact h.find?_put_empty used
  refine ⟨fits, fun told dir₁ reread => ?_⟩
  obtain ⟨_, _, same, step⟩ := step_of_use dir .reread fits
  cases reread.symm.trans same
  cases step
  refine ⟨trivial, fun _ _ removed => ⟨⟨nonempty, lost removed⟩, fun _ _ _ => ?_⟩⟩
  exact ⟨trivial, fun _ _ _ => trivial⟩

theorem distinct_sparseTable : Kind.sparseTable.Distinct := by
  have last (k : Fin dirEntries) (used : (Kind.sparseTable.slots.get k).isFree = false) : k.val = 63 := by
    by_contra other
    have slot : Kind.sparseTable.slots.get k = { child := .ofNat k.val } := (Vector.getElem_ofFn k.isLt).trans (if_neg other)
    rw [slot] at used
    cases used
  intro j k used same
  have named : (Kind.sparseTable.slots.get k).isFree = false := isFree_eq_false_iff.mpr (same ▸ isFree_eq_false_iff.mp used)
  exact Fin.ext ((last j used).trans (last k named).symm)

theorem mapLaws_sparseTable : Kind.sparseTable.Distinct ∧
    Kind.sparseTable.Admitted [.reread, .remove "é", .insert "é" .zero, .find "é"] ∧ ∃ log dir',
      Kind.sparseTable.useAll [.reread, .remove "é", .insert "é" .zero, .find "é"] = .ok (log, dir') ∧
        TableLaws Kind.sparseTable log dir' :=
  have admitted := distinct_sparseTable.admitted_again Kind.sparseTable_fits (by decide) .zero
  have ⟨log, dir', ran, _, _, laws⟩ := Distinct.mapLaws distinct_sparseTable admitted
  ⟨distinct_sparseTable, admitted, log, dir', ran, laws⟩

end RecordFs.Directory
