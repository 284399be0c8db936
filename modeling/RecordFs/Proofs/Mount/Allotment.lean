import RecordFs.Proofs.Mount.Steps

/-! How a table gives out numbers. Each new number is one above all that were given out before, so
none is given twice, and a path that was taken from its number gets another. -/
namespace RecordFs.Mount.NodeTable

inductive Operation where
  | lookUp (path : String) (kind : EntryKind)
  | mention (path : String) (kind : EntryKind)
  | forget (number count : Nat)
  | invalidate (path : String)
  deriving DecidableEq

/-- A table, and the numbers that it gave out. That of the root is given out from the start. -/
structure History where
  table : NodeTable := {}
  given : List Nat := [rootNumber]

variable {t u : NodeTable} {h : History} {path : String} {number : Nat}

namespace History

def next (h : History) : Operation → History
  | .lookUp path kind => ⟨(h.table.lookUp path kind).2, (h.table.lookUp path kind).1 :: h.given⟩
  | .mention path kind => ⟨(h.table.mention path kind).2, (h.table.mention path kind).1 :: h.given⟩
  | .forget number count => { h with table := (h.table.forget number count).2 }
  | .invalidate path => { h with table := h.table.invalidate path }

def run (h : History) (operations : List Operation) : History := operations.foldl next h

theorem step_next (operation : Operation) : h.table.Step (h.next operation).table := by
  cases operation with
  | lookUp path kind => exact h.table.step_lookUp path kind
  | mention path kind => exact h.table.step_mention path kind
  | forget number count => exact h.table.step_forget number count
  | invalidate path => exact h.table.step_invalidate path

/-- The next number is one above the last that was given out. -/
structure Tracked (h : History) : Prop where
  sound : h.table.Sound
  before : ∀ number ∈ h.given, number < h.table.next
  last : ∃ number ∈ h.given, h.table.next = number + 1

theorem tracked_new : Tracked {} where
  sound := sound_new
  before _ member := List.mem_singleton.mp member ▸ Nat.lt_succ_self _
  last := ⟨rootNumber, List.mem_singleton.mpr rfl, rfl⟩

namespace Tracked

/-- As long as no number is given out that is new, the last one stays the same. -/
theorem again (tracked : h.Tracked) (sound : u.Sound) (next : u.next = h.table.next) (given : List Nat)
    (known : ∀ number ∈ given, number < h.table.next) : Tracked ⟨u, given ++ h.given⟩ := by
  refine ⟨sound, ?_, ?_⟩
  · intro number member
    rw [next]
    exact (List.mem_append.mp member).elim (known number) (tracked.before number)
  · obtain ⟨number, member, last⟩ := tracked.last
    exact ⟨number, List.mem_append_right given member, next.trans last⟩

theorem adds (tracked : h.Tracked) (node : Node) (sound : (h.table.add node).2.Sound) :
    Tracked ⟨(h.table.add node).2, h.table.next :: h.given⟩ := by
  refine ⟨sound, ?_, h.table.next, List.mem_cons_self, rfl⟩
  intro number member
  change number < h.table.next + 1
  rcases List.mem_cons.mp member with rfl | member
  · exact Nat.lt_succ_self _
  · exact Nat.lt_succ_of_lt (tracked.before number member)

theorem next (tracked : h.Tracked) (operation : Operation) : (h.next operation).Tracked := by
  have sound := tracked.sound.step (h.step_next operation)
  cases operation with
  | lookUp path kind =>
    simp only [History.next] at sound ⊢
    cases known : h.table.number? path with
    | none =>
      rw [lookUp_of_new kind known] at sound ⊢
      exact tracked.adds _ sound
    | some number =>
      rw [lookUp_of_known kind known] at sound ⊢
      exact tracked.again sound rfl [number] (by simpa using tracked.sound.mapped_before known)
  | mention path kind =>
    simp only [History.next] at sound ⊢
    cases known : h.table.number? path with
    | none =>
      rw [mention_of_new kind known] at sound ⊢
      exact tracked.adds _ sound
    | some number =>
      rw [mention_of_known kind known] at sound ⊢
      exact tracked.again sound rfl [number] (by simpa using tracked.sound.mapped_before known)
  | forget number count => exact tracked.again sound (next_forget _ _ _) [] (by simp)
  | invalidate path => exact tracked.again sound (next_invalidate _ _) [] (by simp)

theorem run (tracked : h.Tracked) (operations : List Operation) : (h.run operations).Tracked := by
  induction operations generalizing h with
  | nil => exact tracked
  | cons operation rest ih => exact ih (tracked.next operation)

theorem descends (tracked : h.Tracked) (operations : List Operation) : h.table.Descends (h.run operations).table := by
  induction operations generalizing h with
  | nil => exact .refl _
  | cons operation rest ih => exact ((h.step_next operation).descends tracked.sound).trans (ih (tracked.next operation))

end Tracked
end History

/-- What a table keeps to, whatever was asked of it and whatever will be. -/
structure AllotmentLaws (h : History) : Prop where
  /-- The number of a path is that of an entry with this path. -/
  mapped : ∀ path number, h.table.number? path = some number → ∃ node, h.table.node? number = some node ∧ node.path = path
  injective : ∀ path other number, h.table.number? path = some number → h.table.number? other = some number → path = other
  root : h.table.number? rootPath = some rootNumber ∧ h.table.path? rootNumber = some rootPath
  /-- An entry keeps its path and its kind as long as it is in the table. -/
  kept : ∀ number node, h.table.node? number = some node → ∀ later now, (h.run later).table.node? number = some now →
    now.path = node.path ∧ now.kind = node.kind
  known : ∀ path kind number, h.table.number? path = some number →
    (h.table.lookUp path kind).1 = number ∧ (h.table.mention path kind).1 = number
  /-- A path without a number gets the one above all that were ever given out. -/
  new : ∀ path kind, h.table.number? path = none → ∃ last ∈ h.given, (∀ number ∈ h.given, number ≤ last) ∧
    (h.table.lookUp path kind).1 = last + 1 ∧ (h.table.mention path kind).1 = last + 1
  maps : ∀ path kind, (h.table.lookUp path kind).2.number? path = some (h.table.lookUp path kind).1 ∧
    (h.table.mention path kind).2.number? path = some (h.table.mention path kind).1
  /-- A number that has left the table does not come back. -/
  gone : ∀ number ∈ h.given, h.table.node? number = none → ∀ later, (h.run later).table.node? number = none
  /-- A path that was taken from its number gets another, which it keeps when the old one is forgotten. -/
  remade : ∀ path old, path ≠ rootPath → h.table.number? path = some old → ∀ later new,
    ((h.next (.invalidate path)).run later).table.number? path = some new →
      new ≠ old ∧ ∀ count, (((h.next (.invalidate path)).run later).table.forget old count).2.number? path = some new

namespace History.Tracked
variable (tracked : h.Tracked)
include tracked

theorem new_eq_last : ∃ last ∈ h.given, (∀ number ∈ h.given, number ≤ last) ∧ h.table.next = last + 1 := by
  obtain ⟨last, member, next⟩ := tracked.last
  refine ⟨last, member, ?_, next⟩
  intro number given
  have before := tracked.before number given
  rw [next] at before
  exact Nat.le_of_lt_succ before

theorem remade {old : Nat} (other : path ≠ rootPath) (found : h.table.number? path = some old) (later : List Operation)
    {new : Nat} (again : ((h.next (.invalidate path)).run later).table.number? path = some new) : new ≠ old := by
  have early : old < h.table.next := tracked.sound.mapped_before found
  have since := ((tracked.next (.invalidate path)).descends later).number path new again
  have gone : (h.table.invalidate path).number? path = none := h.table.number?_invalidate other
  have late : h.table.next ≤ new := by
    rcases since with still | late
    · exact absurd (gone.symm.trans still) nofun
    · exact h.table.next_invalidate path ▸ late
  exact Nat.ne_of_gt (Nat.lt_of_lt_of_le early late)

end History.Tracked

/-- The laws hold after every list of operations on a new table. -/
theorem allotmentLaws (operations : List Operation) : AllotmentLaws (History.run {} operations) := by
  have tracked := History.tracked_new.run operations
  generalize History.run {} operations = h at tracked
  have sound := tracked.sound
  constructor
  case mapped => exact fun path number found => sound.of_number? found
  case injective =>
    intro path other number found found'
    exact Option.some.inj ((sound.proper.path?_of_number? found).symm.trans (sound.proper.path?_of_number? found'))
  case root => exact ⟨sound.root, sound.proper.path?_of_number? sound.root⟩
  case kept =>
    intro number node found later now present
    obtain ⟨before, known, path, kind⟩ := (tracked.descends later).node number (sound.before found) now present
    rw [found] at known
    cases known
    exact ⟨path, kind⟩
  case known =>
    intro path kind number found
    rw [lookUp_of_known kind found, mention_of_known kind found]
    exact ⟨rfl, rfl⟩
  case new =>
    intro path kind found
    obtain ⟨last, member, above, next⟩ := tracked.new_eq_last
    rw [lookUp_of_new kind found, mention_of_new kind found]
    exact ⟨last, member, above, next, next⟩
  case maps =>
    intro path kind
    cases found : h.table.number? path with
    | none =>
      rw [lookUp_of_new kind found, mention_of_new kind found, number?_add, number?_add]
      exact ⟨if_pos rfl, if_pos rfl⟩
    | some number =>
      rw [lookUp_of_known kind found, mention_of_known kind found]
      exact ⟨found, found⟩
  case gone =>
    intro number given left later
    cases present : (h.run later).table.node? number with
    | none => rfl
    | some now =>
      obtain ⟨before, known, -⟩ := (tracked.descends later).node number (tracked.before number given) now present
      exact absurd (left.symm.trans known) nofun
  case remade =>
    intro path old other found later new again
    have differs := tracked.remade other found later again
    refine ⟨differs, fun count => ?_⟩
    rw [number?_forget ((tracked.next _).run later).sound.distinct, again]
    exact again ▸ fun same => differs (Option.some.inj same)

/-- The path of the root is not taken from its number, so it does not get another. -/
theorem not_remade_root : ¬ ∀ (operations : List Operation) (path : String) (old : Nat) (kind : EntryKind),
    (History.run {} operations).table.number? path = some old →
      (((History.run {} operations).next (.invalidate path)).table.lookUp path kind).1 ≠ old :=
  fun remade => remade [] rootPath rootNumber .directory rfl (by decide)

end RecordFs.Mount.NodeTable
