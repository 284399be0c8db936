import RecordFs.Proofs.Mount.Displaying
import RecordFs.Proofs.Tree.AllOrNothing
import RecordFs.Proofs.Volume.Sequencing
import RecordFs.Shell.Edit

/-! Putting content into a file: what it holds afterwards, and what is left when the content does not fit. -/
namespace RecordFs
open Outline Volume

/-- The bytes of a file after a write. A write of nothing does not lengthen it. -/
def laid (old content : ByteArray) (offset : Nat) : ByteArray := if content.size = 0 then old else splice old content offset

theorem resized_zero (old : ByteArray) : resized old 0 = .empty :=
  ext_byteAt (size_resized old 0) fun i inside => by
    rw [size_resized] at inside
    exact absurd inside (Nat.not_lt_zero i)

theorem eq_empty_of_size {bytes : ByteArray} (none : bytes.size = 0) : bytes = .empty :=
  ext_byteAt none fun i inside => by
    rw [none] at inside
    exact absurd inside (Nat.not_lt_zero i)

/-- Content at the end of a file is added to it. -/
theorem laid_size (old content : ByteArray) : laid old content old.size = old ++ content := by
  rw [laid]
  split
  · rename_i none
    rw [eq_empty_of_size none, ByteArray.append_empty]
  · apply ext_byteAt
    · rw [size_splice, ByteArray.size_append]
      omega
    · intro i inside
      rw [size_splice] at inside
      rw [byteAt_splice, byteAt_append]
      split
      · rw [if_neg (by omega)]
      · rw [if_pos (by omega)]

theorem laid_empty (content : ByteArray) : laid .empty content 0 = content := by
  have appended := laid_size .empty content
  rwa [ByteArray.empty_append] at appended

namespace Shell.Placement

/-- Where the content goes in a file of so many bytes. -/
def start (size : Nat) : Placement → Nat
  | replace => 0
  | append => size
  | .offset position => position.toNat

/-- What a file of these bytes is to hold afterwards. -/
def result (old content : ByteArray) : Placement → ByteArray
  | replace => content
  | append => old ++ content
  | .offset position => laid old content position.toNat

end Shell.Placement

namespace Session
variable {s t u : Session} {now : Int64} {path : String} {content old : ByteArray}

section write
variable {offset : UInt64} {r : Except Failure Nat} (h : s.Reachable) (steady : ¬ s.disk.Faulty)
include h steady

/-- A write is made in full, or refused because there is no file or because the file would become too large. -/
theorem written_or_kept (ran : s.perform (write now path content offset) = (r, t)) (supplied : t.disk.Supplied) :
    Advances path s t ∧
    ((∃ old, s.content path = .ok old ∧ offset.toNat + content.size ≤ maxFileSize ∧ r = .ok content.size ∧
      t.content path = .ok (laid old content offset.toNat)) ∨
    ∃ e, r = .error e ∧ s.Kept t ∧ ∀ old, s.content path = .ok old → maxFileSize < offset.toNat + content.size ∧
      ∃ requested, e = .fileTooLarge requested maxFileSize) := by
  have performed := performs_of_perform now (.write path content offset) Answer.count rfl ran supplied
  refine ⟨performed.advances h steady fun _ named => (Option.some.inj named).symm, ?_⟩
  cases r with
  | error e =>
    refine .inr ⟨e, rfl, (performed.kept_of_error h.sound steady rfl).2, fun old held => ?_⟩
    by_cases fits : offset.toNat + content.size ≤ maxFileSize
    · rcases content_write_fits h.sound held performed fits with ok | ⟨faulty, _⟩
      · cases ok
      · exact absurd faulty steady
    · refine ⟨Nat.not_le.mp fits, ?_⟩
      rcases content_write_beyond h.sound performed (Nat.not_le.mp fits) with refused | ⟨faulty, _⟩
      · exact ⟨_, Except.error.inj refused⟩
      · exact absurd faulty steady
  | ok n =>
    obtain ⟨plan, changes, _, planned, _, _⟩ := (performed.follows h.sound).2.succeeded
    obtain ⟨⟨_, extent⟩, i, found, _⟩ := planWrite_eq_ok planned
    have fits := World.length_le_of_checkExtent extent
    obtain ⟨resolved, file⟩ := resolveFile_eq_ok.mp found
    obtain ⟨view, there⟩ := h.sound.outline.file _ _ (h.sound.outline.resolve_stored resolved) file
    have held := (content_eq_ok h.sound).mpr ⟨i, view, found, there, rfl⟩
    refine .inl ⟨_, held, fits, ?_, ?_⟩
    · rcases content_write_fits h.sound held performed fits with ok | ⟨faulty, _⟩
      · cases ok
        rfl
      · exact absurd faulty steady
    · rw [laid]
      split
      · rename_i none
        rw [content_unwritten h.sound none performed, held]
      · rename_i some
        obtain ⟨_, old, held', after⟩ := content_written h.sound some performed
        cases held.symm.trans held'
        exact after

end write

section empty
variable {r : Except Failure Unit} (h : s.Reachable) (steady : ¬ s.disk.Faulty)
include h steady

/-- A file is emptied, or there is none. -/
theorem emptied_or_kept (ran : s.perform (resize now path 0) = (r, t)) (supplied : t.disk.Supplied) : Advances path s t ∧
    ((∃ old, s.content path = .ok old ∧ r = .ok () ∧ s.Performs now (.resize path 0) (.ok .done) t ∧
      t.content path = .ok .empty) ∨
    ∃ e, r = .error e ∧ s.Kept t ∧ ∀ old, s.content path ≠ .ok old) := by
  have performed := performs_of_perform now (.resize path 0) (fun _ => .done) rfl ran supplied
  refine ⟨performed.advances h steady fun _ named => (Option.some.inj named).symm, ?_⟩
  cases r with
  | error e =>
    refine .inr ⟨e, rfl, (performed.kept_of_error h.sound steady rfl).2, fun old held => ?_⟩
    rcases content_resize_fits h.sound held performed (Nat.zero_le _) with ok | ⟨faulty, _⟩
    · cases ok
    · exact absurd faulty steady
  | ok _ =>
    obtain ⟨old, held, after⟩ := content_resized h.sound performed
    exact .inl ⟨old, held, rfl, performed, after.trans (congrArg Except.ok (resized_zero old))⟩

end empty

/-- What the call leaves when it succeeds on the same records. -/
def Leaves (s : Session) (now : Int64) (call : Call) (t : Session) : Prop :=
  ∃ s₁ a u, s.Kept s₁ ∧ s₁.Reachable ∧ s₁.Performs now call (.ok a) u ∧ u.Unchanged t

/-- What is seen is seen on a store that does not fail. -/
theorem Leaves.of_calm {call : Call} (leaves : s.Leaves now call t.calm) : s.Leaves now call t := by
  obtain ⟨s₁, a, u, kept, reachable, performed, same⟩ := leaves
  exact ⟨s₁, a, u, kept, reachable, performed, same.attributes, same.names, same.entries, same.read⟩

theorem leaves_calm {call : Call} : s.calm.Leaves now call t ↔ s.Leaves now call t := by
  constructor
  · rintro ⟨s₁, a, u, kept, performed⟩
    exact ⟨s₁, a, u, ⟨kept.find, kept.cache⟩, performed⟩
  · rintro ⟨s₁, a, u, kept, performed⟩
    exact ⟨s₁, a, u, ⟨kept.find, kept.cache⟩, performed⟩

theorem Kept.unchanged (kept : s.Kept t) (sound : s.world.Sound) (sound' : t.world.Sound) : s.Unchanged t :=
  .of_unseen sound sound' (kept.outline ▸ .refl _)

end Session

namespace Shell.Author
open Session
variable {author : Author} {s t : Session} {path : String} {content : ByteArray} {placement : Placement}
  {permissions : UInt32} {size : UInt64} {r : Except Failure Nat}

/-- Puts content into a file that is there and has this size. -/
def fill (author : Author) (path : String) (content : ByteArray) (size : UInt64) : Placement → Action Nat
  | .replace => do
    Volume.resize (author.now .resizing) path 0
    Volume.write (author.now .writing) path content 0
  | .append => Volume.write (author.now .writing) path content size
  | .offset offset => Volume.write (author.now .writing) path content offset

theorem place_eq : author.place path content placement permissions = (do
    let found ← author.ensureFile path permissions
    author.fill path content found.size placement) := by
  cases placement <;> rfl

/-- What filling a file comes to, where nothing fails. A file to be replaced is emptied even if the content does not fit. -/
inductive Filled (author : Author) (path : String) (content : ByteArray) (placement : Placement) (s : Session) :
    Except Failure Nat → Session → Prop where
  | placed {old : ByteArray} {t : Session} (held : s.content path = .ok old)
      (fits : placement.start old.size + content.size ≤ maxFileSize)
      (after : t.content path = .ok (placement.result old content)) :
      Filled author path content placement s (.ok content.size) t
  | kept {e : Failure} {t : Session} (kept : s.Kept t)
      (beyond : ∀ old, s.content path = .ok old → placement ≠ .replace ∧
        maxFileSize < placement.start old.size + content.size ∧ ∃ requested, e = .fileTooLarge requested maxFileSize) :
      Filled author path content placement s (.error e) t
  | emptied {requested : Nat} {old : ByteArray} {t u : Session} (replaces : placement = .replace)
      (held : s.content path = .ok old) (beyond : maxFileSize < content.size)
      (emptied : s.Performs (author.now .resizing) (.resize path 0) (.ok .done) u) (kept : u.Kept t) (after : t.content path = .ok .empty) :
      Filled author path content placement s (.error (.fileTooLarge requested maxFileSize)) t

theorem filled_of_fill (h : s.Reachable) (steady : ¬ s.disk.Faulty)
    (sized : ∀ old, s.content path = .ok old → size.toNat = old.size)
    (ran : s.perform (author.fill path content size placement) = (r, t)) (supplied : t.disk.Supplied) :
    Advances path s t ∧ Filled author path content placement s r t := by
  cases placement with
  | append =>
    obtain ⟨advances, ⟨old, held, fits, rfl, after⟩ | ⟨e, rfl, kept, beyond⟩⟩ := written_or_kept h steady ran supplied
    · refine ⟨advances, .placed held ?_ ?_⟩
      · rwa [sized old held] at fits
      · rwa [sized old held, laid_size] at after
    · refine ⟨advances, .kept kept fun old held => ?_⟩
      have beyond := beyond old held
      rw [sized old held] at beyond
      exact ⟨nofun, beyond⟩
  | offset position =>
    obtain ⟨advances, ⟨old, held, fits, rfl, after⟩ | ⟨e, rfl, kept, beyond⟩⟩ := written_or_kept h steady ran supplied
    · exact ⟨advances, .placed held fits after⟩
    · exact ⟨advances, .kept kept fun old held => ⟨nofun, beyond old held⟩⟩
  | replace =>
    -- The file is empty already when the write looks at the length of the content.
    obtain ⟨e, emptying, rfl⟩ | ⟨_, u, emptying, ran⟩ := perform_bind_cases ran
    · obtain ⟨advances, ⟨_, _, failed, _⟩ | ⟨e', same, kept, none⟩⟩ := emptied_or_kept h steady emptying supplied
      · cases failed
      · exact ⟨advances, .kept kept fun old held => absurd held (none old)⟩
    · obtain ⟨first, ⟨old, held, _, performed, bare⟩ | ⟨_, failed, _⟩⟩ :=
        emptied_or_kept h steady emptying (supplied_of_attempt ran supplied)
      · obtain ⟨second, ⟨old', held', fits, rfl, after⟩ | ⟨e, rfl, kept, beyond⟩⟩ :=
          written_or_kept first.reachable first.steady ran supplied
        · cases bare.symm.trans held'
          exact ⟨first.trans second, .placed held fits (after.trans (congrArg Except.ok (laid_empty content)))⟩
        · obtain ⟨exceeds, requested, rfl⟩ := beyond _ bare
          have exceeds : maxFileSize < 0 + content.size := exceeds
          rw [Nat.zero_add] at exceeds
          have after := (kept.content_eq first.reachable.sound second.reachable.sound path).trans bare
          exact ⟨first.trans second, .emptied rfl held exceeds performed kept after⟩
      · cases failed

/-- What making sure of a file comes to, where nothing fails. -/
inductive Ensured (author : Author) (path : String) (permissions : UInt32) (s : Session) :
    Except Failure Volume.Attributes → Session → Prop where
  | there {a : Volume.Attributes} {t : Session} (kept : s.Kept t) (told : s.world.outline.attributes path = .ok a) :
      Ensured author path permissions s (.ok a) t
  | refused {e : Failure} {t : Session} (kept : s.Kept t) (none : ∀ a, s.world.outline.attributes path ≠ .ok a)
      (stuck : s.Missing path →
        ∃ e, s.world.outline.plan (author.now .making) (.makeFile path permissions author.uid author.gid) = .error e) :
      Ensured author path permissions s (.error e) t
  | made {a : Volume.Attributes} {s₁ t : Session} (missing : s.Missing path) (kept : s.Kept s₁) (reachable : s₁.Reachable)
      (performed : s₁.Performs (author.now .making) (.makeFile path permissions author.uid author.gid) (.ok (.attributes a)) t) :
      Ensured author path permissions s (.ok a) t

theorem ensured_of_ensureFile {r : Except Failure Volume.Attributes} (h : s.Reachable) (steady : ¬ s.disk.Faulty)
    (ran : s.perform (author.ensureFile path permissions) = (r, t)) (supplied : t.disk.Supplied) :
    Advances path s t ∧ Ensured author path permissions s r t := by
  obtain ⟨a, looked, rfl⟩ | ⟨e, s₁, looked, ran⟩ := perform_tryCatch_cases ran
  · obtain ⟨told, kept, advances⟩ := attributes_of_perform h steady looked supplied
    exact ⟨advances, .there kept told.symm⟩
  have supplied₁ := supplied_of_attempt ran supplied
  obtain ⟨lost, kept, first⟩ := attributes_of_perform h steady looked supplied₁
  have none (a : Volume.Attributes) : s.world.outline.attributes path ≠ .ok a := by
    rw [← lost]
    exact nofun
  have shown := (observe_attributes h.sound path).trans lost.symm
  cases missing : e.isNotFound with
  | false =>
    rw [missing] at ran
    cases ran
    refine ⟨first, .refused kept none ?_⟩
    rintro ⟨e', lost', missing'⟩
    cases shown.symm.trans lost'
    cases missing.symm.trans missing'
  | true =>
    rw [missing] at ran
    have performed :=
      performs_of_perform (author.now .making) (.makeFile path permissions author.uid author.gid) Answer.attributes rfl ran supplied
    have advances :=
      first.trans (performed.advances first.reachable first.steady fun _ named => (Option.some.inj named).symm)
    cases r with
    | ok a => exact ⟨advances, .made ⟨e, shown, missing⟩ kept first.reachable performed⟩
    | error e' =>
      obtain ⟨planned, kept'⟩ := performed.kept_of_error first.reachable.sound first.steady rfl
      exact ⟨advances, .refused (kept.trans kept') none fun _ => ⟨e', kept.outline ▸ planned⟩⟩

/-- What putting content into a file comes to. -/
structure PlaceLaws (author : Author) (path : String) (content : ByteArray) (placement : Placement) (permissions : UInt32)
    (s : Session) (r : Except Failure Nat) (t : Session) : Prop where
  /-- The whole file is what was asked for. A file that was missing counts as empty. -/
  placed : ∀ {n}, r = .ok n → n = content.size ∧ ∃ old, (s.content path = .ok old ∨ s.Missing path ∧ old = .empty) ∧
    t.content path = .ok (placement.result old content)
  /-- No other file has changed. -/
  elsewhere : ∀ other c, Path.segments other ≠ Path.segments path → (t.content other = .ok c ↔ s.content other = .ok c)
  /-- What is refused changes nothing, unless the content does not fit: a file to be replaced has been emptied then, and
  a file that was missing has been made, and emptied after that if it was to be replaced. -/
  refused : ∀ {e}, r = .error e → s.Unchanged t ∨ (∃ requested, e = .fileTooLarge requested maxFileSize) ∧
    t.content path = .ok .empty ∧
      (placement = .replace ∧ (∃ old, s.content path = .ok old) ∧ s.Leaves (author.now .resizing) (.resize path 0) t ∨
        s.Missing path ∧ placement ≠ .replace ∧
          s.Leaves (author.now .making) (.makeFile path permissions author.uid author.gid) t ∨
        s.Missing path ∧ placement = .replace ∧ ∃ u,
          s.Leaves (author.now .making) (.makeFile path permissions author.uid author.gid) u ∧
          u.Leaves (author.now .resizing) (.resize path 0) t)
  /-- Content that fits into a file is put there. -/
  fits : ∀ {old}, s.content path = .ok old → placement.start old.size + content.size ≤ maxFileSize → ∃ n, r = .ok n
  created : ∀ {u}, s.Leaves (author.now .making) (.makeFile path permissions author.uid author.gid) u → s.Missing path →
    placement.start 0 + content.size ≤ maxFileSize → ∃ n, r = .ok n
  /-- Content that does not fit is refused, but a file to be replaced is emptied and a file that was missing is made. -/
  beyond : ∀ {old}, s.content path = .ok old → maxFileSize < placement.start old.size + content.size →
    (∃ requested, r = .error (.fileTooLarge requested maxFileSize)) ∧ (placement = .replace → t.content path = .ok .empty)
  stranded : ∀ {u}, s.Leaves (author.now .making) (.makeFile path permissions author.uid author.gid) u → s.Missing path →
    maxFileSize < placement.start 0 + content.size →
    (∃ requested, r = .error (.fileTooLarge requested maxFileSize)) ∧ t.content path = .ok .empty

/-- A file that was made just now has nothing in it. -/
theorem made_file {a : Volume.Attributes} (sound : s.world.Sound)
    (made : s.Performs (author.now .making) (.makeFile path permissions author.uid author.gid) (.ok (.attributes a)) t) :
    a.size = 0 ∧ t.content path = .ok .empty := by
  obtain ⟨sound', follows⟩ := made.follows sound
  obtain ⟨place, self, data, opens, new, answered, _⟩ := Follows.made sound.outline follows
  cases answered
  exact ⟨rfl, content_made sound made⟩

section laws
variable {e : Failure} {a : Volume.Attributes} {s₁ u : Session} (h : s.Reachable)
include h

theorem placeLaws_of_refused (all : Advances path s t) (kept : s.Kept t)
    (none : ∀ a, s.world.outline.attributes path ≠ .ok a)
    (stuck : s.Missing path →
      ∃ e, s.world.outline.plan (author.now .making) (.makeFile path permissions author.uid author.gid) = .error e) :
    author.PlaceLaws path content placement permissions s (.error e) t := by
  have lost (old : ByteArray) : s.content path ≠ .ok old := by
    intro held
    obtain ⟨a, told⟩ := exists_attributes h.sound held
    exact none a told
  have idle {u : Session} (leaves : s.Leaves (author.now .making) (.makeFile path permissions author.uid author.gid) u) :
      ¬ s.Missing path := by
    intro missing
    obtain ⟨s₁, a, u, same, reachable, performed, _⟩ := leaves
    obtain ⟨e, refused⟩ := stuck missing
    obtain ⟨allowed, _, _, planned, _⟩ := (performed.follows reachable.sound).2.succeeded
    rw [plan, ← same.outline, planned] at refused
    cases refused
  exact {
    placed := nofun
    elsewhere := all.elsewhere
    refused := fun _ => .inl (kept.unchanged h.sound all.reachable.sound)
    fits := fun held => absurd held (lost _)
    created := fun leaves missing => absurd missing (idle leaves)
    beyond := fun held => absurd held (lost _)
    stranded := fun leaves missing => absurd missing (idle leaves) }

/-- Content for a file that is there. -/
theorem placeLaws_of_there (first : Advances path s u) (kept : s.Kept u) (told : s.world.outline.attributes path = .ok a)
    (second : Advances path u t) (filled : Filled author path content placement u r t) :
    author.PlaceLaws path content placement permissions s r t := by
  have same := kept.content_eq h.sound first.reachable.sound path
  have found := not_missing h.sound told
  have elsewhere := (first.trans second).elsewhere
  cases filled with
  | placed held fits after =>
    rw [same] at held
    refine {
      placed := ?_
      elsewhere
      refused := nofun
      fits := fun _ _ => ⟨_, rfl⟩
      created := fun _ _ _ => ⟨_, rfl⟩
      beyond := fun held' beyond => ?_
      stranded := fun _ missing => absurd missing found }
    · rintro _ ⟨⟩
      exact ⟨rfl, _, .inl held, after⟩
    · cases held.symm.trans held'
      exact absurd fits (Nat.not_le.mpr beyond)
  | kept kept' beyond =>
    have unchanged := (kept.trans kept').unchanged h.sound second.reachable.sound
    refine {
      placed := nofun
      elsewhere
      refused := fun _ => .inl unchanged
      fits := fun held fits => absurd fits (Nat.not_le.mpr (beyond _ (same.trans held)).2.1)
      created := fun _ missing => absurd missing found
      beyond := fun held _ => ?_
      stranded := fun _ missing => absurd missing found }
    obtain ⟨not, _, requested, rfl⟩ := beyond _ (same.trans held)
    exact ⟨⟨requested, rfl⟩, fun replaces => absurd replaces not⟩
  | emptied replaces held beyond emptied kept' after =>
    rw [same] at held
    refine {
      placed := nofun
      elsewhere
      refused := fun failed => .inr ?_
      fits := fun _ fits => ?_
      created := fun _ missing => absurd missing found
      beyond := fun _ _ => ⟨⟨_, rfl⟩, fun _ => after⟩
      stranded := fun _ missing => absurd missing found }
    · cases failed
      exact ⟨⟨_, rfl⟩, after, .inl ⟨replaces, ⟨_, held⟩, u, _, _, kept, first.reachable, emptied,
        kept'.unchanged (first.reachable.called emptied).sound second.reachable.sound⟩⟩
    · rw [replaces] at fits
      change 0 + _ ≤ _ at fits
      omega

/-- Content for a file that is new. -/
theorem placeLaws_of_made (missing : s.Missing path) (kept : s.Kept s₁) (reachable : s₁.Reachable)
    (performed : s₁.Performs (author.now .making) (.makeFile path permissions author.uid author.gid) (.ok (.attributes a)) u)
    (first : Advances path s u) (second : Advances path u t) (filled : Filled author path content placement u r t) :
    author.PlaceLaws path content placement permissions s r t := by
  obtain ⟨_, bare⟩ := made_file reachable.sound performed
  have lost (old : ByteArray) : s.content path ≠ .ok old := by
    intro held
    obtain ⟨a, told⟩ := exists_attributes h.sound held
    exact not_missing h.sound told missing
  have sound := first.reachable.sound
  have sound' := second.reachable.sound
  have elsewhere := (first.trans second).elsewhere
  have leaves {t : Session} (same : u.Unchanged t) :
      s.Leaves (author.now .making) (.makeFile path permissions author.uid author.gid) t :=
    ⟨s₁, _, u, kept, reachable, performed, same⟩
  cases filled with
  | placed held fits after =>
    cases bare.symm.trans held
    refine {
      placed := ?_
      elsewhere
      refused := nofun
      fits := fun _ _ => ⟨_, rfl⟩
      created := fun _ _ _ => ⟨_, rfl⟩
      beyond := fun held => absurd held (lost _)
      stranded := fun _ _ exceeds => absurd fits (Nat.not_le.mpr exceeds) }
    rintro _ ⟨⟩
    exact ⟨rfl, .empty, .inr ⟨missing, rfl⟩, after⟩
  | kept kept' beyond =>
    obtain ⟨other, exceeds, requested, rfl⟩ := beyond _ bare
    have after := (kept'.content_eq sound sound' path).trans bare
    refine {
      placed := nofun
      elsewhere
      refused := fun failed => .inr ?_
      fits := fun held => absurd held (lost _)
      created := fun _ _ fits => absurd fits (Nat.not_le.mpr exceeds)
      beyond := fun held => absurd held (lost _)
      stranded := fun _ _ _ => ⟨⟨_, rfl⟩, after⟩ }
    cases failed
    exact ⟨⟨_, rfl⟩, after, .inr (.inl ⟨missing, other, leaves (kept'.unchanged sound sound')⟩)⟩
  | emptied replaces _ beyond emptied kept' after =>
    refine {
      placed := nofun
      elsewhere
      refused := fun failed => .inr ?_
      fits := fun held => absurd held (lost _)
      created := fun _ _ fits => ?_
      beyond := fun held => absurd held (lost _)
      stranded := fun _ _ _ => ⟨⟨_, rfl⟩, after⟩ }
    · cases failed
      have last := kept'.unchanged (first.reachable.called emptied).sound sound'
      exact ⟨⟨_, rfl⟩, after, .inr (.inr ⟨missing, replaces, u, leaves ((Kept.refl u).unchanged sound sound),
        u, _, _, .refl u, first.reachable, emptied, last⟩)⟩
    · rw [replaces] at fits
      change 0 + _ ≤ _ at fits
      omega

theorem placeLaws_of_steady (steady : ¬ s.disk.Faulty)
    (ran : s.perform (author.place path content placement permissions) = (r, t)) (supplied : t.disk.Supplied) :
    author.PlaceLaws path content placement permissions s r t := by
  rw [place_eq] at ran
  obtain ⟨e, ensuring, rfl⟩ | ⟨a, u, ensuring, filling⟩ := perform_bind_cases ran
  · obtain ⟨all, ensured⟩ := ensured_of_ensureFile h steady ensuring supplied
    cases ensured with
    | refused kept none stuck => exact placeLaws_of_refused h all kept none stuck
  obtain ⟨first, ensured⟩ := ensured_of_ensureFile h steady ensuring (supplied_of_attempt filling supplied)
  -- Content is appended at the size told by the first step, which is that of the file as it is filled.
  cases ensured with
  | there kept told =>
    have sized (old : ByteArray) (held : u.content path = .ok old) : a.size.toNat = old.size := by
      rw [kept.content_eq h.sound first.reachable.sound, content_eq_ok h.sound] at held
      obtain ⟨i, view, found, _, rfl⟩ := held
      obtain ⟨j, resolved, rfl⟩ := attributes_eq_ok.mp told
      cases resolved.symm.trans (resolveFile_eq_ok.mp found).1
      exact (size_bytesOf view _).symm
    obtain ⟨second, filled⟩ := filled_of_fill first.reachable first.steady sized filling supplied
    exact placeLaws_of_there h first kept told second filled
  | made missing kept reachable performed =>
    obtain ⟨none, bare⟩ := made_file reachable.sound performed
    have sized (old : ByteArray) (held : u.content path = .ok old) : a.size.toNat = old.size := by
      cases bare.symm.trans held
      exact congrArg UInt64.toNat none
    obtain ⟨second, filled⟩ := filled_of_fill first.reachable first.steady sized filling supplied
    exact placeLaws_of_made h missing kept reachable performed first second filled

end laws

/-- Content is put into a file while the store answers. -/
theorem placeLaws_of_perform (h : s.Reachable) (ran : s.perform (author.place path content placement permissions) = (r, t))
    (supplied : t.disk.Supplied) (quiet : s.disk.Quiet t.disk) : author.PlaceLaws path content placement permissions s r t := by
  have reachable : s.calm.Reachable := h.failing _ _ _
  have supplied' : t.calm.disk.Supplied := ⟨supplied.distinct, supplied.ne_zero, supplied.ne_rootPointer⟩
  have laws := placeLaws_of_steady reachable s.not_faulty_calm (attempt_calm ran quiet) supplied'
  refine ⟨laws.placed, laws.elsewhere, fun failed => ?_, laws.fits,
    fun leaves => laws.created (leaves_calm.mpr leaves), laws.beyond, fun leaves => laws.stranded (leaves_calm.mpr leaves)⟩
  rcases laws.refused failed with
    same | ⟨large, bare, ⟨replaces, held, leaves⟩ | ⟨missing, other, leaves⟩ | ⟨missing, replaces, u, leaves, last⟩⟩
  · exact .inl ⟨same.attributes, same.names, same.entries, same.read⟩
  · exact .inr ⟨large, bare, .inl ⟨replaces, held, (leaves_calm.mp leaves).of_calm⟩⟩
  · exact .inr ⟨large, bare, .inr (.inl ⟨missing, other, (leaves_calm.mp leaves).of_calm⟩)⟩
  · exact .inr ⟨large, bare, .inr (.inr ⟨missing, replaces, u, leaves_calm.mp leaves, last.of_calm⟩)⟩

/-- Making the file asks for two identifiers, and each of the two changes of its content for those of the blocks. -/
theorem asks_place : Asks (2 + (2 * maxBlocks + 2 * maxBlocks)) (author.place path content placement permissions) := by
  have ensured : Asks 2 (author.ensureFile path permissions) :=
    .tryCatch (.attributes path) fun e => .ite (.make (author.now .making) path _ author.uid author.gid) (.throw e)
  have written (offset : UInt64) : Asks (2 * maxBlocks) (Volume.write (author.now .writing) path content offset) :=
    .write (author.now .writing) path content offset
  apply ensured.bind
  intro a
  cases placement with
  | replace => exact (Asks.resize (author.now .resizing) path 0).bind fun _ => written 0
  | append => exact (written a.size).mono (Nat.le_add_left _ _)
  | offset offset => exact (written offset).mono (Nat.le_add_left _ _)

/-- One byte more than fits into a file. -/
def oversized : ByteArray := zeros (maxFileSize + 1)

theorem oversized_beyond : maxFileSize < oversized.size :=
  Nat.lt_of_lt_of_eq (Nat.lt_succ_self maxFileSize) (size_zeros (maxFileSize + 1)).symm

/-- An author whose clock goes on from one call to the next. -/
def clerk : Author where
  uid := 0
  gid := 0
  now := ⟨fun
    | .making => 1
    | .resizing => 2
    | _ => 3⟩

/-- Content that fits is appended to a file of three bytes. Content that does not leaves this file empty, and makes
one that was missing. -/
theorem placeLaws_written : Reachable written ∧
    (∃ t, written.perform (clerk.place "/d/f" "er".toUTF8 .append 0o644) = (.ok 2, t) ∧ t.disk.Supplied ∧
      written.disk.Quiet t.disk ∧ clerk.PlaceLaws "/d/f" "er".toUTF8 .append 0o644 written (.ok 2) t ∧
      t.content "/d/f" = .ok "older".toUTF8) ∧
    (∃ r t, written.perform (clerk.place "/d/f" oversized .replace 0o644) = (r, t) ∧ t.disk.Supplied ∧
      written.disk.Quiet t.disk ∧ clerk.PlaceLaws "/d/f" oversized .replace 0o644 written r t ∧
      (∃ requested, r = .error (.fileTooLarge requested maxFileSize)) ∧ t.content "/d/f" = .ok .empty) ∧
    ∃ r t, written.perform (clerk.place "/x" oversized .replace 0o644) = (r, t) ∧ t.disk.Supplied ∧
      written.disk.Quiet t.disk ∧ clerk.PlaceLaws "/x" oversized .replace 0o644 written r t ∧
      (∃ requested, r = .error (.fileTooLarge requested maxFileSize)) ∧ written.Missing "/x" ∧ t.content "/x" = .ok .empty := by
  have displays := displays_written
  have held := content_of_written
  have places (path : String) (content : ByteArray) (placement : Placement) : ∃ r t,
      written.perform (clerk.place path content placement 0o644) = (r, t) ∧ t.disk.Supplied ∧ written.disk.Quiet t.disk ∧
        clerk.PlaceLaws path content placement 0o644 written r t := by
    obtain ⟨⟨r, t⟩, ran⟩ : ∃ out, written.perform (clerk.place path content placement 0o644) = out := ⟨_, rfl⟩
    have supplied := supplied_of_frugal (asks_place _) ran displays.supply displays.issued (by decide)
    have quiet : written.disk.Quiet t.disk := Disk.quiet_of_steady displays.shows.steady
    exact ⟨r, t, ran, supplied, quiet, placeLaws_of_perform displays.reachable ran supplied quiet⟩
  have beyond (size : Nat) : maxFileSize < Placement.replace.start size + oversized.size := by
    rw [Placement.start, Nat.zero_add]
    exact oversized_beyond
  refine ⟨displays.reachable, ?_, ?_, ?_⟩
  · obtain ⟨r, t, ran, supplied, quiet, laws⟩ := places "/d/f" "er".toUTF8 .append
    obtain ⟨n, rfl⟩ := laws.fits held (by decide +kernel)
    obtain ⟨rfl, old, same | ⟨missing, _⟩, after⟩ := laws.placed rfl
    · cases held.symm.trans same
      exact ⟨t, ran, supplied, quiet, laws, after.trans (congrArg Except.ok (by decide +kernel))⟩
    · obtain ⟨a, told⟩ := exists_attributes displays.shows.sound held
      exact absurd missing (not_missing displays.shows.sound told)
  · obtain ⟨r, t, ran, supplied, quiet, laws⟩ := places "/d/f" oversized .replace
    obtain ⟨large, emptied⟩ := laws.beyond held (beyond _)
    exact ⟨r, t, ran, supplied, quiet, laws, large, emptied rfl⟩
  · obtain ⟨r, t, ran, supplied, quiet, laws⟩ := places "/x" oversized .replace
    have missing : written.Missing "/x" := displays.shows.missing (by decide +kernel)
    have is : (Call.makeFile "/x" 0o644 0 0).perform 1 = .attributes <$> makeFile 1 "/x" 0o644 0 0 := rfl
    obtain ⟨a, u, made, _, supplied', _⟩ := displays.perform is (Asks.make 1 "/x" _ 0 0) (by decide) (by decide +kernel)
    have leaves : written.Leaves 1 (.makeFile "/x" 0o644 0 0) u :=
      ⟨written, _, u, .refl _, displays.reachable,
        performs_of_perform 1 (.makeFile "/x" 0o644 0 0) .attributes rfl made supplied',
        fun _ => rfl, fun _ => rfl, fun _ => rfl, fun _ _ _ => rfl⟩
    have stranded := laws.stranded leaves missing (beyond _)
    exact ⟨r, t, ran, supplied, quiet, laws, stranded.1, missing, stranded.2⟩

end Shell.Author
end RecordFs
