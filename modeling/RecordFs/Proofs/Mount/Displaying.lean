import RecordFs.Proofs.Mount.Answering
import RecordFs.Proofs.Tree.Running

/-! Requests about names on a volume whose store does not fail. What a tree allows succeeds, and the volume
then shows the tree after it. Each request asks for two identifiers at most. -/
namespace RecordFs
open Volume

namespace Mount.Mounted
open Serving
variable {α : Type} {m m' : Mounted} {tree next : Tree} {n k : Nat} {now : Int64} {call : Call} {path : String}

section performed
variable {t : Session} {parent node : Nat} {name : ByteArray}

theorem run_make_of_perform {mode umask : UInt32} {caller : Caller} {a : Attributes}
    (child : m.table.child? parent name = some path)
    (made : m.session.perform (makeFile now path (mode &&& ~~~umask) caller.uid caller.gid) = (.ok a, t)) :
    ∃ told m', m.run (make .file now parent name mode umask caller) = (.ok told, m') ∧ m'.session = t := by
  refine ⟨.of (m.table.lookUp path .file).1 a, ⟨(m.table.lookUp path .file).2, t⟩, ?_, rfl⟩
  simp only [Serving.make, run_bind_ok, run_childOf_ok, run_volume_ok]
  exact ⟨path, m, ⟨child, rfl⟩, a, ⟨m.table, t⟩, ⟨made, rfl⟩, _, _, rfl, rfl⟩

theorem run_remove_of_perform (child : m.table.child? parent name = some path)
    (removed : m.session.perform (removeFile now path) = (.ok (), t)) :
    ∃ m', m.run (remove .file now parent name) = (.ok (), m') ∧ m'.session = t := by
  refine ⟨⟨m.table.invalidate path, t⟩, ?_, rfl⟩
  simp only [remove, run_bind_ok, run_childOf_ok, run_volume_ok]
  exact ⟨path, m, ⟨child, rfl⟩, (), ⟨m.table, t⟩, ⟨removed, rfl⟩, rfl⟩

theorem run_listing_of_perform {entries : List Entry} (known : m.table.path? node = some path)
    (told : m.session.perform (Volume.entries path) = (.ok entries, t)) :
    ∃ whole m', m.run (listing node) = (.ok whole, m') ∧ m'.session = t := by
  obtain ⟨children, _, mentioned⟩ := (⟨m.table, t⟩ : Mounted).run_mentions path entries
  simp only [listing, run_bind_ok, run_pathOf_ok, run_volume_ok]
  exact ⟨_, _, ⟨path, m, ⟨known, rfl⟩, entries, ⟨m.table, t⟩, ⟨told, rfl⟩, m.table, _, rfl, children, _, mentioned, rfl⟩, rfl⟩

end performed

/-- A mounted volume that shows this tree, on a disk that counts up its identifiers and has handed out so many. -/
structure Displays (m : Mounted) (tree : Tree) (n : Nat) : Prop extends m.session.Displays tree n where
  mounted : m.Reachable
  table : m.table.Sound

namespace Displays
variable (h : m.Displays tree n)
include h

theorem served {now : Clock Reading} {request : Request} {r : Except Failure Response} (served : m.Serves now request r m')
    (displays : m'.session.Displays next k) : m'.Displays next k where
  toDisplays := displays
  mounted := h.mounted.runs (.served (.refl m) served)
  table := (answers_of_run served.run).sound h.table

section requests
variable {now : Clock Reading} {parent node : Nat} {name : ByteArray} (child : m.table.child? parent name = some path)

include child in
theorem makeFile {mode umask : UInt32} {caller : Caller} (few : n + 2 < UInt64.size - 1)
    (allowed : (tree.step (now .call) (.makeFile path (mode &&& ~~~umask) caller.uid caller.gid)).toBool = true) :
    ∃ told m', m.Serves now (.makeFile parent name mode umask caller) (.ok (.made told)) m' ∧
      m'.Displays (tree.after (now .call) (.makeFile path (mode &&& ~~~umask) caller.uid caller.gid)) (n + 2) := by
  obtain ⟨a, t, made, _, supplied, displays⟩ :=
    h.perform (f := .attributes) rfl (Asks.make (now .call) path _ _ _) few allowed
  obtain ⟨told, m', ran, rfl⟩ := run_make_of_perform child made
  have served : m.Serves now (.makeFile parent name mode umask caller) (.ok (.made told)) m' :=
    ⟨run_map_ok.mpr ⟨told, ran, rfl⟩, supplied⟩
  exact ⟨told, m', served, h.served served displays⟩

include child in
theorem removeFile (few : n < UInt64.size - 1) (allowed : (tree.step (now .call) (.removeFile path)).toBool = true) :
    ∃ m', m.Serves now (.removeFile parent name) (.ok .done) m' ∧ m'.Displays (tree.after (now .call) (.removeFile path)) n := by
  obtain ⟨a, t, removed, _, supplied, displays⟩ :=
    h.perform (f := fun _ => .done) rfl (Asks.removeFile (now .call) path) few allowed
  obtain ⟨m', ran, rfl⟩ := run_remove_of_perform child removed
  have served : m.Serves now (.removeFile parent name) (.ok .done) m' :=
    ⟨run_bind_ok.mpr ⟨(), m', ran, rfl⟩, supplied⟩
  exact ⟨m', served, h.served served displays⟩

/-- A listing has the names that the tree tells. -/
theorem list (few : n < UInt64.size - 1) (known : m.table.path? node = some path) {names : List String}
    (told : tree.Lists path names) (now : Clock Reading) (offset : Int64) (buffer : Buffer) :
    ∃ whole m', m.run (listing node) = (.ok whole, m') ∧ whole.map (·.name) = names ∧
      m.Serves now (.list node offset buffer)
        (.ok (.rows (page buffer.size buffer.room (whole.drop offset.toNatClampNeg)))) m' ∧ m'.Displays tree n := by
  obtain ⟨slots, found, same⟩ : ∃ slots, tree.slotsAt path = .ok slots ∧ "." :: ".." :: slots.occupied.map (·.1) = names := by
    cases found : tree.slotsAt path with
    | error e =>
      rw [Tree.Lists, Tree.step, found] at told
      cases told
    | ok slots =>
      rw [Tree.Lists, Tree.step, found] at told
      cases told
      exact ⟨slots, rfl, rfl⟩
  have stepped : tree.step 0 (.entries path) =
      .ok (.entries (slots.occupied.map fun entry => ⟨entry.1, entry.2.attributes⟩), tree) := by
    rw [Tree.step, found]
    rfl
  have is : (Call.entries path).perform 0 = .entries <$> Volume.entries path := rfl
  obtain ⟨entries, t, ran, answered, supplied, displays⟩ :=
    h.perform is (Asks.entries path) few (by rw [stepped]; rfl)
  obtain ⟨whole, m', listing, rfl⟩ := run_listing_of_perform known ran
  have served : m.Serves now (.list node offset buffer)
      (.ok (.rows (page buffer.size buffer.room (whole.drop offset.toNatClampNeg)))) m' :=
    ⟨run_bind_ok.mpr ⟨whole, m', listing, rfl⟩, supplied⟩
  have stays : tree.after 0 (.entries path) = tree := by rw [Tree.after, stepped]
  refine ⟨whole, m', listing, ?_, served, h.served served (stays ▸ displays)⟩
  obtain ⟨path', entries', known', ran', _, listed, _⟩ := run_listing_ok listing
  cases known.symm.trans known'
  cases ran.symm.trans ran'
  rw [stepped] at answered
  obtain ⟨plain, _⟩ := Prod.mk.inj (Except.ok.inj answered)
  have plainly := congrArg (List.map Entry.name) (Answer.entries.inj plain)
  simp only [List.map_map] at plainly
  rw [listed, ← same]
  exact congrArg (fun names : List String => "." :: ".." :: names) plainly.symm

end requests
end Displays

/-- A volume that was just made, and mounted. -/
theorem displays_first : Displays ⟨{}, .first⟩ (.new {} 0) 2 where
  toDisplays := Session.displays_first
  mounted := ⟨.first, Session.reachable_first, .refl _⟩
  table := NodeTable.sound_new

/-- The volume after these requests, each made at time zero. -/
def after (m : Mounted) : List Request → Mounted
  | [] => m
  | request :: rest => after (m.run (answer (.still 0) request)).2 rest

theorem after_cons (m : Mounted) (first : Request) (rest : List Request) :
    m.after (first :: rest) = (m.after [first]).after rest := rfl

theorem Serves.eq_after {request : Request} {r : Except Failure Response} (served : m.Serves (.still 0) request r m') :
    m.after [request] = m' := by
  rw [after, after, served.run]

/-- A file is made in the root. -/
def newFile (name : String) : Request := .makeFile rootNumber name.toUTF8 0o644 0 {}

/-- A file is removed from the root. -/
def lostFile (name : String) : Request := .removeFile rootNumber name.toUTF8

namespace Displays
variable (h : m.Displays tree n) (few : n < UInt64.size - 1) {name : String}
include h

theorem path?_root : m.table.path? rootNumber = some "/" := h.table.proper.path?_of_number? h.table.root

theorem child?_root (same : Path.child "/" name = path) : m.table.child? rootNumber name.toUTF8 = some path := by
  have text : String.fromUTF8? name.toUTF8 = some name := by
    simp [String.fromUTF8?, name.isValidUTF8, String.fromUTF8]
  rw [NodeTable.child?, text, h.path?_root, ← same]
  rfl

theorem newFile (few : n + 2 < UInt64.size - 1) (same : Path.child "/" name = path)
    (allowed : (tree.step 0 (.makeFile path 0o644 0 0)).toBool = true) :
    ∃ told, m.Serves (.still 0) (newFile name) (.ok (.made told)) (m.after [newFile name]) ∧
      (m.after [newFile name]).Displays (tree.after 0 (.makeFile path 0o644 0 0)) (n + 2) := by
  obtain ⟨told, m', served, displays⟩ : ∃ told m', m.Serves (.still 0) (Mounted.newFile name) (.ok (.made told)) m' ∧
      m'.Displays (tree.after 0 (.makeFile path 0o644 0 0)) (n + 2) := h.makeFile (h.child?_root same) few allowed
  have left : m.after [Mounted.newFile name] = m' := served.eq_after
  rw [left]
  exact ⟨told, served, displays⟩

include few

theorem lostFile (same : Path.child "/" name = path) (allowed : (tree.step 0 (.removeFile path)).toBool = true) :
    m.Serves (.still 0) (lostFile name) (.ok .done) (m.after [lostFile name]) ∧
      (m.after [lostFile name]).Displays (tree.after 0 (.removeFile path)) n := by
  obtain ⟨m', served, displays⟩ : ∃ m', m.Serves (.still 0) (Mounted.lostFile name) (.ok .done) m' ∧
      m'.Displays (tree.after 0 (.removeFile path)) n := h.removeFile (h.child?_root same) few allowed
  have left : m.after [Mounted.lostFile name] = m' := served.eq_after
  rw [left]
  exact ⟨served, displays⟩

end Displays

/-- A file was made in the root. -/
def oneFile : Mounted := after ⟨{}, .first⟩ [newFile "a"]

def oneFileTree : Tree := (Tree.new {} 0).after 0 (.makeFile "/a" 0o644 0 0)

theorem child_a : Path.child "/" "a" = "/a" := by decide +kernel

theorem displays_oneFile : oneFile.Displays oneFileTree 4 := by
  obtain ⟨_, _, displays⟩ := displays_first.newFile (by decide) child_a (by decide +kernel)
  exact displays

/-- The file has the first number after that of the root. -/
theorem path?_oneFile : oneFile.table.path? 2 = some "/a" := by
  obtain ⟨_, made, _⟩ := displays_first.newFile (by decide) child_a (by decide +kernel)
  obtain ⟨_, ran, _⟩ := run_map_ok.mp made.run
  obtain ⟨_, _, path, _, _, table⟩ := run_make_ok ran
  cases (displays_first.child?_root child_a).symm.trans path
  rw [oneFile, table]
  decide +kernel

end Mount.Mounted
end RecordFs
