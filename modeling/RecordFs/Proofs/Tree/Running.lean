import RecordFs.Proofs.Tree.Storing
import RecordFs.Proofs.Volume.Asking
import RecordFs.Proofs.Volume.Reachable

/-! Calls one after another, on a store that does not fail: each does to a volume what it does to the tree that
the volume shows. On a disk that counts up its identifiers no run is too long, as calls ask for few. -/
namespace RecordFs
open Outline Volume

theorem Disk.not_faulty_counting : ¬ counting.Faulty := by
  rintro (⟨_, failed⟩ | ⟨_, failed⟩) <;> cases failed

/-- Identifiers are supplied where they are counted up and few are asked for. -/
theorem Disk.supplied_of_frugal {α : Type} {x : Access α} {disk : Disk} {n k : Nat} (frugal : x.Frugal k)
    (supply : disk.supply = Disk.counting.supply) (issued : disk.issued ≤ n) (few : n + k < UInt64.size - 1) :
    (x.run backend disk).2.Supplied := by
  have le := disk.issued_run_le frugal
  exact Disk.supplied_of_counting ((Disk.like_run x disk).supply.trans supply) (by omega)

/-- The tree after a call; one that is refused leaves it as it is. -/
def Tree.after (tree : Tree) (now : Int64) (call : Call) : Tree :=
  match tree.step now call with
  | .ok (_, next) => next
  | .error _ => tree

/-- The attributes of the entry at this path. -/
def Tree.told (tree : Tree) (path : String) : Except Failure Attributes := (tree.resolve path).map Tree.attributes

/-- The directory at this path has these names in the tree. -/
abbrev Tree.Lists (tree : Tree) (path : String) (names : List String) : Prop :=
  (tree.step 0 (.names path)).map (·.1) = .ok (.names names)

/-- The tree after these calls. -/
def Tree.afterAll (tree : Tree) (calls : List (Int64 × Call)) : Tree :=
  calls.foldl (fun tree (now, call) => tree.after now call) tree

namespace Outline
variable {o : Outline} {tree : Tree}

/-- Every call does to an outline what it does to a tree. -/
theorem Matches.agrees (m : o.Matches tree) (h : o.Sound) (now : Int64) (call : Call) :
    o.Agrees (o.plan now call) (tree.step now call) := by
  cases call with
  | attributes path => exact m.agrees_attributes h path
  | names path => exact m.agrees_names h path
  | entries path => exact m.agrees_entries h path
  | setMode path mode =>
    refine m.agrees_change h now path (g := fun facts => { facts with permissions := mode &&& Mode.permissionMask })
      (fun _ => Inode.alike_mode mode) fun i typed => ?_
    have permissions := Inode.permissions_of_mode (k := i.kind) (m := mode)
      (i := { i with mode := (i.mode &&& Mode.typeMask) ||| (mode &&& Mode.permissionMask) }) (congrArg (· ||| _) typed.type)
    rw [Facts.of, permissions]
    rfl
  | setOwner path uid gid =>
    exact m.agrees_change h now path (f := fun i => { i with uid := uid.getD i.uid, gid := gid.getD i.gid })
      (g := fun facts => { facts with uid := uid.getD facts.uid, gid := gid.getD facts.gid })
      (fun _ => Inode.alike_owner _ _) fun _ _ => rfl
  | setTimes path atime mtime =>
    exact m.agrees_change h now path (f := fun i => { i with atime := atime.getD i.atime, mtime := mtime.getD i.mtime })
      (g := fun facts => { facts with atime := atime.getD facts.atime, mtime := mtime.getD facts.mtime })
      (fun _ => Inode.alike_times _ _) fun _ _ => rfl
  | makeFile path mode uid gid => exact m.agrees_make h now path .file mode uid gid
  | makeDirectory path mode uid gid => exact m.agrees_make h now path .directory mode uid gid
  | removeFile path => exact m.agrees_removeFile h now path
  | removeDirectory path => exact m.agrees_removeDirectory h now path
  | read path offset length => exact m.agrees_read h path offset.toNat length
  | write path data offset => exact m.agrees_write h now path data offset.toNat
  | resize path size => exact m.agrees_resize h now path size.toNat
  | settle path => exact m.agrees_settle

theorem Matches.told (m : o.Matches tree) (h : o.Sound) (path : String) :
    tree.told path = (o.attributes path).map Attributes.plain := by
  rw [Tree.told, Outline.attributes]
  rcases m.resolve_cases path with ⟨e, lost, lost'⟩ | ⟨i, node, found, found', same⟩
  · rw [lost, lost']
    rfl
  · rw [found, found']
    exact congrArg Except.ok (h.attributes_of_glance (h.resolve_stored found) same).symm

theorem Matches.names (m : o.Matches tree) (h : o.Sound) {path : String} {names : List String} (lists : tree.Lists path names) :
    o.names path = .ok names := by
  rw [Tree.Lists, Tree.step] at lists
  rw [Outline.names]
  rcases m.listing_cases h path with ⟨e, lost, lost'⟩ | ⟨i, d, slots, found, found', listed⟩
  · rw [lost'] at lists
    cases lists
  · rw [found'] at lists
    rw [found, ← Answer.names.inj (Except.ok.inj lists), slots.map_names_occupied, listed.names, ← d.map_name_occupied]
    rfl

/-- A new volume matches a new tree. -/
theorem matches_begun (options : Options) (now : Int64) (self data : Id) :
    (begun .blank (newRoot options now self data)).Matches (.new options now) := by
  obtain ⟨facts, kind, _⟩ := Facts.of_new .directory (i := newRoot options now self data) rfl
  have is := Inode.isDirectory_iff.mpr kind
  have table : (begun .blank (newRoot options now self data)).table (newRoot options now self data).data =
      some (.empty data) := table_setTable blank (.empty data)
  have shown : (begun .blank (newRoot options now self data)).glance (newRoot options now self data) =
      (Tree.new options now).glance := by
    rw [glance_of_table is table, facts, Directory.names_empty]
    rfl
  intro path segments
  cases segments with
  | nil => exact congrArg Except.ok shown
  | cons name rest =>
    have lost (y : String) : (begun .blank (newRoot options now self data)).child path (newRoot options now self data) y =
        .error (.notFound path) := by
      rw [child_of_table is table, Directory.find?_empty]
    change Except.map _ ((name :: rest).foldlM _ _) = _
    rw [List.foldlM_cons, lost, Tree.new, Tree.walk_empty_cons]
    rfl

end Outline

namespace Session
variable {s t : Session} {tree : Tree}

/-- The replies to these calls, each made at its time, and the state after them. -/
def run (s : Session) : List (Int64 × Call) → List (Except Failure Answer) × Session
  | [] => ([], s)
  | (now, call) :: rest =>
    let (r, t) := s.perform (call.perform now)
    let (replies, last) := t.run rest
    (r :: replies, last)

/-- A sound volume whose store does not fail, and the tree that it shows. -/
structure Shows (s : Session) (tree : Tree) : Prop where
  sound : s.world.Sound
  steady : ¬ s.disk.Faulty
  outline : s.world.outline.Matches tree

theorem like_perform {α : Type} (s : Session) (action : Action α) : s.disk.Like (s.perform action).2.disk :=
  Disk.like_run _ s.disk

theorem like_run (s : Session) (calls : List (Int64 × Call)) : s.disk.Like (s.run calls).2.disk := by
  induction calls generalizing s with
  | nil => exact .rfl
  | cons call rest ih => exact (s.like_perform (call.2.perform call.1)).trans (ih _)

/-- One call. -/
theorem Shows.step (shows : s.Shows tree) {now : Int64} {call : Call} {r : Except Failure Answer}
    (performed : s.Performs now call r t) : match tree.step now call with
      | .ok (answer, next) => r.map Answer.plain = .ok answer ∧ t.Shows next
      | .error e => r.map Answer.plain = .error e ∧ t.Shows tree := by
  obtain ⟨run, supplied⟩ := performed
  have ends := perform_of_ensures (shows.sound.ensures_perform now call) (by rwa [run])
    (shows.steady : s.disk.Faulty → False)
  have steady : ¬ t.disk.Faulty := by
    have like := s.like_perform (call.perform now)
    rw [run] at like
    exact mt like.faulty.mp shows.steady
  rw [run] at ends
  obtain ⟨sound, follows⟩ := ends
  have agrees := shows.outline.agrees shows.sound.outline now call r t.world.outline follows
  cases stepped : tree.step now call with
  | error e =>
    rw [stepped] at agrees
    obtain ⟨rfl, same⟩ := agrees
    exact ⟨rfl, sound, steady, same ▸ shows.outline⟩
  | ok outcome =>
    rw [stepped] at agrees
    obtain ⟨a, rfl, told, left⟩ := agrees
    exact ⟨congrArg Except.ok told, sound, steady, left⟩

/-- Any calls, one after another. -/
theorem Shows.run (shows : s.Shows tree) {calls : List (Int64 × Call)} (supplied : (s.run calls).2.disk.Supplied) :
    (s.run calls).1.map (·.map Answer.plain) = tree.answers calls := by
  induction calls generalizing s tree with
  | nil => rfl
  | cons first rest ih =>
    obtain ⟨now, call⟩ := first
    have performed : s.Performs now call (s.perform (call.perform now)).1 (s.perform (call.perform now)).2 :=
      ⟨rfl, (like_run _ rest).supplied supplied⟩
    have step := shows.step performed
    rw [Tree.answers]
    cases stepped : tree.step now call with
    | error e =>
      rw [stepped] at step
      exact congrArg₂ List.cons step.1 (ih step.2 supplied)
    | ok outcome =>
      rw [stepped] at step
      exact congrArg₂ List.cons step.1 (ih step.2 supplied)

/-- A volume that was opened on an empty disk shows a new tree. -/
theorem shows_of_openRoot {disk : Disk} (blank : disk.Blank) (steady : ¬ disk.Faulty) (options : Options) (now : Int64)
    {r : Except Failure Unit} (opens : perform ⟨none, disk⟩ (openRoot options now) = (r, s)) (supplied : s.disk.Supplied) :
    s.Shows (.new options now) := by
  obtain ⟨sound, ⟨self, data, _, outline⟩ | ⟨faulty, _⟩⟩ := perform_openRoot blank options now opens supplied
  · have like := like_perform ⟨none, disk⟩ (openRoot options now)
    rw [opens] at like
    exact ⟨sound, mt like.faulty.mp steady, outline ▸ Outline.matches_begun options now self data⟩
  · exact absurd faulty steady

/-- A call that the tree allows succeeds, with the answer of the tree. -/
theorem Shows.succeeds {x : Action α} {f : α → Answer} (shows : s.Shows tree) (is : call.perform now = f <$> x)
    (allowed : (tree.step now call).toBool = true) (supplied : (s.perform x).2.disk.Supplied) :
    ∃ a t, s.perform x = (.ok a, t) ∧ t.Shows (tree.after now call) ∧
      tree.step now call = .ok ((f a).plain, tree.after now call) := by
  cases ran : s.perform x with
  | mk r t =>
    rw [ran] at supplied
    have step := shows.step (performs_of_perform now call f is ran supplied)
    rw [Tree.after]
    cases stepped : tree.step now call with
    | error e =>
      rw [stepped] at allowed
      cases allowed
    | ok outcome =>
      rw [stepped] at step
      obtain ⟨told, shows⟩ := step
      cases r with
      | error e => cases told
      | ok a =>
        obtain ⟨answer, next⟩ := outcome
        have same : (f a).plain = answer := Except.ok.inj told
        exact ⟨a, t, rfl, shows, by rw [same]⟩

/-- The state after these calls, each made at its time. -/
def after (s : Session) (calls : List (Int64 × Call)) : Session := (s.run calls).2

theorem after_cons (s : Session) (call : Int64 × Call) (rest : List (Int64 × Call)) :
    s.after (call :: rest) = (s.after [call]).after rest := rfl

/-- A reachable volume that shows this tree, on a disk that counts up its identifiers and has handed out so many. -/
structure Displays (s : Session) (tree : Tree) (n : Nat) : Prop where
  reachable : s.Reachable
  shows : s.Shows tree
  supply : s.disk.supply = Disk.counting.supply
  issued : s.disk.issued ≤ n

/-- What a disk has handed out is counted on. -/
theorem issued_of_perform {α : Type} {x : Action α} {r : Except Failure α} {n k : Nat}
    (supply : s.disk.supply = Disk.counting.supply) (issued : s.disk.issued ≤ n) (asks : Asks k x)
    (ran : s.perform x = (r, t)) : t.disk.supply = Disk.counting.supply ∧ t.disk.issued ≤ n + k := by
  have like := s.like_perform x
  have le : (s.perform x).2.disk.issued ≤ s.disk.issued + k := Disk.issued_run_le (asks s.cache) s.disk
  rw [ran] at like le
  exact ⟨like.supply.trans supply, Nat.le_trans le (Nat.add_le_add_right issued k)⟩

namespace Displays
variable {α : Type} {n k : Nat} {now : Int64} {call : Call} (h : s.Displays tree n)
include h

theorem supplied (few : n < UInt64.size - 1) : s.disk.Supplied :=
  Disk.supplied_of_counting h.supply (Nat.lt_of_le_of_lt h.issued few)

theorem supplied_perform {x : Action α} (asks : Asks k x) (few : n + k < UInt64.size - 1) :
    (s.perform x).2.disk.Supplied := Disk.supplied_of_frugal (asks s.cache) h.supply h.issued few

theorem performed {x : Action α} {r : Except Failure α} (asks : Asks k x) (ran : s.perform x = (r, t))
    (reachable : t.Reachable) {next : Tree} (shows : t.Shows next) : t.Displays next (n + k) := by
  obtain ⟨supply, issued⟩ := issued_of_perform h.supply h.issued asks ran
  exact ⟨reachable, shows, supply, issued⟩

/-- An action that is that of a call which the tree allows. -/
theorem perform {x : Action α} {f : α → Answer} (is : call.perform now = f <$> x) (asks : Asks k x)
    (few : n + k < UInt64.size - 1) (allowed : (tree.step now call).toBool = true) :
    ∃ a t, s.perform x = (.ok a, t) ∧ tree.step now call = .ok ((f a).plain, tree.after now call) ∧
      t.disk.Supplied ∧ t.Displays (tree.after now call) (n + k) := by
  have supplied := h.supplied_perform asks few
  obtain ⟨a, t, ran, shows, stepped⟩ := h.shows.succeeds is allowed supplied
  rw [ran] at supplied
  have reachable := h.reachable.called (performs_of_perform now call f is ran supplied)
  exact ⟨a, t, ran, stepped, supplied, h.performed asks ran reachable shows⟩

/-- Any call gets the reply of the tree. -/
theorem answers (few : n + 2 * maxBlocks < UInt64.size - 1) (now : Int64) (call : Call) :
    ∃ r, s.Performs now call r (s.after [(now, call)]) ∧ r.map Answer.plain = (tree.step now call).map (·.1) ∧
      (s.after [(now, call)]).Displays (tree.after now call) (n + 2 * maxBlocks) := by
  have asks := Asks.call now call
  have performed : s.Performs now call (s.perform (call.perform now)).1 (s.after [(now, call)]) :=
    ⟨rfl, h.supplied_perform asks few⟩
  have step := h.shows.step performed
  refine ⟨_, performed, ?_⟩
  rw [Tree.after]
  cases stepped : tree.step now call with
  | error e =>
    rw [stepped] at step
    exact ⟨step.1, h.performed asks rfl (h.reachable.called performed) step.2⟩
  | ok outcome =>
    rw [stepped] at step
    exact ⟨step.1, h.performed asks rfl (h.reachable.called performed) step.2⟩

/-- What the tree allows succeeds. -/
theorem succeeds (few : n + 2 * maxBlocks < UInt64.size - 1) (now : Int64) (call : Call)
    (allowed : (tree.step now call).toBool = true) : ∃ a, s.Performs now call (.ok a) (s.after [(now, call)]) ∧
      (s.after [(now, call)]).Displays (tree.after now call) (n + 2 * maxBlocks) := by
  obtain ⟨r, performed, told, displays⟩ := h.answers few now call
  cases stepped : tree.step now call with
  | error e =>
    rw [stepped] at allowed
    cases allowed
  | ok outcome =>
    rw [stepped] at told
    cases r with
    | error e => cases told
    | ok a => exact ⟨a, performed, displays⟩

/-- What the tree refuses is refused. -/
theorem refused (few : n + 2 * maxBlocks < UInt64.size - 1) (now : Int64) (call : Call) {e : Failure}
    (stepped : tree.step now call = .error e) : s.Performs now call (.error e) (s.after [(now, call)]) := by
  obtain ⟨r, performed, told, _⟩ := h.answers few now call
  rw [stepped] at told
  cases r with
  | error e' =>
    cases told
    exact performed
  | ok a => cases told

omit h in
theorem after (h : s.Displays tree n) (calls : List (Int64 × Call)) (few : n + calls.length * (2 * maxBlocks) < UInt64.size - 1) :
    (s.after calls).Displays (tree.afterAll calls) (n + calls.length * (2 * maxBlocks)) := by
  induction calls generalizing s tree n with
  | nil => exact h
  | cons first rest ih =>
    rw [List.length_cons, Nat.succ_mul, Nat.add_comm _ (2 * maxBlocks), ← Nat.add_assoc] at few ⊢
    obtain ⟨_, _, _, displays⟩ := h.answers (by omega) first.1 first.2
    exact ih displays few

end Displays

/-- A volume that was just made. -/
theorem displays_first : Displays first (.new {} 0) 2 where
  reachable := reachable_first
  shows := by
    have opens : Session.perform ⟨none, .counting⟩ (openRoot {} 0) = (.ok (), first) := rfl
    exact shows_of_openRoot ⟨rfl, rfl⟩ Disk.not_faulty_counting {} 0 opens (Disk.supplied_of_counting rfl (by decide))
  supply := rfl
  issued := by decide

/-- A directory is made, and a file in it. -/
def nesting : List (Int64 × Call) := [(1, .makeDirectory "/d" 0o755 0 0), (2, .makeFile "/d/f" 0o644 0 0)]

def nested : Session := first.after nesting

def nestedTree : Tree := (Tree.new {} 0).afterAll nesting

theorem displays_nested : nested.Displays nestedTree (2 + 2 * (2 * maxBlocks)) := displays_first.after nesting (by decide)

end Session
end RecordFs
