import RecordFs.Mount.Handler
import RecordFs.Proofs.Mount.Numbers
import RecordFs.Proofs.Volume.Reachable

/-! A mounted volume: what a program that answers a request replies, and what it leaves, is put
together from what its steps reply and leave. -/
namespace RecordFs.Mount
open Volume

/-- A mounted volume: the table of numbers and the volume. -/
structure Mounted where
  table : NodeTable
  session : Session

namespace Mounted
variable {α β : Type}

/-- Runs a program that answers a request. -/
def run (m : Mounted) (x : Serving α) : Except Failure α × Mounted :=
  let (((r, table), cache), disk) := ((x.run.run m.table).run m.session.cache).run Disk.backend m.session.disk
  (r, ⟨table, cache, disk⟩)

theorem run_bind (m : Mounted) (x : Serving α) (f : α → Serving β) : m.run (x >>= f) =
    match m.run x with
    | (.ok a, m') => m'.run (f a)
    | (.error e, m') => (.error e, m') := by
  have bound : ((x >>= f).run.run m.table).run m.session.cache =
      ((x.run.run m.table).run m.session.cache).bind fun p => match p.1.1 with
        | .ok a => ((f a).run.run p.1.2).run p.2
        | .error e => .done ((.error e, p.1.2), p.2) := by
    change Access.bind _ _ = _
    refine congrArg (Access.bind _) (funext fun p => ?_)
    obtain ⟨⟨r, t⟩, c⟩ := p
    cases r <;> rfl
  rw [run, bound, Access.run_bind, run]
  cases ((x.run.run m.table).run m.session.cache).run Disk.backend m.session.disk with
  | mk p disk =>
    obtain ⟨⟨r, t⟩, c⟩ := p
    cases r <;> rfl

theorem run_map (m : Mounted) (f : α → β) (x : Serving α) : m.run (f <$> x) = ((m.run x).1.map f, (m.run x).2) := by
  rw [← bind_pure_comp, run_bind]
  cases m.run x with
  | mk r m' => cases r <;> rfl

theorem run_volume (m : Mounted) (x : Action α) : m.run (Serving.volume x) =
    ((m.session.perform x).1.mapError .volume, ⟨m.table, (m.session.perform x).2⟩) := by
  have lifted : ((Serving.volume x).run.run m.table).run m.session.cache = (x.run.run m.session.cache).bind fun p =>
      .done ((p.1.mapError .volume, m.table), p.2) := by
    change Access.bind (Access.bind _ _) _ = _
    rw [Access.bind_assoc]
    refine congrArg (Access.bind _) (funext fun p => ?_)
    obtain ⟨r, c⟩ := p
    cases r <;> rfl
  simp only [run, lifted, Access.run_bind, Session.perform, Disk.perform]
  rfl

theorem run_pathOf (m : Mounted) (node : Nat) : m.run (Serving.pathOf node) =
    ((m.table.path? node).elim (.error (.unknownNode node)) .ok, m) := by
  have table : m.run Serving.table = (.ok m.table, m) := rfl
  simp only [Serving.pathOf, run_bind, table]
  cases m.table.path? node <;> rfl

theorem run_childOf {m : Mounted} {parent : Nat} {name : ByteArray} {path : String}
    (known : m.table.child? parent name = some path) : m.run (Serving.childOf parent name) = (.ok path, m) := by
  obtain ⟨text, valid, same⟩ := Option.bind_eq_some_iff.mp known
  obtain ⟨above, found, rfl⟩ := Option.map_eq_some_iff.mp same
  simp only [Serving.childOf, valid]
  rw [run_bind, run_pathOf, found]
  rfl

theorem run_childOf_of_none {m : Mounted} {parent : Nat} {name : ByteArray}
    (unknown : m.table.child? parent name = none) : ∃ e, m.run (Serving.childOf parent name) = (.error e, m) := by
  rw [NodeTable.child?] at unknown
  rw [Serving.childOf]
  cases valid : String.fromUTF8? name with
  | none => exact ⟨_, rfl⟩
  | some text =>
    rw [valid] at unknown
    have lost := Option.map_eq_none_iff.mp unknown
    simp only [run_bind, run_pathOf, lost]
    exact ⟨_, rfl⟩

section succeeded
open Serving
variable {m m' : Mounted} {now : Int64} {parent node : Nat} {name : ByteArray} {path : String} {told : NodeAttributes}

theorem run_bind_ok {x : Serving α} {f : α → Serving β} {b : β} :
    m.run (x >>= f) = (.ok b, m') ↔ ∃ a m₁, m.run x = (.ok a, m₁) ∧ m₁.run (f a) = (.ok b, m') := by
  rw [run_bind]
  cases m.run x with
  | mk r m₁ =>
    cases r with
    | ok a =>
      constructor
      · intro ran
        exact ⟨a, m₁, rfl, ran⟩
      · rintro ⟨_, _, same, ran⟩
        cases same
        exact ran
    | error e =>
      constructor
      · intro ran
        cases ran
      · rintro ⟨_, _, same, _⟩
        cases same

theorem run_map_ok {f : α → β} {x : Serving α} {b : β} :
    m.run (f <$> x) = (.ok b, m') ↔ ∃ a, m.run x = (.ok a, m') ∧ f a = b := by
  rw [← bind_pure_comp, run_bind_ok]
  constructor
  · rintro ⟨a, m₁, ran, last⟩
    cases last
    exact ⟨a, ran, rfl⟩
  · rintro ⟨a, ran, rfl⟩
    exact ⟨a, m', ran, rfl⟩

theorem run_pathOf_ok : m.run (pathOf node) = (.ok path, m') ↔ m.table.path? node = some path ∧ m = m' := by
  rw [run_pathOf]
  cases m.table.path? node with
  | none => simp
  | some path => simp

theorem run_childOf_ok : m.run (childOf parent name) = (.ok path, m') ↔ m.table.child? parent name = some path ∧ m = m' := by
  cases known : m.table.child? parent name with
  | none =>
    obtain ⟨e, ran⟩ := run_childOf_of_none known
    simp [ran]
  | some path => simp [run_childOf known]

theorem run_volume_ok {x : Action α} {a : α} : m.run (volume x) = (.ok a, m') ↔
    m.session.perform x = (.ok a, m'.session) ∧ m'.table = m.table := by
  rw [run_volume]
  constructor
  · intro ran
    obtain ⟨result, rfl⟩ := Prod.mk.inj ran
    refine ⟨Prod.ext ?_ rfl, rfl⟩
    cases done : (m.session.perform x).1 with
    | ok a' =>
      rw [done] at result
      cases result
      rfl
    | error e =>
      rw [done] at result
      cases result
  · rintro ⟨ran, same⟩
    rw [ran, ← same]
    rfl

section answered
variable {kind : EntryKind} {mode umask : UInt32} {caller : Caller}

theorem run_attributes_ok (ran : m.run (attributes node) = (.ok told, m')) : ∃ path a, m.table.path? node = some path ∧
    m.session.perform (Volume.attributes path) = (.ok a, m'.session) ∧ told = .of node a ∧ m'.table = m.table := by
  simp only [Serving.attributes, run_bind_ok, run_pathOf_ok, run_volume_ok] at ran
  obtain ⟨path, _, ⟨known, rfl⟩, a, m₁, ⟨performed, same⟩, last⟩ := ran
  cases last
  exact ⟨path, a, known, performed, rfl, same⟩

theorem run_lookup_ok (ran : m.run (lookup parent name) = (.ok told, m')) : ∃ path a, m.table.child? parent name = some path ∧
    m.session.perform (Volume.attributes path) = (.ok a, m'.session) ∧
    told = .of (m.table.lookUp path a.kind).1 a ∧ m'.table = (m.table.lookUp path a.kind).2 := by
  simp only [lookup, run_bind_ok, run_childOf_ok, run_volume_ok] at ran
  obtain ⟨path, _, ⟨known, rfl⟩, a, m₁, ⟨performed, same⟩, number, m₂, numbered, last⟩ := ran
  cases numbered
  cases last
  rw [same]
  exact ⟨path, a, known, performed, rfl, rfl⟩

theorem run_make_ok (ran : m.run (make kind now parent name mode umask caller) = (.ok told, m')) :
    ∃ path a, m.table.child? parent name = some path ∧
      m.session.perform (match kind with
        | .directory => makeDirectory now path (mode &&& ~~~umask) caller.uid caller.gid
        | .file => makeFile now path (mode &&& ~~~umask) caller.uid caller.gid) = (.ok a, m'.session) ∧
      told = .of (m.table.lookUp path kind).1 a ∧ m'.table = (m.table.lookUp path kind).2 := by
  simp only [Serving.make, run_bind_ok, run_childOf_ok, run_volume_ok] at ran
  obtain ⟨path, _, ⟨known, rfl⟩, a, m₁, ⟨performed, same⟩, number, m₂, numbered, last⟩ := ran
  cases numbered
  cases last
  rw [same]
  exact ⟨path, a, known, performed, rfl, rfl⟩

theorem run_remove_ok (ran : m.run (remove kind now parent name) = (.ok (), m')) :
    ∃ path, m.table.child? parent name = some path ∧
      m.session.perform (match kind with
        | .directory => removeDirectory now path
        | .file => removeFile now path) = (.ok (), m'.session) ∧ m'.table = m.table.invalidate path := by
  simp only [remove, run_bind_ok, run_childOf_ok, run_volume_ok] at ran
  obtain ⟨path, _, ⟨known, rfl⟩, _, m₁, ⟨performed, same⟩, last⟩ := ran
  cases last
  exact ⟨path, known, performed, congrArg (·.invalidate path) same⟩

end answered

end succeeded
end Mounted
end RecordFs.Mount
