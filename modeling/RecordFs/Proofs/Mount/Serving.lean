import RecordFs.Proofs.Mount.Mounted
import RecordFs.Proofs.Tree.Refinement
import RecordFs.Proofs.Volume.Occupants

/-! A mounted volume as a system that takes one request after another. A request names one number, and
whatever it asks for, it makes calls of the volume at one path only, and it uses the table of numbers
as this is meant to be used. -/
namespace RecordFs
open Volume

namespace Session
variable {s t u : Session} {place : Option String}

/-- Some calls about this place, one after another, lead from the one state to the other. -/
inductive Calls (place : Option String) : Session → Session → Prop where
  | refl (s : Session) : Calls place s s
  | step {s t u : Session} {now : Int64} {call : Call} {r : Except Failure Answer} (before : Calls place s t)
      (about : place = some call.path) (performed : t.Performs now call r u) : Calls place s u

theorem Calls.trans (h : Calls place s t) (k : Calls place t u) : Calls place s u := by
  induction k with
  | refl => exact h
  | step _ about performed ih => exact .step ih about performed

theorem Calls.reachable (h : Calls place s t) (reachable : Reachable s) : Reachable t := by
  induction h with
  | refl => exact reachable
  | step _ _ performed ih => exact .called ih performed

theorem Calls.ages (h : Calls place s t) (reachable : Reachable s) : s.world.outline.Ages t.world.outline := by
  induction h with
  | refl => exact .refl _
  | step before _ performed ih =>
    have sound := (before.reachable reachable).sound
    exact ih.trans ((performed.follows sound).2.ages sound.outline)

end Session

namespace Mount

/-- The path that a request is about: that of the number it names, or of a name in the directory with this number. -/
def Request.path? (t : NodeTable) : Request → Option String
  | .lookup parent name | .makeFile parent name _ _ _ | .makeDirectory parent name _ _ _
  | .removeFile parent name | .removeDirectory parent name => t.child? parent name
  | .attributes node | .change node _ | .openNode node | .read node _ _ | .write node _ _
  | .flush node | .release node | .list node _ _ => t.path? node
  | .forget _ => none

namespace Mounted

/-- What a request about this place may come to: numbers are given out and forgotten, and calls are made. -/
structure Leads (place : Option String) (m m' : Mounted) : Prop where
  table : m.table.Later m'.table
  like : m.session.disk.Like m'.session.disk
  calls : m'.session.disk.Supplied → m.session.Calls place m'.session

namespace Leads
variable {m m' m'' : Mounted} {place : Option String}

theorem refl (m : Mounted) : Leads place m m := ⟨.refl _, .rfl, fun _ => .refl _⟩

theorem trans (h : Leads place m m') (k : Leads place m' m'') : Leads place m m'' where
  table := h.table.trans k.table
  like := h.like.trans k.like
  calls supplied := (h.calls (k.like.supplied supplied)).trans (k.calls supplied)

end Leads
end Mounted

namespace Serving
variable {α β : Type} {t : NodeTable} {place : Option String}

/-- Wherever the program is run from this table on, it does no more than that. -/
def Keeps (t : NodeTable) (place : Option String) (x : Serving α) : Prop :=
  ∀ m : Mounted, t.Later m.table → m.Leads place (m.run x).2

namespace Keeps

theorem pure (a : α) : Keeps t place (pure a) := fun m _ => .refl m

theorem bind {x : Serving α} {f : α → Serving β} (h : Keeps t place x) (next : ∀ a, Keeps t place (f a)) :
    Keeps t place (x >>= f) := by
  intro m later
  have first := h m later
  rw [Mounted.run_bind]
  cases ran : m.run x with
  | mk r m' =>
    rw [ran] at first
    cases r with
    | ok a => exact first.trans (next a m' (later.trans first.table))
    | error e => exact first

theorem mapM {f : α → Serving β} (each : ∀ a, Keeps t place (f a)) (l : List α) : Keeps t place (l.mapM f) := by
  induction l with
  | nil => exact .pure []
  | cons a rest ih =>
    rw [List.mapM_cons]
    exact (each a).bind fun b => ih.bind fun bs => .pure (b :: bs)

theorem modify {f : NodeTable → NodeTable} (later : ∀ t : NodeTable, t.Later (f t)) :
    Keeps t place (modify f : Serving PUnit) := fun m _ => ⟨later m.table, .rfl, fun _ => .refl _⟩

theorem modifyGet {f : NodeTable → α × NodeTable} (later : ∀ t : NodeTable, t.Later (f t).2) :
    Keeps t place (modifyGet f : Serving α) := fun m _ => ⟨later m.table, .rfl, fun _ => .refl _⟩

/-- The action of a call about the place, however its answer is told. -/
theorem volume {x : Action α} (now : Int64) (call : Call) (f : α → Answer) (is : call.perform now = f <$> x) :
    Keeps t (some call.path) (volume x) := by
  intro m _
  rw [Mounted.run_volume]
  refine ⟨.refl _, m.session.like_perform x, fun supplied => ?_⟩
  exact .step (.refl _) rfl (Session.performs_of_perform now call f is rfl supplied)

theorem ite {p : Prop} [Decidable p] {x y : Serving α} (h : Keeps t place x) (k : Keeps t place y) :
    Keeps t place (if p then x else y) := by
  split
  · exact h
  · exact k

theorem optional {o : Option α} {f : α → Serving PUnit} (each : ∀ a, Keeps t place (f a)) : Keeps t place (o.forM f) := by
  cases o with
  | some a => exact each a
  | none => exact .pure _

end Keeps

/-- The steps of a change; each of them is left out when nothing is asked of it. -/
def steps (now : Clock Reading) (path : String) (c : Changes) : Serving Unit := do
  c.mode.forM fun mode => volume (Volume.setMode (now .mode) path mode)
  (if c.uid.isSome || c.gid.isSome then volume (Volume.setOwner (now .owner) path c.uid c.gid) else pure ())
  c.size.forM fun size => volume (Volume.resize (now .size) path size)
  (if c.atime.isSome || c.mtime.isSome then
    volume (Volume.setTimes (now .times) path (c.atime.map (·.seconds (now .atime))) (c.mtime.map (·.seconds (now .mtime))))
  else pure ())

theorem change_eq (now : Clock Reading) (node : Nat) (c : Changes) : change now node c = (do
    let path ← pathOf node
    steps now path c
    attributes node) := by
  rw [change]
  refine bind_congr fun path => ?_
  -- A step that is left out is no step in the one form, and a step that does nothing in the other.
  have step (p : Prop) [Decidable p] (x : Serving Unit) (rest : Serving NodeAttributes) :
      (if p then do x; rest else rest) = (do (if p then x else pure ()); rest) := by
    split
    · rfl
    · exact (pure_bind () fun _ => rest).symm
  rcases c with ⟨_ | mode, uid, gid, _ | size, atime, mtime⟩ <;>
    simp only [steps, Option.forM, pure_bind, bind_assoc, step]

section requests
variable (now : Int64) (node : Nat) (name : ByteArray) (path : String) (kind : EntryKind)

theorem keeps_table : Keeps t place table := fun m _ => .refl m

theorem keeps_lookUp : Keeps t place (lookUp path kind) := .modifyGet fun t => t.later_lookUp path kind

theorem keeps_mention : Keeps t place (mention path kind) := .modifyGet fun t => t.later_mention path kind

theorem keeps_attributesOf : Keeps t (some path) (volume (Volume.attributes path)) :=
  .volume 0 (.attributes path) .attributes rfl

variable {path} in
/-- A number that is known has the same path whenever it is asked for again. -/
theorem keeps_attributes (proper : t.Proper) (known : t.path? node = some path) : Keeps t (some path) (attributes node) := by
  intro m later
  rw [attributes, Mounted.run_bind, Mounted.run_pathOf]
  cases found : m.table.path? node with
  | none => exact .refl m
  | some path' =>
    have same := later.path node (proper.known node path known) path' found
    cases known.symm.trans same
    exact (keeps_attributesOf path).bind (fun _ => .pure _) m later

theorem keeps_steps (now : Clock Reading) (c : Changes) : Keeps t (some path) (steps now path c) := by
  rw [steps]
  apply (Keeps.optional fun mode => .volume (now .mode) (.setMode path mode) (fun _ => .done) rfl).bind
  intro _
  apply (Keeps.ite (.volume (now .owner) (.setOwner path c.uid c.gid) (fun _ => .done) rfl) (.pure _)).bind
  intro _
  apply (Keeps.optional fun size => .volume (now .size) (.resize path size) (fun _ => .done) rfl).bind
  intro _
  have times (atime mtime : Option Int64) : Keeps t (some path) (volume (Volume.setTimes (now .times) path atime mtime)) :=
    .volume (now .times) (.setTimes path atime mtime) (fun _ => .done) rfl
  exact .ite (times _ _) (.pure _)

theorem keeps_make (mode : UInt32) (caller : Caller) : Keeps t (some path) (volume <| match kind with
    | .directory => Volume.makeDirectory now path mode caller.uid caller.gid
    | .file => Volume.makeFile now path mode caller.uid caller.gid) := by
  cases kind with
  | directory => exact .volume now (.makeDirectory path mode caller.uid caller.gid) .attributes rfl
  | file => exact .volume now (.makeFile path mode caller.uid caller.gid) .attributes rfl

theorem keeps_remove : Keeps t (some path) (volume <| match kind with
    | .directory => Volume.removeDirectory now path
    | .file => Volume.removeFile now path) := by
  cases kind with
  | directory => exact .volume now (.removeDirectory path) (fun _ => .done) rfl
  | file => exact .volume now (.removeFile path) (fun _ => .done) rfl

end requests
end Serving

namespace Mounted
open Serving
variable {α β : Type} (m : Mounted)

namespace Leads
variable {m} {place : Option String}

theorem map {x : Serving α} (f : α → β) (h : m.Leads place (m.run x).2) : m.Leads place (m.run (f <$> x)).2 := by
  rwa [run_map]

theorem pathOf {node : Nat} {f : String → Serving β}
    (next : ∀ path, m.table.path? node = some path → Keeps m.table (some path) (f path)) :
    m.Leads (m.table.path? node) (m.run (pathOf node >>= f)).2 := by
  rw [run_bind, run_pathOf]
  cases known : m.table.path? node with
  | none => exact .refl m
  | some path => exact next path known m (.refl _)

theorem childOf {parent : Nat} {name : ByteArray} {f : String → Serving β}
    (next : ∀ path, Keeps m.table (some path) (f path)) :
    m.Leads (m.table.child? parent name) (m.run (childOf parent name >>= f)).2 := by
  rw [run_bind]
  cases known : m.table.child? parent name with
  | none =>
    obtain ⟨e, ran⟩ := run_childOf_of_none known
    rw [ran]
    exact .refl m
  | some path =>
    rw [run_childOf known]
    exact next path m (.refl _)

/-- An offset is judged before anything is done. -/
theorem position {offset : Int64} {f : UInt64 → Serving β} (next : ∀ n, m.Leads place (m.run (f n)).2) :
    m.Leads place (m.run (position offset >>= f)).2 := by
  rw [Serving.position]
  split
  · exact .refl m
  · exact next offset.toUInt64

end Leads

section requests
variable (now : Int64) (node : Nat) (name : ByteArray)

theorem leads_attributes : m.Leads (m.table.path? node) (m.run (attributes node)).2 :=
  .pathOf fun path _ => (keeps_attributesOf path).bind fun _ => .pure _

theorem leads_lookup : m.Leads (m.table.child? node name) (m.run (lookup node name)).2 := by
  apply Leads.childOf
  intro path
  apply (keeps_attributesOf path).bind
  intro a
  apply (keeps_lookUp path a.kind).bind
  intro number
  exact .pure _

theorem leads_change (proper : m.table.Proper) (now : Clock Reading) (c : Changes) :
    m.Leads (m.table.path? node) (m.run (change now node c)).2 := by
  rw [change_eq]
  apply Leads.pathOf
  intro path known
  exact (keeps_steps path now c).bind fun _ => keeps_attributes node proper known

theorem leads_listing : m.Leads (m.table.path? node) (m.run (listing node)).2 := by
  apply Leads.pathOf
  intro path known
  apply (Keeps.volume 0 (.entries path) .entries rfl).bind
  intro entries
  apply keeps_table.bind
  intro table
  dsimp only
  refine Keeps.bind ?_ fun rows => .pure _
  apply Keeps.mapM
  intro entry
  apply (keeps_mention (Path.child path entry.name) entry.attributes.kind).bind
  intro number
  exact .pure _

theorem leads_make (kind : EntryKind) (mode umask : UInt32) (caller : Caller) :
    m.Leads (m.table.child? node name) (m.run (make kind now node name mode umask caller)).2 := by
  apply Leads.childOf
  intro path
  apply (keeps_make now path kind _ caller).bind
  intro a
  apply (keeps_lookUp path kind).bind
  intro number
  exact .pure _

theorem leads_remove (kind : EntryKind) : m.Leads (m.table.child? node name) (m.run (remove kind now node name)).2 := by
  apply Leads.childOf
  intro path
  apply (keeps_remove now path kind).bind
  intro _
  exact .modify fun t => t.later_invalidate path

end requests

/-- Every request does no more than that at the one path that it is about. -/
theorem leads_answer (proper : m.table.Proper) (now : Clock Reading) (request : Request) :
    m.Leads (request.path? m.table) (m.run (answer now request)).2 := by
  cases request with
  | lookup parent name => exact (m.leads_lookup parent name).map _
  | forget nodes =>
    refine Keeps.bind (.modify fun t => ?_) (fun _ => .pure _) m (.refl _)
    induction nodes generalizing t with
    | nil => exact .refl t
    | cons entry rest ih => exact (t.later_forget _ _).trans (ih _)
  | attributes node => exact (m.leads_attributes node).map _
  | change node c => exact (m.leads_change node proper now c).map _
  | openNode node => exact Leads.pathOf fun path _ => (keeps_attributesOf path).bind fun _ => .pure _
  | read node offset length =>
    exact .position fun n => .pathOf fun path _ =>
      (Keeps.volume 0 (.read path n length) .bytes rfl).bind fun _ => .pure _
  | write node offset data =>
    exact .position fun n => .pathOf fun path _ =>
      (Keeps.volume (now .call) (.write path data n) .count rfl).bind fun _ => .pure _
  | flush node | release node => exact Leads.pathOf fun path _ => .pure _
  | list node offset buffer => exact (m.leads_listing node).map _
  | makeFile parent name mode umask caller => exact (m.leads_make (now .call) parent name .file mode umask caller).map _
  | makeDirectory parent name mode umask caller => exact (m.leads_make (now .call) parent name .directory mode umask caller).map _
  | removeFile parent name => exact (m.leads_remove (now .call) parent name .file).map _
  | removeDirectory parent name => exact (m.leads_remove (now .call) parent name .directory).map _

/-- How a request is answered, where the disk has had an identifier for every entry. -/
structure Serves (m : Mounted) (now : Clock Reading) (request : Request) (r : Except Failure Response) (m' : Mounted) : Prop where
  run : m.run (answer now request) = (r, m')
  supplied : m'.session.disk.Supplied

/-- Requests are answered one after another. Which calls of the store fail may change at any time. -/
inductive Runs : Mounted → Mounted → Prop where
  | refl (m : Mounted) : Runs m m
  | served {m m' m'' : Mounted} {now : Clock Reading} {request : Request} {r : Except Failure Response} (before : Runs m m')
      (served : m'.Serves now request r m'') : Runs m m''
  | failing {m m' : Mounted} (before : Runs m m') (getFails putFails : Nat → Bool) (fault : Fault) :
      Runs m ⟨m'.table, m'.session.failing getFails putFails fault⟩

/-- The states of a volume that was mounted when only the root had a number. -/
def Reachable (m : Mounted) : Prop := ∃ s, Session.Reachable s ∧ Runs ⟨{}, s⟩ m

variable {m} {m' m'' : Mounted} {now : Clock Reading} {request : Request} {r : Except Failure Response}

theorem Serves.leads (served : m.Serves now request r m') (proper : m.table.Proper) : m.Leads (request.path? m.table) m' := by
  have leads := m.leads_answer proper now request
  rwa [served.run] at leads

theorem Serves.calls (served : m.Serves now request r m') (proper : m.table.Proper) :
    m.session.Calls (request.path? m.table) m'.session := (served.leads proper).calls served.supplied

theorem Runs.trans (h : m.Runs m') (k : m'.Runs m'') : m.Runs m'' := by
  induction k with
  | refl => exact h
  | served _ served ih => exact .served ih served
  | failing _ getFails putFails fault ih => exact .failing ih getFails putFails fault

/-- What holds at the start of a run and what the run keeps. -/
theorem Runs.invariant (h : m.Runs m') (reachable : Session.Reachable m.session) (proper : m.table.Proper) :
    Session.Reachable m'.session ∧ m.table.Later m'.table ∧ m.session.world.outline.Ages m'.session.world.outline := by
  induction h with
  | refl => exact ⟨reachable, .refl _, .refl _⟩
  | served _ served ih =>
    obtain ⟨reached, later, ages⟩ := ih
    have leads := served.leads (later.proper proper)
    have calls := leads.calls served.supplied
    exact ⟨calls.reachable reached, later.trans leads.table, ages.trans (calls.ages reached)⟩
  | failing _ getFails putFails fault ih =>
    obtain ⟨reached, later, ages⟩ := ih
    exact ⟨reached.failing getFails putFails fault, later, ages⟩

namespace Reachable

theorem runs (h : m.Reachable) (runs : m.Runs m') : m'.Reachable := by
  obtain ⟨s, reachable, before⟩ := h
  exact ⟨s, reachable, before.trans runs⟩

theorem session (h : m.Reachable) : m.session.Reachable := by
  obtain ⟨s, reachable, runs⟩ := h
  exact (runs.invariant reachable NodeTable.proper_new).1

theorem proper (h : m.Reachable) : m.table.Proper := by
  obtain ⟨s, reachable, runs⟩ := h
  exact (runs.invariant reachable NodeTable.proper_new).2.1.proper NodeTable.proper_new

end Reachable
end Mounted
end Mount
end RecordFs
