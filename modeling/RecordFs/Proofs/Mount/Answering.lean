import RecordFs.Proofs.Mount.Answers
import RecordFs.Proofs.Mount.Serving

/-! Every request is answered in one of the ways there are. The programs that answer it touch the table
last, when nothing can be refused any more, or not at all. -/
namespace RecordFs.Mount

namespace Serving
variable {α β : Type}

/-- Wherever the program is run, it leaves the table as it is. -/
def Spares (x : Serving α) : Prop := ∀ m : Mounted, (m.run x).2.table = m.table

/-- When the program is refused, it leaves the table as it was. -/
def Reverts (x : Serving α) : Prop := ∀ (m : Mounted) (e : Failure), (m.run x).1 = .error e → (m.run x).2.table = m.table

/-- The program is not refused. -/
def Succeeds (x : Serving α) : Prop := ∀ m : Mounted, ∃ a, (m.run x).1 = .ok a

namespace Spares

theorem pure (a : α) : Spares (pure a) := fun _ => rfl

theorem throw (e : Failure) : Spares (throw e : Serving α) := fun _ => rfl

theorem bind {x : Serving α} {f : α → Serving β} (h : Spares x) (next : ∀ a, Spares (f a)) : Spares (x >>= f) := by
  intro m
  have first := h m
  rw [Mounted.run_bind]
  cases ran : m.run x with
  | mk r m' =>
    rw [ran] at first
    cases r with
    | ok a => exact (next a m').trans first
    | error e => exact first

theorem map {x : Serving α} (f : α → β) (h : Spares x) : Spares (f <$> x) := by
  intro m
  rw [Mounted.run_map]
  exact h m

theorem ite {p : Prop} [Decidable p] {x y : Serving α} (h : Spares x) (k : Spares y) : Spares (if p then x else y) := by
  split
  · exact h
  · exact k

theorem optional {o : Option α} {f : α → Serving PUnit} (each : ∀ a, Spares (f a)) : Spares (o.forM f) := by
  cases o with
  | some a => exact each a
  | none => exact .pure _

theorem volume (x : Action α) : Spares (volume x) := by
  intro m
  rw [Mounted.run_volume]

theorem pathOf (node : Nat) : Spares (pathOf node) := by
  intro m
  rw [Mounted.run_pathOf]

theorem childOf (parent : Nat) (name : ByteArray) : Spares (childOf parent name) := by
  rw [Serving.childOf]
  cases String.fromUTF8? name with
  | none => exact .throw _
  | some name => exact (Spares.pathOf parent).bind fun _ => .pure _

theorem position (offset : Int64) : Spares (position offset) := .ite (.throw _) (.pure _)

theorem attributes (node : Nat) : Spares (attributes node) :=
  (Spares.pathOf node).bind fun path => (Spares.volume (Volume.attributes path)).bind fun _ => .pure _

theorem steps (now : Clock Reading) (path : String) (c : Changes) : Spares (steps now path c) := by
  apply (Spares.optional fun _ => .volume _).bind
  intro _
  apply (Spares.ite (.volume _) (.pure _)).bind
  intro _
  apply (Spares.optional fun _ => .volume _).bind
  intro _
  exact .ite (.volume _) (.pure _)

theorem change (now : Clock Reading) (node : Nat) (c : Changes) : Spares (change now node c) := by
  rw [change_eq]
  exact (Spares.pathOf node).bind fun path => (Spares.steps now path c).bind fun _ => .attributes node

theorem reverts {x : Serving α} (h : Spares x) : Reverts x := fun m _ _ => h m

end Spares

namespace Succeeds

theorem pure (a : α) : Succeeds (pure a) := fun _ => ⟨a, rfl⟩

theorem bind {x : Serving α} {f : α → Serving β} (h : Succeeds x) (next : ∀ a, Succeeds (f a)) : Succeeds (x >>= f) := by
  intro m
  obtain ⟨a, ok⟩ := h m
  rw [Mounted.run_bind]
  cases ran : m.run x with
  | mk r m' =>
    rw [ran] at ok
    cases ok
    exact next a m'

theorem mapM {f : α → Serving β} (each : ∀ a, Succeeds (f a)) (l : List α) : Succeeds (l.mapM f) := by
  induction l with
  | nil => exact .pure []
  | cons a rest ih =>
    rw [List.mapM_cons]
    exact (each a).bind fun b => ih.bind fun bs => .pure (b :: bs)

theorem lookUp (path : String) (kind : EntryKind) : Succeeds (lookUp path kind) := fun _ => ⟨_, rfl⟩

theorem mention (path : String) (kind : EntryKind) : Succeeds (mention path kind) := fun _ => ⟨_, rfl⟩

theorem modify (f : NodeTable → NodeTable) : Succeeds (modify f : Serving PUnit) := fun _ => ⟨_, rfl⟩

theorem reverts {x : Serving α} (h : Succeeds x) : Reverts x := by
  intro m e refused
  obtain ⟨a, ok⟩ := h m
  rw [ok] at refused
  cases refused

end Succeeds

namespace Reverts

/-- The table is touched last. -/
theorem bind {x : Serving α} {f : α → Serving β} (h : Spares x) (next : ∀ a, Reverts (f a)) : Reverts (x >>= f) := by
  intro m e
  have first := h m
  rw [Mounted.run_bind]
  cases ran : m.run x with
  | mk r m' =>
    rw [ran] at first
    cases r with
    | ok a => exact fun refused => (next a m' e refused).trans first
    | error e => exact fun _ => first

theorem map {x : Serving α} (f : α → β) (h : Reverts x) : Reverts (f <$> x) := by
  intro m e
  rw [Mounted.run_map]
  cases ran : (m.run x).1 with
  | ok a => exact nofun
  | error e' => exact fun _ => h m e' ran

theorem lookup (parent : Nat) (name : ByteArray) : Reverts (lookup parent name) :=
  .bind (.childOf parent name) fun path => .bind (.volume _) fun a =>
    ((Succeeds.lookUp path a.kind).bind fun _ => .pure _).reverts

theorem listing (node : Nat) : Reverts (listing node) := by
  apply Reverts.bind (.pathOf node)
  intro path
  apply Reverts.bind (.volume _)
  intro entries
  apply Succeeds.reverts
  apply Succeeds.bind fun m => ⟨m.table, rfl⟩
  intro table
  refine Succeeds.bind ?_ fun _ => .pure _
  exact .mapM (fun e => (Succeeds.mention _ _).bind fun _ => .pure _) entries

theorem make (kind : EntryKind) (now : Int64) (parent : Nat) (name : ByteArray) (mode umask : UInt32) (caller : Caller) :
    Reverts (make kind now parent name mode umask caller) :=
  .bind (.childOf parent name) fun path => .bind (.volume _) fun _ =>
    ((Succeeds.lookUp path kind).bind fun _ => .pure _).reverts

theorem remove (kind : EntryKind) (now : Int64) (parent : Nat) (name : ByteArray) : Reverts (remove kind now parent name) :=
  .bind (.childOf parent name) fun _ => .bind (.volume _) fun _ => (Succeeds.modify _).reverts

end Reverts
end Serving

namespace Mounted
open Serving
variable {m m' : Mounted} {now : Clock Reading} {node : Nat} {request : Request}

/-- What a listing mentions of the entries of a directory. -/
def mentioned (path : String) (entries : List Volume.Entry) : List (String × EntryKind) :=
  entries.map fun e => (Path.child path e.name, e.attributes.kind)

/-- The entries are mentioned one after another, and each makes a row. -/
theorem run_mentions (m : Mounted) (path : String) (entries : List Volume.Entry) :
    ∃ children : List (Nat × EntryKind × String), children.map (·.2.2) = entries.map (·.name) ∧
      m.run (entries.mapM fun e => do
        return (← mention (Path.child path e.name) e.attributes.kind, e.attributes.kind, e.name)) =
          (.ok children, ⟨m.table.mentionAll (mentioned path entries), m.session⟩) := by
  induction entries generalizing m with
  | nil => exact ⟨[], rfl, rfl⟩
  | cons e rest ih =>
    have first : m.run (mention (Path.child path e.name) e.attributes.kind) =
      (.ok (m.table.mention (Path.child path e.name) e.attributes.kind).1,
        ⟨(m.table.mention (Path.child path e.name) e.attributes.kind).2, m.session⟩) := rfl
    revert first
    generalize mentions : m.table.mention (Path.child path e.name) e.attributes.kind = given
    intro first
    obtain ⟨children, names, ran⟩ := ih ⟨given.2, m.session⟩
    refine ⟨(given.1, e.attributes.kind, e.name) :: children, congrArg (e.name :: ·) names, ?_⟩
    simp only [List.mapM_cons, bind_assoc, pure_bind]
    rw [run_bind, first]
    simp only [run_bind, ran]
    rw [← mentions]
    rfl

theorem run_listing_ok {rows : List Row} (ran : m.run (listing node) = (.ok rows, m')) :
    ∃ path entries, m.table.path? node = some path ∧ m.session.perform (Volume.entries path) = (.ok entries, m'.session) ∧
      m'.table = m.table.mentionAll (mentioned path entries) ∧
      rows.map (·.name) = "." :: ".." :: entries.map (·.name) ∧
      rows.map (·.next) = (List.range rows.length).map (· + 1) := by
  simp only [listing, run_bind_ok, run_pathOf_ok, run_volume_ok] at ran
  obtain ⟨path, _, ⟨known, rfl⟩, entries, m₁, ⟨performed, same⟩, table, m₂, looked, children, m₃, mentions, last⟩ := ran
  cases looked
  obtain ⟨children', names, ran⟩ := m₁.run_mentions path entries
  cases mentions.symm.trans ran
  cases last
  refine ⟨path, entries, known, performed, congrArg (NodeTable.mentionAll · _) same, ?_, ?_⟩
  · rw [List.map_map, ← names]
    change List.map ((fun row : Nat × EntryKind × String => row.2.2) ∘ Prod.fst) _ = _
    rw [← List.map_map, List.zipIdx_map_fst]
    rfl
  · rw [List.map_map]
    change List.map ((· + 1) ∘ Prod.snd) _ = _
    rw [← List.map_map, List.zipIdx_map_snd, List.length_map, List.length_zipIdx, List.range_eq_range']

section answers
variable {x : Serving Response}

/-- A request that is carried out by a program that leaves the table when it is refused. -/
theorem answers_of_reverts (other : ∀ nodes, request ≠ .forget nodes) (reverts : Reverts x)
    (ok : ∀ response m', m.run x = (.ok response, m') → Answers m.table request (.ok response) m'.table) :
    Answers m.table request (m.run x).1 (m.run x).2.table := by
  cases ran : m.run x with
  | mk r m' =>
    cases r with
    | ok response => exact ok response m' ran
    | error e =>
      have same := reverts m e (congrArg Prod.fst ran)
      rw [ran] at same
      exact same ▸ .refused request e other

theorem answers_of_spares (plain : request.plain) (spares : Spares x) :
    Answers m.table request (m.run x).1 (m.run x).2.table := by
  refine answers_of_reverts ?_ spares.reverts fun response m' ran => ?_
  · rintro nodes rfl
    cases plain
  · have same := spares m
    rw [ran] at same
    exact same ▸ .plain request response plain

end answers

theorem answers (m : Mounted) (now : Clock Reading) (request : Request) :
    Answers m.table request (m.run (answer now request)).1 (m.run (answer now request)).2.table := by
  cases request with
  | forget nodes => exact .forgot nodes
  | attributes node => exact answers_of_spares rfl ((Spares.attributes node).map _)
  | change node c => exact answers_of_spares rfl ((Spares.change now node c).map _)
  | openNode node =>
    exact answers_of_spares rfl ((Spares.pathOf node).bind fun _ => (Spares.volume _).bind fun _ => .pure _)
  | read node offset length =>
    exact answers_of_spares rfl ((Spares.position offset).bind fun _ => (Spares.pathOf node).bind fun _ =>
      (Spares.volume _).bind fun _ => .pure _)
  | write node offset data =>
    exact answers_of_spares rfl ((Spares.position offset).bind fun _ => (Spares.pathOf node).bind fun _ =>
      (Spares.volume _).bind fun _ => .pure _)
  | flush node | release node => exact answers_of_spares rfl ((Spares.pathOf node).bind fun _ => .pure _)
  | lookup parent name =>
    refine answers_of_reverts nofun ((Reverts.lookup parent name).map _) fun response m' ran => ?_
    obtain ⟨told, inner, rfl⟩ := run_map_ok.mp ran
    obtain ⟨path, a, _, _, rfl, after⟩ := run_lookup_ok inner
    rw [after]
    exact .lookedUp parent name path a.kind _ rfl
  | list node offset buffer =>
    refine answers_of_reverts nofun ((Reverts.listing node).map _) fun response m' ran => ?_
    obtain ⟨rows, inner, rfl⟩ := run_map_ok.mp ran
    obtain ⟨path, entries, _, _, after, _⟩ := run_listing_ok inner
    rw [after]
    exact .listed node offset buffer _ _
  | makeFile parent name mode umask caller =>
    refine answers_of_reverts nofun ((Reverts.make .file (now .call) parent name mode umask caller).map _) fun response m' ran => ?_
    obtain ⟨told, inner, rfl⟩ := run_map_ok.mp ran
    obtain ⟨path, a, _, _, rfl, after⟩ := run_make_ok inner
    rw [after]
    exact .madeFile parent name mode umask caller path _ rfl
  | makeDirectory parent name mode umask caller =>
    refine answers_of_reverts nofun ((Reverts.make .directory (now .call) parent name mode umask caller).map _) fun response m' ran => ?_
    obtain ⟨told, inner, rfl⟩ := run_map_ok.mp ran
    obtain ⟨path, a, _, _, rfl, after⟩ := run_make_ok inner
    rw [after]
    exact .madeDirectory parent name mode umask caller path _ rfl
  | removeFile parent name =>
    refine answers_of_reverts nofun ((Reverts.remove .file (now .call) parent name).map _) fun response m' ran => ?_
    obtain ⟨_, inner, rfl⟩ := run_map_ok.mp ran
    obtain ⟨path, _, _, after⟩ := run_remove_ok inner
    rw [after]
    exact .removedFile parent name path
  | removeDirectory parent name =>
    refine answers_of_reverts nofun ((Reverts.remove .directory (now .call) parent name).map _) fun response m' ran => ?_
    obtain ⟨_, inner, rfl⟩ := run_map_ok.mp ran
    obtain ⟨path, _, _, after⟩ := run_remove_ok inner
    rw [after]
    exact .removedDirectory parent name path

theorem answers_of_run {r : Except Failure Response} (ran : m.run (Serving.answer now request) = (r, m')) : Answers m.table request r m'.table := by
  have answered := m.answers now request
  rwa [ran] at answered

end Mounted
end RecordFs.Mount
