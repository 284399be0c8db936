import RecordFs.Proofs.Store.DiskRuns
import RecordFs.Proofs.Volume.Performing
import RecordFs.Proofs.Volume.Starting

/-! The states that a volume on an empty disk can come to: any calls in any order, at any times,
with any gets and puts failing. All of them are sound. -/
namespace RecordFs
open Volume

/-- An open volume: the root in memory and the disk. -/
structure Session where
  cache : Cache
  disk : Disk

/-- A disk on which nothing was stored yet. -/
structure Disk.Blank (disk : Disk) : Prop where
  records : disk.records = {}
  hidden : disk.hidden = []

theorem Disk.Blank.nothing {disk : Disk} (blank : disk.Blank) (id : Id) : disk.find? id = none := by
  rw [find?, blank.hidden, blank.records]
  rfl

namespace Session

def perform {α : Type} (s : Session) (action : Action α) : Except Failure α × Session :=
  let (r, cache, disk) := s.disk.perform action.run s.cache
  (r, ⟨cache, disk⟩)

def world (s : Session) : World := { s.disk.stock with cache := s.cache }

/-- From now on these calls of the store fail, with this reply. -/
def failing (s : Session) (getFails putFails : Nat → Bool) (fault : Fault) : Session :=
  { s with disk := { s.disk with getFails, putFails, fault } }

/-- The same state with a store that does not fail. -/
def calm (s : Session) : Session := s.failing (fun _ => false) (fun _ => false) s.disk.fault

/-- A call, its reply, and the state that it leaves. No identifier was handed out twice. -/
structure Performs (s : Session) (now : Int64) (call : Call) (r : Except Failure Answer) (t : Session) : Prop where
  run : s.perform (call.perform now) = (r, t)
  supplied : t.disk.Supplied

/-- The states after opening a volume on an empty disk and after any calls. Which calls of the store fail
may change at any time. -/
inductive Reachable : Session → Prop where
  | opened {disk : Disk} {s : Session} (blank : disk.Blank) (options : Options) (now : Int64)
      (ok : perform ⟨none, disk⟩ (openRoot options now) = (.ok (), s)) (supplied : s.disk.Supplied) : Reachable s
  | called {s t : Session} {now : Int64} {call : Call} {r : Except Failure Answer} (h : Reachable s)
      (performed : s.Performs now call r t) : Reachable t
  | failing {s : Session} (h : Reachable s) (getFails putFails : Nat → Bool) (fault : Fault) :
      Reachable (s.failing getFails putFails fault)

variable {α : Type} {faulty : Prop} {s : Session} {action : Action α} {Q : Except Failure α → World → Prop}

/-- What is ensured of an action holds of its run. -/
theorem perform_of_ensures (h : Ensures faulty action s.world Q) (supplied : (s.perform action).2.disk.Supplied)
    (fails : s.disk.Faulty → faulty) : Q (s.perform action).1 (s.perform action).2.world :=
  Disk.run_ensures h supplied fails

/-- An action that only looks replies what it yields unless a get fails, and leaves all as it is. -/
theorem perform_of_yields {v : Except Failure α} (h : Yields faulty action s.world v) (fails : s.disk.Faulty → faulty) :
    (s.perform action).2.cache = s.cache ∧ s.disk.Consulted (s.perform action).2.disk ∧
      ((s.perform action).1 = v ∨ faulty ∧ ∃ f, (s.perform action).1 = .error (.ofFault f)) := by
  have reply := Disk.run_looks h fails
  exact ⟨reply.1, Disk.consulted_run h fails, reply.2⟩

end Session

namespace World
variable {w : World} (blank : ∀ id, w.find id = none) (closed : w.cache = none)
include blank closed

theorem outline_of_blank : w.outline = .blank := by
  have nothing {ρ : Type} [Stored ρ] : w.get ρ = fun _ => none := funext fun id => get_of_find_none (blank id)
  have content : w.content = fun _ => none := funext fun id => by rw [World.content, nothing, Option.map_none]
  rw [outline, closed, nothing, nothing, content]
  rfl

/-- A store that holds nothing is sound. -/
theorem sound_of_blank (zero : w.taken .zero) : w.Sound := by
  have unfound {id : Id} {bytes : ByteArray} (found : w.find id = some bytes) : False := by
    rw [blank] at found
    cases found
  have nothing {ρ : Type} [Stored ρ] {id : Id} {r : ρ} (stored : w.get ρ id = some r) : False := by
    rw [get_of_find_none (blank id)] at stored
    cases stored
  have nowhere {p : Place} {x : Id} (named : w.target p = some x) : False := by
    cases p <;> rw [target, get_of_find_none (blank _)] at named <;> cases named
  have uncached {r : Root} (cached : w.cache = some r) : False := by
    rw [closed] at cached
    cases cached
  exact {
    closed := {
      zero
      stored := fun id bytes found => (unfound found).elim
      root := fun r cached => (uncached cached).elim }
    suited := fun p x named => (nowhere named).elim
    unique := fun p q x named => (nowhere named).elim
    inode := fun id i stored => (nothing stored).elim
    table := fun id d stored => (nothing stored).elim
    root := fun r cached => (uncached cached).elim }

end World

namespace Outline
variable {α : Type} {faulty : Prop} {o o' : Outline} {r : Except Failure α}

theorem isSome_root_apply (o : Outline) (c : Change) : (o.apply c).root.isSome = o.root.isSome := by
  cases c with
  | inode i => exact Option.isSome_map
  | table d => rfl
  | content id view => rfl

theorem Carried.isSome_root {changes : List Change} {answer : α} (h : Carried faulty changes answer o r o') :
    o'.root.isSome = o.root.isSome := by
  induction h with
  | done sound => rfl
  | fault sound hf f => rfl
  | step sound _ ih => exact ih.trans (isSome_root_apply _ _)

/-- The root stays in memory. -/
theorem Follows.isSome_root {plan : Except Failure (Plan α)} (h : Follows faulty plan o r o') :
    o'.root.isSome = o.root.isSome := by
  rcases h with ⟨_, _, rfl⟩ | followed
  · rfl
  · cases plan with
    | error e => exact congrArg (·.root.isSome) followed.2
    | ok allowed =>
      obtain ⟨changes, answer, _, carried⟩ := followed
      exact carried.isSome_root

end Outline

namespace Session
variable {s t : Session} {now : Int64} {call : Call} {r : Except Failure Answer}

/-- A volume that was opened on an empty disk shows its root alone. -/
theorem perform_openRoot {disk : Disk} (blank : disk.Blank) (options : Options) (now : Int64) {r : Except Failure Unit}
    (opens : perform ⟨none, disk⟩ (openRoot options now) = (r, s)) (supplied : s.disk.Supplied) :
    s.world.Sound ∧ ((∃ self data, r = .ok () ∧
      s.world.outline = Outline.begun .blank (Outline.newRoot options now self data)) ∨
      disk.Faulty ∧ ∃ f, r = .error (.ofFault f)) := by
  have sound := World.sound_of_blank (w := (⟨none, disk⟩ : Session).world) blank.nothing rfl (.inl rfl)
  have before := World.outline_of_blank (w := (⟨none, disk⟩ : Session).world) blank.nothing rfl
  have run := perform_of_ensures (sound.ensures_openRoot options now rfl (blank.nothing _) (.inr (.inl rfl)))
    (by rwa [opens]) (id : disk.Faulty → disk.Faulty)
  rw [opens, before] at run
  obtain ⟨sound', opened⟩ := run
  refine ⟨sound', ?_⟩
  rcases opened with ⟨self, data, ok, _, outline⟩ | ⟨hf, failed, _⟩
  · exact .inl ⟨self, data, ok, outline⟩
  · exact .inr ⟨hf, failed⟩

/-- A call keeps a store sound and follows its plan. -/
theorem Performs.follows (performed : s.Performs now call r t) (h : s.world.Sound) : t.world.Sound ∧
    Outline.Follows s.disk.Faulty (s.world.outline.plan now call) s.world.outline r t.world.outline := by
  obtain ⟨run, supplied⟩ := performed
  have ends := perform_of_ensures (h.ensures_perform now call) (by rwa [run]) (id : s.disk.Faulty → s.disk.Faulty)
  rwa [run] at ends

/-- The answer of a call told in another form. -/
theorem perform_map {α β : Type} (s : Session) (f : α → β) (x : Action α) :
    s.perform (f <$> x) = ((s.perform x).1.map f, (s.perform x).2) := by
  have mapped : (f <$> x).run.run s.cache = (x.run.run s.cache).bind fun p => .done (p.1.map f, p.2) := by
    change Access.bind _ _ = _
    refine congrArg (Access.bind _) (funext fun p => ?_)
    obtain ⟨r, c⟩ := p
    cases r <;> rfl
  simp only [perform, Disk.perform, mapped, Access.run_bind]
  rfl

/-- An action that is that of a call, but for how its answer is told. -/
theorem performs_of_perform {α : Type} {x : Action α} {r : Except Failure α} (now : Int64) (call : Call) (f : α → Answer)
    (is : call.perform now = f <$> x) (ran : s.perform x = (r, t)) (supplied : t.disk.Supplied) :
    s.Performs now call (r.map f) t := by
  constructor
  · rw [is, perform_map, ran]
  · exact supplied

/-- A reachable volume is sound and has its root. -/
theorem Reachable.sound_root (h : Reachable s) : s.world.Sound ∧ s.world.outline.root.isSome := by
  induction h with
  | opened blank options now ok supplied =>
    obtain ⟨sound, ⟨self, data, _, outline⟩ | ⟨_, f, failed⟩⟩ :=
      perform_openRoot blank options now ok supplied
    · exact ⟨sound, by rw [outline]; rfl⟩
    · cases failed
  | called _ performed ih =>
    obtain ⟨sound, follows⟩ := performed.follows ih.1
    exact ⟨sound, follows.isSome_root.trans ih.2⟩
  | failing _ getFails putFails fault ih => exact ih

theorem Reachable.sound (h : Reachable s) : s.world.Sound := h.sound_root.1

theorem Reachable.exists_cached (h : Reachable s) : ∃ r, s.cache = some r := by
  obtain ⟨i, there⟩ := Option.isSome_iff_exists.mp h.sound_root.2
  obtain ⟨r, cached, _⟩ := Option.map_eq_some_iff.mp there
  exact ⟨r, cached⟩

end Session

/-- A blank disk that counts up its identifiers. -/
def Disk.counting : Disk := { supply := fun n => Id.ofNat (n + 1) }

theorem Disk.supplied_of_counting {disk : Disk} (supply : disk.supply = counting.supply)
    (few : disk.issued < UInt64.size - 1) : disk.Supplied := by
  have lo (n : Nat) (before : n < disk.issued) : (disk.supply n).lo.toNat = n + 1 := by
    rw [supply]
    exact UInt64.toNat_ofNat_of_lt' (by omega)
  have hi (n : Nat) (before : n < disk.issued) : (disk.supply n).hi = 0 := by
    have none : (n + 1) / UInt64.size = 0 := Nat.div_eq_of_lt (by omega)
    rw [supply]
    simp only [counting, Id.ofNat, none]
    rfl
  refine ⟨fun m hm n hn same => ?_, fun n hn same => ?_, fun n hn same => ?_⟩
  · have next := lo m hm
    rw [same, lo n hn] at next
    omega
  · have next := lo n hn
    rw [same] at next
    cases next
  · have none := hi n hn
    rw [same] at none
    cases none

namespace Session

/-- A volume that was just made. -/
def first : Session := (perform ⟨none, .counting⟩ (openRoot {} 0)).2

theorem reachable_first : Reachable first :=
  have opens : perform ⟨none, .counting⟩ (openRoot {} 0) = (.ok (), first) := rfl
  .opened ⟨rfl, rfl⟩ {} 0 opens (Disk.supplied_of_counting rfl (by decide))

end Session
end RecordFs
