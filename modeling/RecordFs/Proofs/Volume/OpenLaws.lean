import RecordFs.Proofs.Volume.Asking
import RecordFs.Proofs.Volume.FlatArray
import RecordFs.Proofs.Volume.Observing
import RecordFs.Proofs.Volume.Opening
import RecordFs.Proofs.Volume.Reopening

/-! Opening is all or nothing. A store that names a root stays as it is and is opened or refused; one that
names none gets an empty root, and names none still when a call failed on the way. -/
namespace RecordFs
open Function Volume

namespace Disk

/-- What becomes of a store by opening volumes on it, any number of times and with any calls failing. -/
inductive Openings (disk : Disk) : Disk → Prop where
  | none : Openings disk disk
  | open {before after : Disk} {options : Options} {now : Int64} {r : Except Failure Unit} {s : Session}
      (h : Openings disk before) (same : after.find? = before.find?)
      (ran : Session.perform ⟨.none, after⟩ (openRoot options now) = (r, s)) : Openings disk s.disk

end Disk

namespace Session
open Outline (newRoot)
variable {disk : Disk} {options : Options} {now : Int64} {r : Except Failure Unit} {s : Session}

/-- An empty root was made under two new keys: three records were added, and it is in memory. -/
structure Begun (disk : Disk) (options : Options) (now : Int64) (key data : Id) (s : Session) : Prop where
  new : disk.find? key = none ∧ disk.find? data = none
  distinct : key ≠ data ∧ key ≠ .rootPointer ∧ data ≠ .rootPointer
  table : s.disk.find? data = some (Stored.encode (Directory.empty data))
  root : s.disk.find? key = some (Stored.encode (newRoot options now key data))
  pointer : s.disk.find? .rootPointer = some (Stored.encode (RootPointer.mk key))
  others : ∀ id, id ≠ data → id ≠ key → id ≠ .rootPointer → s.disk.find? id = disk.find? id
  cache : s.cache = some ⟨key, newRoot options now key data⟩
  kind : (newRoot options now key data).kind = .directory
  permissions : (newRoot options now key data).permissions = options.rootPermissions &&& Mode.permissionMask
  attributes : s.observe (attributes "/") = .ok (.ofInode (newRoot options now key data))
  names : s.observe (names "/") = .ok [".", ".."]

/-- What holds of opening a volume on a store. -/
structure OpenLaws (disk : Disk) (options : Options) (now : Int64) (r : Except Failure Unit) (s : Session) : Prop where
  /-- A store with something under the fixed key is only read. Unless a get fails, it opens exactly if that
  leads to a directory, which is then the root. -/
  named : ∀ pointer, disk.find? .rootPointer = some pointer → disk.Consulted s.disk ∧ (disk.Quiet s.disk →
    (r = .ok () ↔ ∃ root, Disk.Leads disk.find? pointer root) ∧
      ∀ root, Disk.Leads disk.find? pointer root → s.cache = some ⟨root.self, root⟩)
  /-- A store with nothing there gets an empty root. -/
  unnamed : disk.find? .rootPointer = none → disk.Quiet s.disk →
    r = .ok () ∧ ∃ key data, s.Begun disk options now key data
  /-- A call that fails is the reply, and the fixed key is as it was. -/
  failed : ¬ disk.Quiet s.disk → r = .error (.ofFault disk.fault) ∧
    s.disk.find? .rootPointer = disk.find? .rootPointer
  /-- The root that was opened is opened ever after, by whatever is opened on the store: nothing is put any more. -/
  later : r = .ok () → ∀ before, s.disk.Openings before → before.find? = s.disk.find? ∧
    ∀ (again : Disk) (options' : Options) (now' : Int64) (r' : Except Failure Unit) (t : Session),
      again.find? = before.find? → perform ⟨none, again⟩ (openRoot options' now') = (r', t) →
        again.Consulted t.disk ∧ (again.Quiet t.disk → r' = .ok () ∧ t.cache = s.cache)
  /-- Where a root could not be made, it is made by opening once more, with an empty root. -/
  retried : disk.find? .rootPointer = none → ¬ disk.Quiet s.disk →
    ∀ (again : Disk) (options' : Options) (now' : Int64) (r' : Except Failure Unit) (t : Session),
      again.find? = s.disk.find? → perform ⟨none, again⟩ (openRoot options' now') = (r', t) → again.Quiet t.disk →
        t.disk.Fresh again.Occupied again.issued → r' = .ok () ∧ ∃ key data, t.Begun again options' now' key data

theorem find?_of_consulted {a b : Disk} (consulted : a.Consulted b) : b.find? = a.find? := by
  obtain ⟨gets, trace, rfl⟩ := consulted
  rfl

theorem halting_openRoot (options : Options) (now : Int64) : Halting (openRoot options now) := by
  have attached {x : Action Inode} (h : Halting x) : Halting (do let root ← x; let _ ← Store.attachRoot root) := by
    refine h.bind fun root => Halting.bind ?_ fun _ => .pure _
    apply Halting.cache.bind
    rintro (none | held)
    · exact (Halting.setCache _).bind fun _ => .pure _
    · exact .pure _
  have named : Halting (Store.contains .rootPointer) := (Halting.get _).bind fun _ => .pure _
  refine named.bind fun present => .ite (attached ?_) (attached ?_)
  · refine (Halting.load .rootPointer).bind fun pointer => (Halting.load _).bind fun root => ?_
    exact .ite (.pure _) ((Halting.throw _).bind fun _ => .pure _)
  · refine Halting.freshId.bind fun self => Halting.freshId.bind fun data => ?_
    exact (Halting.save data _).bind fun _ => (Halting.save _ _).bind fun _ => (Halting.save _ _).bind fun _ => .pure _

theorem quiet_or_failed_openRoot (ran : perform ⟨none, disk⟩ (openRoot options now) = (r, s)) :
    disk.Quiet s.disk ∨ r = .error (.ofFault disk.fault) := by
  have ends := Disk.quiet_or_failed (halting_openRoot options now none) disk
  cases ran
  exact ends

/-- A store with something under the fixed key is only read. -/
theorem openRoot_of_named {pointer : ByteArray} (found : disk.find? .rootPointer = some pointer)
    (ran : perform ⟨none, disk⟩ (openRoot options now) = (r, s)) :
    disk.Consulted s.disk ∧ (disk.Quiet s.disk → (r = .ok () ↔ ∃ root, Disk.Leads disk.find? pointer root) ∧
      ∀ root, Disk.Leads disk.find? pointer root → s.cache = some ⟨root.self, root⟩) := by
  have looks (faulty : Prop) := World.exists_looks_openRoot (w := (⟨none, disk⟩ : Session).world) faulty rfl found
  have run := run_of_perform ran
  have consulted := Disk.consulted_run ((looks disk.Faulty).choose_spec.2 options now) id
  have calm := Disk.run_calm ((openRoot options now).run.run none) disk
  rw [run] at consulted calm
  refine ⟨consulted, fun quiet => ?_⟩
  -- That no call fails is known of this run only, so it is run again on a disk that never fails.
  obtain ⟨v, leads, opens⟩ := looks False
  have calmed : ((openRoot options now).run.run none).Looks False disk.calm.stock _ := opens options now
  have reply := Disk.run_looks calmed disk.not_faulty_calm
  rw [calm quiet] at reply
  obtain ⟨rfl, cache⟩ := Prod.mk.inj (reply.resolve_right And.left)
  constructor
  · constructor
    · intro ok
      cases v with
      | ok root => exact ⟨root, (leads root).mp rfl⟩
      | error e => cases ok
    · rintro ⟨root, led⟩
      rw [(leads root).mpr led]
      rfl
  · intro root led
    rw [cache, (leads root).mpr led]
    rfl

section ensured
variable {α : Type} {taken : Id → Prop} {faulty : Prop} {Q : Except Failure α → World → Prop} {action : Action α}
  {s t : Session} {r : Except Failure α} (ran : s.perform action = (r, t)) (fresh : t.disk.Fresh taken s.disk.issued)
include ran fresh

/-- What is ensured of an action holds of a run that got new identifiers only. -/
theorem ensured_of_perform (ensures : Ensures faulty action (s.withTaken taken) Q) (fails : s.disk.Faulty → faulty) :
    ∃ taken', Q r (t.withTaken taken') := by
  have since : (s.withTaken taken).toStock = s.disk.since taken s.disk.issued := (Disk.since_issued s.disk taken).symm
  rw [Ensures, since] at ensures
  cases ran
  exact ⟨_, Disk.run_ensures_since ensures (Nat.le_refl _) fresh fails⟩

/-- If no call failed in it, what is ensured where none can fail. -/
theorem ensured_of_quiet (ensures : Ensures False action (s.withTaken taken) Q) (quiet : s.disk.Quiet t.disk) :
    ∃ taken', Q r (t.withTaken taken') := by
  cases ran
  exact ⟨_, Disk.run_ensures_of_quiet ensures quiet fresh⟩

end ensured

theorem begun_of_find {key data : Id} (newKey : ¬ disk.Occupied key) (newData : ¬ disk.Occupied data)
    (apart : key ≠ data) (find : s.disk.find? = World.begun disk.find? options now key data)
    (cache : s.cache = some ⟨key, newRoot options now key data⟩) : s.Begun disk options now key data := by
  have away : key ≠ .rootPointer := fun same => newKey (.inl same)
  have awayData : data ≠ .rootPointer := fun same => newData (.inl same)
  have kind : (newRoot options now key data).kind = .directory := Inode.kind_of_mode (k := .directory) rfl
  have table : s.disk.find? data = some (Stored.encode (Directory.empty data)) := by
    rw [find, World.begun, update_of_ne awayData, update_of_ne apart.symm, update_self]
  have stored : s.world.get Directory data = some (.empty data) := by
    rw [World.get, show s.world.find data = _ from table, Option.bind_some,
      Directory.readsBack (Directory.proper_empty data).fits]
    rfl
  have told : Yields False (attributes "/") s.world _ := World.yields_attributes_root cache
  have listed : Yields False (names "/") s.world _ := World.yields_names_root cache (Inode.isDirectory_iff.mpr kind) stored
  exact {
    new := ⟨Option.not_isSome_iff_eq_none.mp fun there => newKey (.inr there),
      Option.not_isSome_iff_eq_none.mp fun there => newData (.inr there)⟩
    distinct := ⟨apart, away, awayData⟩
    table
    root := by rw [find, World.begun, update_of_ne away, update_self]
    pointer := by rw [find, World.begun, update_self]
    others := fun id notData notKey notPointer => by
      rw [find, World.begun, update_of_ne notPointer, update_of_ne notKey, update_of_ne notData]
    cache
    kind
    permissions := Inode.permissions_of_mode (k := .directory) rfl
    attributes := observe_of_yields told
    names := observe_of_yields listed }

/-- A store with nothing under the fixed key gets a root, unless a call fails: then that key stays as it is. -/
theorem openRoot_of_unnamed (unnamed : disk.find? .rootPointer = none)
    (ran : perform ⟨none, disk⟩ (openRoot options now) = (r, s)) (fresh : s.disk.Fresh disk.Occupied disk.issued) :
    (r = .ok () ∧ ∃ key data, s.Begun disk options now key data) ∨
      ¬ disk.Quiet s.disk ∧ s.disk.find? .rootPointer = none := by
  have ensures (faulty : Prop) : Ensures faulty (openRoot options now) (withTaken ⟨none, disk⟩ disk.Occupied) _ :=
    World.ensures_openRoot_of_unnamed rfl unnamed (.inl rfl)
  by_cases quiet : disk.Quiet s.disk
  · obtain ⟨taken, ⟨key, data, rfl, newKey, newData, apart, find, cache⟩ | ⟨never, _⟩⟩ :=
      ensured_of_quiet ran fresh (ensures False) quiet
    · exact .inl ⟨rfl, key, data, begun_of_find newKey newData apart find cache⟩
    · exact never.elim
  · have failed := (quiet_or_failed_openRoot ran).resolve_left quiet
    obtain ⟨_, ⟨_, _, ok, _⟩ | ⟨_, _, kept⟩⟩ := ensured_of_perform ran fresh (ensures disk.Faulty) id
    · rw [failed] at ok
      cases ok
    · exact .inr ⟨quiet, kept⟩

/-- A store with something under the fixed key is what it was, however often it is opened. -/
theorem find?_openings {start now : Disk} (h : start.Openings now) {pointer : ByteArray}
    (found : start.find? .rootPointer = some pointer) : now.find? = start.find? := by
  induction h with
  | none => rfl
  | «open» _ same ran ih =>
    rw [← ih, ← same] at found
    obtain ⟨consulted, _⟩ := openRoot_of_named found ran
    exact (find?_of_consulted consulted).trans (same.trans ih)

/-- Opening a store whose fixed key leads to a directory. -/
theorem openRoot_of_leads {pointer : ByteArray} {root : Inode} (found : disk.find? .rootPointer = some pointer)
    (leads : Disk.Leads disk.find? pointer root) (ran : perform ⟨none, disk⟩ (openRoot options now) = (r, s)) :
    disk.Consulted s.disk ∧ (disk.Quiet s.disk → r = .ok () ∧ s.cache = some ⟨root.self, root⟩) := by
  obtain ⟨consulted, opens⟩ := openRoot_of_named found ran
  exact ⟨consulted, fun quiet => ⟨(opens quiet).1.mpr ⟨root, leads⟩, (opens quiet).2 root leads⟩⟩

/-- A root that was made is one that the fixed key leads to. -/
theorem Begun.leads {key data : Id} (h : s.Begun disk options now key data) : ∃ pointer,
    s.disk.find? .rootPointer = some pointer ∧ Disk.Leads s.disk.find? pointer (newRoot options now key data) := by
  have sizePointer := Stored.Sized.size_encode (RootPointer.mk key)
  have size := Stored.Sized.size_encode (newRoot options now key data)
  have readPointer := (Stored.read_of_size sizePointer).symm.trans (Stored.Exact.reads_back _)
  have read := (Stored.read_of_size size).symm.trans (Stored.Exact.reads_back _)
  have named : Id.ofBytes (Stored.encode (RootPointer.mk key)).data.toList = key :=
    congrArg RootPointer.root (Except.ok.inj readPointer)
  have directory := typed_type .directory options.rootPermissions
  exact ⟨_, h.pointer, sizePointer, ⟨_, named.symm ▸ h.root, size, Except.ok.inj read⟩, directory⟩

/-- What was opened is what the fixed key leads to from then on. -/
theorem leads_of_openRoot (ran : perform ⟨none, disk⟩ (openRoot options now) = (r, s))
    (fresh : s.disk.Fresh disk.Occupied disk.issued) (ok : r = .ok ()) : ∃ pointer root,
      s.disk.find? .rootPointer = some pointer ∧ Disk.Leads s.disk.find? pointer root ∧
        s.cache = some ⟨root.self, root⟩ := by
  cases found : disk.find? .rootPointer with
  | none =>
    obtain ⟨_, key, data, begun⟩ := (openRoot_of_unnamed found ran fresh).resolve_right fun failed => by
      cases ok.symm.trans ((quiet_or_failed_openRoot ran).resolve_left failed.1)
    obtain ⟨pointer, named, leads⟩ := begun.leads
    exact ⟨pointer, _, named, leads, begun.cache⟩
  | some pointer =>
    obtain ⟨consulted, opens⟩ := openRoot_of_named found ran
    have quiet := (quiet_or_failed_openRoot ran).resolve_right fun failed => nomatch ok.symm.trans failed
    obtain ⟨root, leads⟩ := (opens quiet).1.mp ok
    rw [find?_of_consulted consulted]
    exact ⟨pointer, root, found, leads, (opens quiet).2 root leads⟩

/-- Opening is all or nothing, on every store. -/
theorem openLaws_of_perform (ran : perform ⟨none, disk⟩ (openRoot options now) = (r, s))
    (fresh : s.disk.Fresh disk.Occupied disk.issued) : OpenLaws disk options now r s where
  named pointer found := openRoot_of_named found ran
  unnamed none quiet := (openRoot_of_unnamed none ran fresh).resolve_right fun failed => failed.1 quiet
  failed noisy := by
    refine ⟨(quiet_or_failed_openRoot ran).resolve_left noisy, ?_⟩
    cases found : disk.find? .rootPointer with
    | some pointer => rw [find?_of_consulted (openRoot_of_named found ran).1, found]
    | none =>
      rcases openRoot_of_unnamed found ran fresh with ⟨ok, _⟩ | ⟨_, kept⟩
      · cases ok.symm.trans ((quiet_or_failed_openRoot ran).resolve_left noisy)
      · exact kept
  later ok before opened := by
    obtain ⟨pointer, root, found, leads, cache⟩ := leads_of_openRoot ran fresh ok
    have same := find?_openings opened found
    refine ⟨same, fun again options' now' r' t same' ran' => ?_⟩
    have find := same'.trans same
    rw [cache]
    exact openRoot_of_leads (by rw [find, found]) (find ▸ leads) ran'
  retried none noisy again options' now' r' t same ran' quiet fresh' := by
    have kept := ((openRoot_of_unnamed none ran fresh).resolve_left fun ⟨ok, _⟩ => ?_).2
    · exact (openRoot_of_unnamed (by rw [same, kept]) ran' fresh').resolve_right fun failed => failed.1 quiet
    · cases ok.symm.trans ((quiet_or_failed_openRoot ran).resolve_left noisy)

/-- A disk with one record of something else, on which the third put fails. -/
def torn : Disk := { Disk.counting with records := ⟨[(.ofNat 900, ⟨#[7]⟩)]⟩, putFails := (· = 2) }

/-- The root is in the store but nothing names it, so opening again makes another one. -/
theorem openLaws_torn : ∃ s t, perform ⟨none, torn⟩ (openRoot {} 0) = (.error (.ofFault torn.fault), s) ∧
    s.disk.find? .rootPointer = none ∧ perform ⟨none, s.disk⟩ (openRoot {} 5) = (.ok (), t) ∧
    t.observe (names "/") = .ok [".", ".."] := by
  have distinct (disk : Disk) (supply : disk.supply = Disk.counting.supply) (issued : disk.issued ≤ 4) :=
    (Disk.supplied_of_counting supply (Nat.lt_of_le_of_lt issued (by decide))).distinct
  have like := like_perform ⟨none, torn⟩ (openRoot {} 0)
  have counts : (perform ⟨none, torn⟩ (openRoot {} 0)).2.disk.issued = 2 ∧
      (perform ⟨none, torn⟩ (openRoot {} 0)).2.disk.puts = 3 := by decide
  have new : ∀ n < 4, 2 ≤ n → ¬ (torn.supply n = .rootPointer ∨
      ((perform ⟨none, torn⟩ (openRoot {} 0)).2.disk.find? (torn.supply n)).isSome) := by decide
  generalize ran : perform ⟨none, torn⟩ (openRoot {} 0) = out at like counts new
  obtain ⟨r, s⟩ := out
  obtain ⟨issued, puts⟩ : s.disk.issued = 2 ∧ s.disk.puts = 3 := counts
  have fresh : s.disk.Fresh torn.Occupied 0 := by
    have free : ∀ n < 2, ¬ (torn.supply n = .rootPointer ∨ (torn.find? (torn.supply n)).isSome) := by decide
    refine ⟨fun n _ before => ?_, fun m _ hm n _ hn => distinct s.disk like.supply (by omega) m hm n hn⟩
    rw [like.supply]
    exact free n (issued ▸ before)
  have laws := openLaws_of_perform ran fresh
  have noisy : ¬ torn.Quiet s.disk := fun quiet => nomatch quiet.puts 2 (by decide) (puts ▸ by decide)
  obtain ⟨rfl, kept⟩ := laws.failed noisy
  have like' := like_perform ⟨none, s.disk⟩ (openRoot {} 5)
  generalize ran' : perform ⟨none, s.disk⟩ (openRoot {} 5) = out at like'
  obtain ⟨r', t⟩ := out
  have few : t.disk.issued ≤ s.disk.issued + 2 := by
    have least := Disk.issued_run_le (Asks.openRoot 5 {} none) s.disk
    rwa [run_of_perform ran'] at least
  have supply : t.disk.supply = torn.supply := like'.supply.trans like.supply
  have fresh' : t.disk.Fresh s.disk.Occupied s.disk.issued := by
    refine ⟨fun n since before => ?_, fun m _ hm n _ hn => distinct t.disk supply (by omega) m hm n hn⟩
    rw [supply]
    exact new n (by omega) (by omega)
  have quiet : s.disk.Quiet t.disk := by
    refine ⟨fun k _ _ => ?_, fun k after _ => ?_⟩
    · rw [like.getFails]
      rfl
    · rw [like.putFails]
      exact decide_eq_false (by omega)
  obtain ⟨rfl, key, data, begun⟩ := laws.retried rfl noisy s.disk {} 5 r' t rfl ran' quiet fresh'
  exact ⟨s, t, rfl, kept, ran', begun.names⟩

end Session
end RecordFs
