import RecordFs.Proofs.Renaming.Runs
import RecordFs.Proofs.Volume.Rooted

/-! Opening a volume again. The root in memory is always the one that is stored, so a new session on
the same store starts where the old one stood, and replies as the old one would have, but for the
identifiers that each of them hands out from then on. -/
namespace RecordFs
open Volume

namespace Renaming
variable {a b : Disk}

/-- The renaming that now sends one identifier to another one, and what went there to where the first one was sent. -/
def redirect (σ : Renaming) {x y : Id} (x₀ : x ≠ .zero) (x₁ : x ≠ .rootPointer) (y₀ : y ≠ .zero) (y₁ : y ≠ .rootPointer) :
    Renaming where
  perm := σ.perm.trans (.swap (rename σ x) y)
  zero := by
    have other : Id.zero ≠ rename σ x := fun same => x₀ ((rename_eq_zero σ).mp same.symm)
    rw [Equiv.trans_apply, σ.zero, Equiv.swap_apply_of_ne_of_ne other y₀.symm]
  rootPointer := by
    have other : Id.rootPointer ≠ rename σ x := fun same => x₁ ((rename_inj σ).mp (same.symm.trans (rename_rootPointer σ).symm))
    rw [Equiv.trans_apply, σ.rootPointer, Equiv.swap_apply_of_ne_of_ne other y₁.symm]

/-- Two supplies are the same under other names, as far as both hand out no identifier twice. -/
theorem exists_matching (ha : a.Supplied) (hb : b.Supplied) {n : Nat} (le : n ≤ a.issued) (le' : n ≤ b.issued) :
    ∃ σ : Renaming, ∀ k < n, b.supply k = rename σ (a.supply k) := by
  induction n with
  | zero => exact ⟨⟨.refl Id, rfl, rfl⟩, nofun⟩
  | succ n ih =>
    obtain ⟨σ, matched⟩ := ih (Nat.le_of_succ_le le) (Nat.le_of_succ_le le')
    refine ⟨σ.redirect (ha.ne_zero n le) (ha.ne_rootPointer n le) (hb.ne_zero n le') (hb.ne_rootPointer n le'), ?_⟩
    intro k before
    -- The swap leaves the earlier matches alone, since neither supply hands out an identifier twice.
    change _ = Equiv.swap (rename σ (a.supply n)) (b.supply n) (rename σ (a.supply k))
    rcases Nat.lt_succ_iff_lt_or_eq.mp before with before | rfl
    · have other : rename σ (a.supply k) ≠ rename σ (a.supply n) := by
        intro same
        have index := ha.distinct k (by omega) n le ((rename_inj σ).mp same)
        omega
      have other' : rename σ (a.supply k) ≠ b.supply n := by
        intro same
        rw [← matched k before] at same
        have index := hb.distinct k (by omega) n le' same
        omega
      rw [Equiv.swap_apply_of_ne_of_ne other other', matched k before]
    · rw [Equiv.swap_apply_left]

end Renaming

/-- Which calls fail from now on, counted from the next one, and with which reply. -/
structure Failures where
  gets : Nat → Bool
  puts : Nat → Bool
  fault : Fault

/-- A disk with the records of another one. Its identifiers go on after those that were handed out,
maybe in another way. -/
structure Disk.Resumes (a b : Disk) : Prop where
  records : b.records = a.records
  hidden : b.hidden = a.hidden
  issued : b.issued = a.issued
  supply : ∀ n < a.issued, b.supply n = a.supply n

theorem Disk.Resumes.consulted {a b c : Disk} (h : a.Resumes b) (consulted : b.Consulted c) : a.Resumes c := by
  obtain ⟨gets, trace, rfl⟩ := consulted
  exact ⟨h.records, h.hidden, h.issued, h.supply⟩

namespace World
variable {faulty : Prop} {w : World} {p : RootPointer} {i : Inode}

/-- The root that is stored is taken into memory, and nothing is put. -/
theorem looks_openRoot (closed : w.cache = none) (pointer : w.get RootPointer .rootPointer = some p)
    (stored : w.get Inode p.root = some i) (is : i.isDirectory = true) (options : Options) (now : Int64) :
    ((openRoot options now).run.run none).Looks faulty w.toStock fun r =>
      r = (.ok (), some ⟨i.self, i⟩) ∨ faulty ∧ ∃ f, r.1 = .error (.ofFault f) := by
  obtain ⟨bytes, found, _⟩ := find_of_get pointer
  have named : Yields faulty (Store.contains .rootPointer) w (.ok true) := by
    refine .bind_ok (Store.yields_get .rootPointer) ?_
    rw [found]
    exact .pure true
  have loaded : Yields faulty loadRoot w (.ok i) := by
    refine .bind_ok (Store.yields_load pointer) (.bind_ok (Store.yields_load stored) ?_)
    rw [if_pos is]
    exact .pure i
  rw [Yields, closed] at named loaded
  apply (Access.looks_bind _ _ _ _).mpr
  apply Access.looks_mono _ named
  rintro ⟨r, c⟩ ⟨rfl, rfl | ⟨hf, f, rfl⟩⟩
  · apply (Access.looks_bind _ _ _ _).mpr
    apply Access.looks_mono _ loaded
    rintro ⟨r, c⟩ ⟨rfl, rfl | ⟨hf, f, rfl⟩⟩
    · exact .inl rfl
    · exact .inr ⟨hf, f, rfl⟩
  · exact .inr ⟨hf, f, rfl⟩

end World

namespace Session
open Renaming
variable {σ : Renaming} {s t : Session}

/-- From now on these calls fail. -/
def ahead (s : Session) (failures : Failures) : Session :=
  s.failing (fun k => failures.gets (k - s.disk.gets)) (fun k => failures.puts (k - s.disk.puts)) failures.fault

theorem sameFailures_ahead (s t : Session) (failures : Failures) : (s.ahead failures).disk.SameFailures (t.ahead failures).disk := by
  refine ⟨fun k => ?_, fun k => ?_, rfl⟩
  · simp only [ahead, failing, Nat.add_sub_cancel_left]
  · simp only [ahead, failing, Nat.add_sub_cancel_left]

/-- What is stored has no other identifiers than those that were handed out: where these keep their
names, so does everything. -/
theorem Reachable.mirrored (h : Reachable s) (fixes : ∀ n < s.disk.issued, s.disk.supply n = rename σ (s.disk.supply n)) :
    s.Mirrored σ s.disk.issued s := by
  have same (disk : Disk) : disk.SameFailures disk := ⟨fun _ => rfl, fun _ => rfl, rfl⟩
  induction h with
  | @opened disk s blank options now ok supplied =>
    have like := like_perform ⟨none, disk⟩ (openRoot options now)
    rw [ok] at like
    have start : Mirrored σ s.disk.issued ⟨none, disk⟩ ⟨none, disk⟩ := by
      refine ⟨rfl, fun id => ?_, same disk, rfl, fun n _ before => ?_⟩
      · rw [blank.nothing, blank.nothing]
        exact .none
      · rw [← like.supply]
        exact fixes n before
    have opened := (start.perform (mirrors_openRoot σ now options) (.inl (by rw [ok]))).2
    rwa [ok] at opened
  | @called s t now call r h performed ih =>
    have like := s.like_perform (call.perform now)
    rw [performed.run] at like
    rw [like.supply] at fixes
    have before := ih fun n before => fixes n (Nat.lt_of_lt_of_le before like.issued)
    have start : Mirrored σ t.disk.issued s s := ⟨before.cache, { before.disk with supply := fun n _ => fixes n }⟩
    have done := (start.perform (mirrors_perform σ now call) (.inl (by rw [performed.run]))).2
    rwa [performed.run] at done
  | failing h getFails putFails fault ih =>
    have before := ih fixes
    exact ⟨before.cache, { before.disk with failures := same _ }⟩

/-- The same calls, of which the same ones fail in the store, get the same replies in both sessions, but for the
identifiers that come from then on: the one session has its own where the other one has others. -/
def RunsAlike (s t : Session) : Prop := ∀ (failures : Failures) (calls : List (Int64 × Call)),
  let old := (s.ahead failures).run calls
  let new := (t.ahead failures).run calls
  old.2.disk.Supplied → new.2.disk.Supplied → ∃ σ : Renaming,
    (∀ n < s.disk.issued, rename σ (s.disk.supply n) = s.disk.supply n) ∧
    (∀ n < old.2.disk.issued, rename σ (old.2.disk.supply n) = new.2.disk.supply n) ∧
    new.1 = old.1.map (rename σ)

/-- What holds of a volume that can be opened again. -/
structure ReopenLaws (s : Session) : Prop where
  /-- The root in memory is the record that is stored under its key. -/
  cached : ∃ root bytes, s.cache = some root ∧ s.disk.find? root.key = some bytes ∧
    Stored.read Inode bytes = .ok root.inode
  /-- Opening puts nothing, and it succeeds if no get fails. -/
  opens : ∀ (disk : Disk), s.disk.Resumes disk → ∀ (options : Options) (now : Int64) (r : Except Failure Unit) (t : Session),
    perform ⟨none, disk⟩ (openRoot options now) = (r, t) → disk.Consulted t.disk ∧ (disk.Quiet t.disk → r = .ok ())
  /-- Once it is open again, it is as if it had been open all the time. -/
  runsAlike : ∀ (disk : Disk), s.disk.Resumes disk → ∀ (options : Options) (now : Int64) (t : Session),
    perform ⟨none, disk⟩ (openRoot options now) = (.ok (), t) → t.cache = s.cache ∧ s.RunsAlike t

theorem Reachable.runsAlike (h : Reachable s) (cache : t.cache = s.cache) (resumes : s.disk.Resumes t.disk) : s.RunsAlike t := by
  intro failures calls old new supplied supplied'
  have like : s.disk.supply = old.2.disk.supply := (like_run (s.ahead failures) calls).supply.symm
  have like' : t.disk.supply = new.2.disk.supply := (like_run (t.ahead failures) calls).supply.symm
  have more : s.disk.issued ≤ old.2.disk.issued := (like_run (s.ahead failures) calls).issued
  have more' : t.disk.issued ≤ new.2.disk.issued := (like_run (t.ahead failures) calls).issued
  rw [resumes.issued] at more'
  -- Only after the runs are known to go alike is it known that both take as many identifiers, so
  -- they are matched up to the smaller number.
  obtain ⟨σ, matched⟩ := exists_matching supplied supplied' (Nat.min_le_left old.2.disk.issued new.2.disk.issued)
    (Nat.min_le_right _ _)
  rw [← like, ← like'] at matched
  have fixes : ∀ n < s.disk.issued, s.disk.supply n = rename σ (s.disk.supply n) := by
    intro n before
    rw [← matched n (by omega), resumes.supply n before]
  have self := h.mirrored fixes
  have found (id : Id) : t.disk.find? id = s.disk.find? id := by
    rw [Disk.find?, Disk.find?, resumes.records, resumes.hidden]
  have start : Mirrored σ (min old.2.disk.issued new.2.disk.issued) (s.ahead failures) (t.ahead failures) := by
    refine ⟨cache.trans self.cache, fun id => ?_, sameFailures_ahead s t failures, resumes.issued, fun n _ => matched n⟩
    have same := self.disk.find id
    rwa [← found (rename σ id)] at same
  obtain ⟨replies, ends⟩ := start.run calls (by
    change old.2.disk.issued ≤ _ ∨ new.2.disk.issued ≤ _
    omega)
  have issued : new.2.disk.issued = old.2.disk.issued := ends.disk.issued
  refine ⟨σ, fun n before => (fixes n before).symm, fun n before => ?_, replies⟩
  rw [← like, ← like', matched n (by omega)]

theorem run_of_perform {α : Type} {action : Action α} {r : Except Failure α} (performed : s.perform action = (r, t)) :
    (action.run.run s.cache).run Disk.backend s.disk = ((r, t.cache), t.disk) := by
  cases performed
  rfl

/-- Opening finds the root that the earlier session had in memory. -/
theorem Reachable.looks_openRoot (h : Reachable s) {disk : Disk} (resumes : s.disk.Resumes disk) (faulty : Prop)
    (options : Options) (now : Int64) : ((openRoot options now).run.run none).Looks faulty disk.stock fun r =>
      r = (.ok (), s.cache) ∨ faulty ∧ ∃ f, r.1 = .error (.ofFault f) := by
  obtain ⟨_, there⟩ := h.exists_cached
  have rooted : s.world.Rooted := h.sound.rooted_of_cached there
  obtain ⟨r, p, cached, pointer, key, stored⟩ := rooted.cached
  obtain ⟨p', i, pointer', stored', is⟩ := rooted.root
  rw [pointer] at pointer'
  cases pointer'
  rw [key, stored] at stored'
  cases stored'
  obtain ⟨i, stored', self⟩ := rooted.entry p.root (.root pointer)
  rw [key, stored] at stored'
  cases stored'
  have found (id : Id) : (⟨none, disk⟩ : Session).world.find id = s.world.find id := by
    change disk.find? id = s.disk.find? id
    rw [Disk.find?, Disk.find?, resumes.records, resumes.hidden]
  have pointer' := (World.get_of_find_eq (ρ := RootPointer) (found .rootPointer)).trans pointer
  have stored' := (World.get_of_find_eq (ρ := Inode) (found p.root)).trans (key ▸ stored)
  have looks : ((openRoot options now).run.run none).Looks faulty disk.stock _ :=
    World.looks_openRoot rfl pointer' stored' is options now
  rw [self, key] at looks
  have held : s.cache = some r := cached
  rw [held]
  exact looks

/-- A volume can be opened again at any time. -/
theorem Reachable.reopenLaws (h : Reachable s) : s.ReopenLaws where
  cached := by
    obtain ⟨r, cached⟩ := h.exists_cached
    obtain ⟨_, stored⟩ := h.sound.root r cached
    obtain ⟨bytes, found, read⟩ := World.find_of_get stored
    exact ⟨r, bytes, cached, found, read⟩
  opens disk resumes options now r t opened := by
    have run := run_of_perform opened
    have consulted := Disk.consulted_run (h.looks_openRoot resumes disk.Faulty options now) id
    rw [run] at consulted
    refine ⟨consulted, fun quiet => ?_⟩
    have calm := Disk.run_calm _ disk (by rwa [run])
    rw [run] at calm
    have looks : ((openRoot options now).run.run none).Looks False disk.calm.stock _ :=
      h.looks_openRoot resumes False options now
    have reply := Disk.run_looks looks disk.not_faulty_calm
    rw [calm] at reply
    rcases reply with reply | ⟨never, _⟩
    · exact congrArg Prod.fst reply
    · exact never.elim
  runsAlike disk resumes options now t opened := by
    have run := run_of_perform opened
    have looks := h.looks_openRoot resumes disk.Faulty options now
    have consulted := Disk.consulted_run looks id
    have reply := Disk.run_looks looks id
    rw [run] at consulted reply
    rcases reply with reply | ⟨_, f, failed⟩
    · have cache : t.cache = s.cache := congrArg Prod.snd reply
      exact ⟨cache, h.runsAlike cache (resumes.consulted consulted)⟩
    · cases failed

/-- A file in a directory, after a write that its full store refused: another owner opens it again when there is room. -/
theorem reopenLaws_far : ∃ f s t, far.full.Performs 4 (.write "/d/f" "y".toUTF8 0) (.error (.ofFault f)) s ∧
    s.Reachable ∧ s.disk.Resumes s.disk.calm ∧
    perform ⟨none, s.disk.calm⟩ (openRoot { uid := 5, gid := 5 } 5) = (.ok (), t) ∧ t.cache = s.cache ∧ s.RunsAlike t := by
  obtain ⟨f, s, failed, _⟩ :=
    displays_far.fails_of_full (by decide) 4 (.write "/d/f" "y".toUTF8 0) "/d/f" (by decide +kernel)
  have reachable := displays_far.reachable.full.called failed
  have resumes : s.disk.Resumes s.disk.calm := ⟨rfl, rfl, rfl, fun _ _ => rfl⟩
  have laws := Reachable.reopenLaws reachable
  obtain ⟨⟨r, t⟩, opened⟩ : ∃ out, perform ⟨none, s.disk.calm⟩ (openRoot { uid := 5, gid := 5 } 5) = out := ⟨_, rfl⟩
  obtain rfl : r = .ok () := (laws.opens _ resumes _ _ _ _ opened).2 (Disk.quiet_of_steady s.disk.not_faulty_calm)
  obtain ⟨cache, alike⟩ := laws.runsAlike _ resumes _ _ _ opened
  exact ⟨f, s, t, failed, reachable, resumes, opened, cache, alike⟩

end Session
end RecordFs
