import RecordFs.Proofs.Volume.Altering
import RecordFs.Proofs.Volume.FailedWrites
import RecordFs.Proofs.Volume.OpenLaws
import RecordFs.Proofs.Volume.Refusals

/-! Actions one after another: what they reply together and what they leave follows from what each of them replies
and leaves. -/
namespace RecordFs
open Outline Volume

/-- Programs one after the other, with the root in memory that the first leaves. -/
theorem Disk.perform_bind {α β : Type} (disk : Disk) (x : StateT Cache Access α) (next : α → StateT Cache Access β)
    (cache : Cache) : disk.perform (x >>= next) cache =
      match disk.perform x cache with
      | (a, cache, disk) => disk.perform (next a) cache := by
  have is : (x >>= next).run cache = (x.run cache).bind fun p => (next p.1).run p.2 := rfl
  simp only [perform, is, Access.run_bind]

/-- What makes good a failure of a step that asks for none. -/
theorem Asks.tryCatch {α : Type} {n : Nat} {x : Action α} {handle : Failure → Action α} (h : Asks 0 x)
    (next : ∀ e, Asks n (handle e)) : Asks n (tryCatch x handle) := by
  intro cache
  refine (Nat.zero_add n) ▸ (h cache).bind ?_
  rintro ⟨r, cache⟩
  cases r with
  | ok a => trivial
  | error e => exact next e cache

namespace Session

section attempt
variable {ε α β : Type} {s t : Session} {x : ExceptT ε (StateT Cache Access) α}
  {f : α → ExceptT ε (StateT Cache Access) β} {r : Except ε α}

/-- What a program replies that has failures of its own, and the state after it. -/
def attempt (s : Session) (x : ExceptT ε (StateT Cache Access) α) : Except ε α × Session :=
  let (r, cache, disk) := s.disk.perform x.run s.cache
  (r, ⟨cache, disk⟩)

theorem attempt_bind (s : Session) (x : ExceptT ε (StateT Cache Access) α) (f : α → ExceptT ε (StateT Cache Access) β) :
    s.attempt (x >>= f) =
      match s.attempt x with
      | (.ok a, t) => t.attempt (f a)
      | (.error e, t) => (.error e, t) := by
  have is : (x >>= f).run = x.run >>= ExceptT.bindCont f := rfl
  simp only [attempt, is, Disk.perform_bind]
  obtain ⟨_ | _, _, _⟩ := s.disk.perform x.run s.cache <;> rfl

/-- What failed is made good, from where the failure came. -/
theorem attempt_tryCatch (s : Session) (x : ExceptT ε (StateT Cache Access) α)
    (handle : ε → ExceptT ε (StateT Cache Access) α) : s.attempt (tryCatch x handle) =
      match s.attempt x with
      | (.ok a, t) => (.ok a, t)
      | (.error e, t) => t.attempt (handle e) := by
  let next (r : Except ε α) : StateT Cache Access (Except ε α) := r.rec (fun e => (handle e).run) fun a => return .ok a
  have is : (tryCatch x handle).run = x.run >>= next := by
    change (ExceptT.tryCatch x handle).run = _
    rw [ExceptT.tryCatch]
    exact congrArg (x.run >>= ·) (funext fun r => r.rec (fun _ => rfl) fun _ => rfl)
  simp only [attempt, is, Disk.perform_bind]
  obtain ⟨_ | _, _, _⟩ := s.disk.perform x.run s.cache <;> rfl

/-- What runs first fails and ends the whole, or the rest starts from what it leaves. -/
theorem attempt_bind_cases {r : Except ε β} (ran : s.attempt (x >>= f) = (r, t)) :
    (∃ e, s.attempt x = (.error e, t) ∧ r = .error e) ∨
      ∃ a u, s.attempt x = (.ok a, u) ∧ u.attempt (f a) = (r, t) := by
  rw [attempt_bind] at ran
  generalize s.attempt x = out at ran ⊢
  obtain ⟨e | a, u⟩ := out
  · cases ran
    exact .inl ⟨e, rfl, rfl⟩
  · exact .inr ⟨a, u, rfl, ran⟩

theorem supplied_of_attempt (ran : s.attempt x = (r, t)) (supplied : t.disk.Supplied) : s.disk.Supplied := by
  have like := Disk.like_run (x.run.run s.cache) s.disk
  rw [← congrArg (fun p => p.2.disk) ran] at supplied
  exact like.supplied supplied

theorem supplied_of_frugal {n k : Nat} (frugal : (x.run.run s.cache).Frugal k) (ran : s.attempt x = (r, t))
    (supply : s.disk.supply = Disk.counting.supply) (issued : s.disk.issued ≤ n) (few : n + k < UInt64.size - 1) :
    t.disk.Supplied := by
  have supplied := Disk.supplied_of_frugal frugal supply issued few
  rwa [← congrArg (fun p => p.2.disk) ran]

/-- Programs in which nothing failed go the same way on a store that cannot fail. -/
theorem attempt_calm (ran : s.attempt x = (r, t)) (quiet : s.disk.Quiet t.disk) : s.calm.attempt x = (r, t.calm) := by
  obtain ⟨c, disk⟩ := s
  have same := Disk.run_calm (x.run.run c) disk
  simp only [attempt, Disk.perform, Prod.mk.injEq] at ran
  obtain ⟨rfl, rfl⟩ := ran
  exact congrArg (fun p => (p.1.1, (⟨p.1.2, p.2⟩ : Session))) (same quiet)

end attempt

variable {α β : Type} {s t u : Session} {x : Action α} {f : α → Action β} {r : Except Failure α}

/-- Actions are the programs with the failures of a volume. -/
theorem attempt_eq (s : Session) (x : Action α) : s.attempt x = s.perform x := rfl

theorem perform_bind_cases {r : Except Failure β} (ran : s.perform (x >>= f) = (r, t)) :
    (∃ e, s.perform x = (.error e, t) ∧ r = .error e) ∨ ∃ a u, s.perform x = (.ok a, u) ∧ u.perform (f a) = (r, t) :=
  attempt_bind_cases ran

theorem perform_tryCatch_cases {handle : Failure → Action α} (ran : s.perform (tryCatch x handle) = (r, t)) :
    (∃ a, s.perform x = (.ok a, t) ∧ r = .ok a) ∨ ∃ e u, s.perform x = (.error e, u) ∧ u.perform (handle e) = (r, t) := by
  rw [← attempt_eq, attempt_tryCatch, attempt_eq] at ran
  generalize s.perform x = out at ran ⊢
  obtain ⟨e | a, u⟩ := out
  · exact .inr ⟨e, u, rfl, ran⟩
  · cases ran
    exact .inl ⟨a, rfl, rfl⟩

/-- No entry stands at the path. -/
def Missing (s : Session) (path : String) : Prop := ∃ e, s.observe (attributes path) = .error e ∧ e.isNotFound = true

theorem exists_attributes {path : String} {c : ByteArray} (h : s.world.Sound) (held : s.content path = .ok c) :
    ∃ a, s.world.outline.attributes path = .ok a := by
  obtain ⟨i, _, found, _⟩ := (content_eq_ok h).mp held
  exact ⟨_, Outline.attributes_eq_ok.mpr ⟨i, (Outline.resolveFile_eq_ok.mp found).1, rfl⟩⟩

/-- What is told of is not missing. -/
theorem not_missing {path : String} {a : Attributes} (h : s.world.Sound) (told : s.world.outline.attributes path = .ok a) :
    ¬ s.Missing path := by
  rintro ⟨e, missing, _⟩
  cases missing.symm.trans ((observe_attributes h path).trans told)

/-- A path that a tree does not find is missing in a volume that shows the tree. -/
theorem Shows.missing {tree : Tree} {path : String} (shows : s.Shows tree) (lost : tree.told path = .error (.notFound path)) :
    s.Missing path := by
  rw [shows.outline.told shows.sound.outline] at lost
  refine ⟨.notFound path, (observe_attributes shows.sound path).trans ?_, rfl⟩
  cases told : s.world.outline.attributes path with
  | error e =>
    rw [told] at lost
    cases lost
    rfl
  | ok a =>
    rw [told] at lost
    cases lost

theorem Kept.observe_attributes (h : s.Kept t) (sound : s.world.Sound) (sound' : t.world.Sound) (path : String) :
    t.observe (attributes path) = s.observe (attributes path) := by
  rw [Session.observe_attributes sound', Session.observe_attributes sound, h.outline]

section refused
variable {now : Int64} {call : Call} {r : Except Failure Answer} {e : Failure} (h : s.world.Sound)
  (steady : ¬ s.disk.Faulty) (performed : s.Performs now call r t)
include h steady performed

/-- What cannot be planned is refused, and stores nothing. -/
theorem Performs.kept_of_plan (planned : s.world.outline.plan now call = .error e) : r = .error e ∧ s.Kept t := by
  have kept := perform_of_ensures (h.declines_perform now call e planned) (by rw [performed.run]; exact performed.supplied)
    steady
  rw [performed.run] at kept
  exact ⟨kept.1, kept.2.1, kept.2.2⟩

theorem Performs.kept_of_error (failed : r = .error e) : s.world.outline.plan now call = .error e ∧ s.Kept t := by
  subst failed
  have planned := Follows.planned_of_not_faulty steady (performed.follows h).2
  exact ⟨planned, (performed.kept_of_plan h steady planned).2⟩

end refused

/-- Calls about one path lead from the one state to the other, on a store that does not fail. -/
structure Advances (path : String) (s t : Session) : Prop where
  reachable : t.Reachable
  steady : ¬ t.disk.Faulty
  elsewhere : ∀ other c, Path.segments other ≠ Path.segments path → (t.content other = .ok c ↔ s.content other = .ok c)

variable {path : String}

theorem Advances.refl (reachable : s.Reachable) (steady : ¬ s.disk.Faulty) : Advances path s s :=
  ⟨reachable, steady, fun _ _ _ => Iff.rfl⟩

theorem Advances.trans (h : Advances path s t) (k : Advances path t u) : Advances path s u :=
  ⟨k.reachable, k.steady, fun other c apart => (k.elsewhere other c apart).trans (h.elsewhere other c apart)⟩

section call
variable {now : Int64} {call : Call} {r : Except Failure Answer} (h : s.Reachable) (steady : ¬ s.disk.Faulty)
  (performed : s.Performs now call r t)
include h steady performed

theorem Performs.advances (about : ∀ p ∈ call.place?, p = path) : Advances path s t where
  reachable := h.called performed
  steady := by
    have like := s.like_perform (call.perform now)
    rw [performed.run] at like
    exact mt like.faulty.mp steady
  elsewhere other c apart := content_elsewhere h.sound performed c fun p named => about p named ▸ apart

end call

/-- What is told of an entry, where nothing fails. -/
theorem attributes_of_perform {r : Except Failure Attributes} (h : s.Reachable) (steady : ¬ s.disk.Faulty)
    (ran : s.perform (attributes path) = (r, t)) (supplied : t.disk.Supplied) :
    r = s.world.outline.attributes path ∧ s.Kept t ∧ Advances path s t := by
  obtain ⟨cache, consulted, reply⟩ := perform_of_yields (h.sound.yields_attributes path) (id : s.disk.Faulty → _)
  have performed := performs_of_perform 0 (.attributes path) Answer.attributes rfl ran supplied
  rw [ran] at cache consulted reply
  refine ⟨reply.resolve_right fun failed => steady failed.1, ⟨find?_of_consulted consulted, cache⟩, ?_⟩
  exact performed.advances h steady nofun

end Session
end RecordFs
