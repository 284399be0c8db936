import RecordFs.Proofs.Renaming.Calls
import RecordFs.Proofs.Store.Exchanges
import RecordFs.Proofs.Store.QuietRuns

/-! Programs that do the same, on two disks. What holds of both disks and goes on to hold after every call that
fails on both or on neither holds after whole runs, and the same calls are made in them, under other names. -/
namespace RecordFs
open Renaming

variable {α β : Type} {σ : Renaming} {R : α → β → Prop} {a b : Disk} {last : Nat}

/-! ### Logs of which the same calls fail -/

/-- As long as the calls in both logs are of the same kinds, the same ones of them fail. -/
def FailAlike : List Exchange → List Exchange → Prop
  | e :: rest, e' :: rest' => e'.isGet = e.isGet → e'.failed = e.failed ∧ FailAlike rest rest'
  | _, _ => True

/-- The same exchange under other names. -/
inductive Exchange.Alike (σ : Renaming) : Exchange → Exchange → Prop where
  | get (id : Id) {r r' : Reply (Option ByteArray)} (found : Found σ r r') : Alike σ (.get id r) (.get (rename σ id) r')
  | put (id : Id) {bytes bytes' : ByteArray} (copy : Copy σ bytes bytes') (r : Reply Unit) :
      Alike σ (.put id bytes r) (.put (rename σ id) bytes' r)

namespace Disk

theorem failed_get (disk : Disk) (id : Id) : (Exchange.get id (disk.get id).1).failed = disk.getFails disk.gets := by
  cases failed : disk.getFails disk.gets <;> simp [get, failed, Exchange.failed, Except.isOk, Except.toBool]

theorem failed_put (disk : Disk) (id : Id) (bytes : ByteArray) :
    (Exchange.put id bytes (disk.put id bytes).1).failed = disk.putFails disk.puts := by
  cases failed : disk.putFails disk.puts <;> simp [put, failed, Exchange.failed, Except.isOk, Except.toBool]

/-- Of the calls to come the same ones fail, with the same reply. -/
structure SameFailures (a b : Disk) : Prop where
  gets : ∀ k, b.getFails (b.gets + k) = a.getFails (a.gets + k)
  puts : ∀ k, b.putFails (b.puts + k) = a.putFails (a.puts + k)
  fault : b.fault = a.fault

namespace SameFailures

theorem get (h : a.SameFailures b) (id x : Id) : (a.get id).2.SameFailures (b.get x).2 := by
  refine ⟨fun k => ?_, h.puts, h.fault⟩
  have next := h.gets (1 + k)
  rwa [← Nat.add_assoc, ← Nat.add_assoc] at next

theorem put (h : a.SameFailures b) (id x : Id) (bytes bytes' : ByteArray) :
    (a.put id bytes).2.SameFailures (b.put x bytes').2 := by
  have like := a.like_put id bytes
  have like' := b.like_put x bytes'
  refine ⟨fun k => ?_, fun k => ?_, ?_⟩
  · rw [like.getFails, like'.getFails, gets_put, gets_put]
    exact h.gets k
  · rw [like.putFails, like'.putFails, puts_put, puts_put, Nat.add_assoc, Nat.add_assoc]
    exact h.puts (1 + k)
  · rw [fault_put, fault_put, h.fault]

theorem fresh (h : a.SameFailures b) : a.fresh.2.SameFailures b.fresh.2 := ⟨h.gets, h.puts, h.fault⟩

/-- So it is when they are told by their number among the gets or among the puts. -/
theorem failAlike (x : Access α) (y : Access β) (h : a.SameFailures b) :
    FailAlike (x.exchanges backend a) (y.exchanges backend b) := by
  induction x generalizing y a b with
  | done v => trivial
  | get id next ih =>
    induction y generalizing b with
    | done v' => trivial
    | get id' next' _ =>
      exact fun _ => ⟨(b.failed_get id').trans ((h.gets 0).trans (a.failed_get id).symm), ih _ _ (h.get id id')⟩
    | put id' bytes' next' _ => exact nofun
    | fresh next' later => exact later _ ⟨h.gets, h.puts, h.fault⟩
  | put id bytes next ih =>
    induction y generalizing b with
    | done v' => trivial
    | get id' next' _ => exact nofun
    | put id' bytes' next' _ =>
      exact fun _ => ⟨(b.failed_put id' bytes').trans ((h.puts 0).trans (a.failed_put id bytes).symm),
        ih _ _ (h.put id id' bytes bytes')⟩
    | fresh next' later => exact later _ ⟨h.gets, h.puts, h.fault⟩
  | fresh next ih => exact ih _ y ⟨h.gets, h.puts, h.fault⟩

end SameFailures

/-! ### One call on both disks -/

section call
variable (fault : b.fault = a.fault) (find : ∀ id, Option.Rel (Copy σ) (a.find? id) (b.find? (rename σ id)))

include fault find in
theorem found_get (failed : b.getFails b.gets = a.getFails a.gets) (id : Id) :
    Found σ (a.get id).1 (b.get (rename σ id)).1 := by
  simp only [Disk.get, failed, fault]
  cases a.getFails a.gets with
  | true => exact .fault a.fault
  | false => exact .of_rel (find id)

include fault in
theorem reply_put (failed : b.putFails b.puts = a.putFails a.puts) (id x : Id) (bytes bytes' : ByteArray) :
    (b.put x bytes').1 = (a.put id bytes).1 := by
  simp only [Disk.put, failed, fault]
  cases a.putFails a.puts <;> rfl

include find in
theorem rel_find?_put (failed : b.putFails b.puts = a.putFails a.puts) (id x : Id) {bytes bytes' : ByteArray}
    (copy : Copy σ bytes bytes') :
    Option.Rel (Copy σ) ((a.put id bytes).2.find? x) ((b.put (rename σ id) bytes').2.find? (rename σ x)) := by
  simp only [find?_put, failed, rename_inj]
  by_cases stored : a.putFails a.puts = false ∧ x = id
  · rw [if_pos stored, if_pos stored]
    exact .some copy
  · rw [if_neg stored, if_neg stored]
    exact find x

end call

/-! ### Runs -/

/-- What holds of two disks and goes on to hold after a call under other names, if it fails on both or on neither,
and for identifiers up to some number of them. -/
structure Steady (σ : Renaming) (last : Nat) (M : Disk → Disk → Prop) : Prop where
  issued : ∀ {a b}, M a b → b.issued = a.issued
  get : ∀ {a b}, M a b → b.getFails b.gets = a.getFails a.gets → ∀ id,
    Found σ (a.get id).1 (b.get (rename σ id)).1 ∧ M (a.get id).2 (b.get (rename σ id)).2
  put : ∀ {a b}, M a b → b.putFails b.puts = a.putFails a.puts → ∀ id {bytes bytes'}, Copy σ bytes bytes' →
    (b.put (rename σ id) bytes').1 = (a.put id bytes).1 ∧ M (a.put id bytes).2 (b.put (rename σ id) bytes').2
  fresh : ∀ {a b}, M a b → a.issued < last → b.fresh.1 = rename σ a.fresh.1 ∧ M a.fresh.2 b.fresh.2

/-- Programs that do the same make the same calls with the same replies, under other names. -/
theorem Steady.run {M : Disk → Disk → Prop} (steady : Steady σ last M) {x : Access α} {y : Access β}
    (mirrors : x.Mirrors σ R y) (h : M a b) (fails : FailAlike (x.exchanges backend a) (y.exchanges backend b))
    (within : (x.run backend a).2.issued ≤ last ∨ (y.run backend b).2.issued ≤ last) :
    R (x.run backend a).1 (y.run backend b).1 ∧
      List.Forall₂ (Exchange.Alike σ) (x.exchanges backend a) (y.exchanges backend b) ∧
      M (x.run backend a).2 (y.run backend b).2 := by
  induction x generalizing y a b with
  | done v =>
    cases y with
    | done v' => exact ⟨mirrors, .nil, h⟩
    | get | put | fresh => exact mirrors.elim
  | get id next ih =>
    cases y with
    | get id' next' =>
      obtain ⟨rfl, rest⟩ := mirrors
      obtain ⟨failed, fails⟩ := fails rfl
      have failed := (b.failed_get _).symm.trans (failed.trans (a.failed_get id))
      obtain ⟨found, h'⟩ := steady.get h failed id
      obtain ⟨reply, alike, ends⟩ := ih _ (rest _ _ found) h' fails within
      exact ⟨reply, .cons (.get id found) alike, ends⟩
    | done | put | fresh => exact mirrors.elim
  | put id bytes next ih =>
    cases y with
    | put id' bytes' next' =>
      obtain ⟨rfl, copy, rest⟩ := mirrors
      obtain ⟨failed, fails⟩ := fails rfl
      have failed := (b.failed_put _ bytes').symm.trans (failed.trans (a.failed_put id bytes))
      obtain ⟨same, h'⟩ := steady.put h failed id copy
      have mirrored := rest (b.put (rename σ id) bytes').1
      obtain ⟨reply, alike, ends⟩ := ih _ (same ▸ mirrored) h' fails within
      have exchanged : Exchange.Alike σ (.put id bytes (a.put id bytes).1)
          (.put (rename σ id) bytes' (b.put (rename σ id) bytes').1) := by
        rw [same]
        exact .put id copy _
      exact ⟨reply, .cons exchanged alike, ends⟩
    | done | get | fresh => exact mirrors.elim
  | fresh next ih =>
    cases y with
    | fresh next' =>
      -- The names agree below `last` only; one of the runs stays below it, and it takes this identifier first.
      have before : a.issued < last := by
        rcases within with within | within
        · exact Nat.le_trans (like_run (next a.fresh.1) a.fresh.2).issued within
        · rw [← steady.issued h]
          exact Nat.le_trans (like_run (next' b.fresh.1) b.fresh.2).issued within
      obtain ⟨same, h'⟩ := steady.fresh h before
      have mirrored := mirrors a.fresh.1
      rw [← same] at mirrored
      have rest := ih _ mirrored h' fails within
      exact rest
    | done | get | put => exact mirrors.elim

end Disk
end RecordFs
