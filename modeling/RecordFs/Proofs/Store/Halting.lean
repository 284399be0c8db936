import RecordFs.Proofs.Store.Frugal
import RecordFs.Proofs.Store.QuietRuns

/-! A call of the store that fails ends the program with that failure. So whatever a run replied instead,
no call failed in it. -/
namespace RecordFs

namespace Access
variable {α : Type}

def Halts : Access (Except Failure α × Cache) → Prop
  | done _ => True
  | get _ next =>
    (∀ f, ∃ cache, next (.error f) = done (.error (.ofFault f), cache)) ∧ ∀ found, (next (.ok found)).Halts
  | put _ _ next => (∀ f, ∃ cache, next (.error f) = done (.error (.ofFault f), cache)) ∧ (next (.ok ())).Halts
  | fresh next => ∀ id, (next id).Halts

end Access

namespace Disk

/-- No call failed, or the failure is the reply. -/
theorem quiet_or_failed {α : Type} {x : Access (Except Failure α × Cache)} (h : x.Halts) (disk : Disk) :
    Quiet disk (x.run backend disk).2 ∨ (x.run backend disk).1.1 = .error (.ofFault disk.fault) := by
  induction x generalizing disk with
  | done a => exact .inl ⟨fun _ le lt => absurd lt (Nat.not_lt.mpr le), fun _ le lt => absurd lt (Nat.not_lt.mpr le)⟩
  | get id next ih =>
    cases failed : disk.getFails disk.gets with
    | true =>
      obtain ⟨cache, ends⟩ := h.1 disk.fault
      have reply : (disk.get id).1 = .error disk.fault := by simp [get, failed]
      refine .inr ?_
      change ((next (disk.get id).1).run backend (disk.get id).2).1.1 = _
      rw [reply, ends]
      rfl
    | false =>
      have reply : (disk.get id).1 = .ok (disk.find? id) := by simp [get, failed]
      have rest := ih (disk.get id).1 (reply ▸ h.2 _) (disk.get id).2
      exact rest.imp_left (.of_get failed)
  | put id bytes next ih =>
    cases failed : disk.putFails disk.puts with
    | true =>
      obtain ⟨cache, ends⟩ := h.1 disk.fault
      have reply : (disk.put id bytes).1 = .error disk.fault := by simp [put, failed]
      refine .inr ?_
      change ((next (disk.put id bytes).1).run backend (disk.put id bytes).2).1.1 = _
      rw [reply, ends]
      rfl
    | false =>
      have reply : (disk.put id bytes).1 = .ok () := by simp [put, failed]
      have rest := ih (disk.put id bytes).1 (reply ▸ h.2) (disk.put id bytes).2
      rw [fault_put] at rest
      exact rest.imp_left (.of_put failed)
  | fresh next ih =>
    exact (ih disk.fresh.1 (h _) disk.fresh.2).imp_left fun rest => ⟨rest.gets, rest.puts⟩

end Disk

/-- Wherever it starts from, the action goes on only from what the store replies. -/
def Halting {α : Type} (x : Action α) : Prop := ∀ cache, (x.run.run cache).Halts

namespace Halting
variable {α β : Type}

theorem pure (a : α) : Halting (pure a : Action α) := fun _ => trivial

theorem throw (e : Failure) : Halting (throw e : Action α) := fun _ => trivial

theorem bind {x : Action α} {f : α → Action β} (h : Halting x) (next : ∀ a, Halting (f a)) : Halting (x >>= f) := by
  intro cache
  change (Access.bind (x.run.run cache) _).Halts
  have before := h cache
  generalize x.run.run cache = tree at before
  have ends {next' : Access (Except Failure α × Cache)} {f : Fault}
      {g : Except Failure α × Cache → Access (Except Failure β × Cache)}
      (same : ∀ cache, g (.error (.ofFault f), cache) = .done (.error (.ofFault f), cache))
      (halts : ∃ cache, next' = .done (.error (.ofFault f), cache)) :
      ∃ cache, next'.bind g = .done (.error (.ofFault f), cache) := by
    obtain ⟨cache, rfl⟩ := halts
    exact ⟨cache, same cache⟩
  induction tree with
  | done a =>
    obtain ⟨r, cache⟩ := a
    cases r with
    | ok a => exact next a cache
    | error e => trivial
  | get id rest ih =>
    exact ⟨fun f => ends (fun _ => rfl) (before.1 f), fun found => ih _ (before.2 found)⟩
  | put id bytes rest ih => exact ⟨fun f => ends (fun _ => rfl) (before.1 f), ih _ before.2⟩
  | fresh rest ih => exact fun id => ih id (before id)

theorem ite {p : Prop} [Decidable p] {x y : Action α} (h : Halting x) (k : Halting y) : Halting (if p then x else y) := by
  split
  · exact h
  · exact k

theorem cache : Halting (MonadState.get : Action Cache) := fun _ => trivial

theorem setCache (root : Cache) : Halting (MonadState.set root : Action PUnit) := fun _ => trivial

theorem get (id : Id) : Halting (Store.get id) := fun cache => ⟨fun _ => ⟨cache, rfl⟩, fun _ => trivial⟩

theorem freshId : Halting Store.freshId := fun _ _ => trivial

theorem expect (v : Except Malformed α) : Halting (Store.expect v) := by
  cases v with
  | ok a => exact .pure a
  | error e => exact .throw _

theorem put (id : Id) (bytes : ByteArray) : Halting (Store.put id bytes) := by
  have called : Halting (Store.call (.put id bytes .done)) := fun cache => ⟨fun _ => ⟨cache, rfl⟩, trivial⟩
  apply called.bind
  intro _
  apply Halting.cache.bind
  rintro (none | root)
  · exact .pure _
  · exact .ite ((Halting.expect _).bind fun inode => .setCache _) (.pure _)

theorem load {ρ : Type} [Stored ρ] (id : Id) : Halting (Store.load ρ id) := by
  refine Halting.bind ?_ fun bytes => .expect _
  apply (Halting.get id).bind
  rintro (none | bytes)
  · exact .throw _
  · exact (Halting.expect _).bind fun _ => .pure _

theorem save {ρ : Type} [Stored ρ] (id : Id) (record : ρ) : Halting (Store.save id record) := .put id _

end Halting
end RecordFs
