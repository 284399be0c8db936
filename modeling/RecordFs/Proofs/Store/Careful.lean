import RecordFs.Proofs.Store.DiskRuns
import RecordFs.Proofs.Store.Exchanges
import RecordFs.Proofs.Store.WriteOnce

/-! Careful programs: whatever the replies are, each of their puts is admitted by what is stored when it is
made. They are put together from careful parts, of which each starts where the one before it may end. -/
namespace RecordFs
open Function Stored

namespace Access
variable {α β : Type} {faulty : Prop} {s : Stock}

/-- However the calls are answered, every put is admitted. -/
def Careful : Access α → Stock → Prop
  | done _, _ => True
  | get id next, s => (∀ f, (next (.error f)).Careful s) ∧ (next (.ok (s.find id))).Careful s
  | put id bytes next, s =>
    Admits s.find id bytes ∧ (∀ f, (next (.error f)).Careful s) ∧ (next (.ok ())).Careful (s.put id bytes)
  | fresh next, s => ∀ id, ¬ s.taken id → (next id).Careful (s.take id)

theorem Careful.bind {x : Access α} {f : α → Access β} (h : x.Careful s)
    (next : x.Ensures True s fun a s' => (f a).Careful s') : (x.bind f).Careful s := by
  induction x generalizing s with
  | done a => exact next
  | get id rest ih => exact ⟨fun g => ih _ (h.1 g) (next.1 trivial g), ih _ h.2 next.2⟩
  | put id bytes rest ih => exact ⟨h.1, fun g => ih _ (h.2.1 g) (next.1 trivial g), ih _ h.2.2 next.2⟩
  | fresh rest ih => exact fun id new => ih id (h id new) (next id new)

theorem careful_of_looks {x : Access α} {Q : α → Prop} (h : x.Looks True s Q) : x.Careful s := by
  induction x with
  | done a => trivial
  | get id next ih => exact ⟨fun f => ih _ (h.1 trivial f), ih _ h.2⟩
  | put id bytes next ih => exact h.elim
  | fresh next ih => exact h.elim

theorem ensures_of_forall {Q : α → Stock → Prop} (h : ∀ a s, Q a s) (x : Access α) (s : Stock) : x.Ensures faulty s Q := by
  induction x generalizing s with
  | done a => exact h a s
  | get id next ih => exact ⟨fun _ f => ih _ s, ih _ s⟩
  | put id bytes next ih => exact ⟨fun _ f => ih _ s, ih _ _⟩
  | fresh next ih => exact fun id _ => ih id _

theorem ensures_and {x : Access α} {P Q : α → Stock → Prop} (h : x.Ensures faulty s P) (k : x.Ensures faulty s Q) :
    x.Ensures faulty s fun a s' => P a s' ∧ Q a s' := by
  induction x generalizing s with
  | done a => exact ⟨h, k⟩
  | get id next ih => exact ⟨fun hf f => ih _ (h.1 hf f) (k.1 hf f), ih _ h.2 k.2⟩
  | put id bytes next ih => exact ⟨fun hf f => ih _ (h.1 hf f) (k.1 hf f), ih _ h.2 k.2⟩
  | fresh next ih => exact fun id new => ih id (h id new) (k id new)

theorem ensures_taken {id : Id} (used : s.taken id) (x : Access α) : x.Ensures faulty s fun _ s' => s'.taken id := by
  induction x generalizing s with
  | done a => exact used
  | get _ next ih => exact ⟨fun _ f => ih _ used, ih _ used⟩
  | put _ _ next ih => exact ⟨fun _ f => ih _ used, ih _ used⟩
  | fresh next ih => exact fun x _ => ih x (.inr used)

end Access

namespace Disk
variable {α : Type} {disk : Disk} {taken : Id → Prop} {start : Nat}

/-- A put that succeeds is in the log, and one that fails is not. -/
theorem stored_put (id : Id) (bytes : ByteArray) (next : Reply Unit → Access α) (disk : Disk) :
    ((Access.put id bytes next).exchanges backend disk).filterMap Exchange.stored? =
      (Exchange.put id bytes (disk.put id bytes).1).stored?.toList ++
        ((next (disk.put id bytes).1).exchanges backend (disk.put id bytes).2).filterMap Exchange.stored? := by
  have log : (Access.put id bytes next).exchanges backend disk = .put id bytes (disk.put id bytes).1 ::
      (next (disk.put id bytes).1).exchanges backend (disk.put id bytes).2 := rfl
  rw [log, List.filterMap_cons]
  cases (Exchange.put id bytes (disk.put id bytes).1).stored? <;> rfl

/-- A run leaves what its puts have stored. -/
theorem find?_run (x : Access α) (disk : Disk) :
    (x.run backend disk).2.find? = putAll disk.find? ((x.exchanges backend disk).filterMap Exchange.stored?) := by
  induction x generalizing disk with
  | done a => rfl
  | get id next ih => exact ih _ (disk.get id).2
  | put id bytes next ih =>
    have rest := ih (disk.put id bytes).1 (disk.put id bytes).2
    refine rest.trans ?_
    rw [stored_put]
    rcases disk.put_reply (fun _ => False) 0 id bytes with ⟨reply, stored⟩ | ⟨_, reply, kept⟩
    · have find : (disk.put id bytes).2.find? = update disk.find? id (some bytes) := congrArg Stock.find stored
      rw [reply, find]
      rfl
    · have find : (disk.put id bytes).2.find? = disk.find? := congrArg Stock.find kept
      rw [reply, find]
      rfl
  | fresh next ih => exact ih _ disk.fresh.2

/-- The puts of a careful program are admitted, one after the other. -/
theorem admitted_run {x : Access α} (h : x.Careful (disk.since taken start)) (le : start ≤ disk.issued)
    (fresh : (x.run backend disk).2.Fresh taken start) :
    Admitted disk.find? ((x.exchanges backend disk).filterMap Exchange.stored?) := by
  induction x generalizing disk with
  | done a => trivial
  | get id next ih =>
    refine ih (disk.get id).1 ?_ (show start ≤ (disk.get id).2.issued from le) fresh
    rcases disk.get_reply id with reply | ⟨_, reply⟩
    · exact reply ▸ h.2
    · exact reply ▸ h.1 _
  | put id bytes next ih =>
    have rest := @ih (disk.put id bytes).1 (disk.put id bytes).2
    rw [stored_put]
    rcases disk.put_reply taken start id bytes with ⟨reply, stored⟩ | ⟨_, reply, kept⟩
    · have find : (disk.put id bytes).2.find? = update disk.find? id (some bytes) := congrArg Stock.find stored
      rw [stored, reply, find] at rest
      rw [reply]
      exact ⟨h.1, rest h.2.2 (Nat.le_trans le (disk.like_put id bytes).issued) (reply ▸ fresh)⟩
    · have find : (disk.put id bytes).2.find? = disk.find? := congrArg Stock.find kept
      rw [kept, reply, find] at rest
      rw [reply]
      exact rest (h.2.1 _) (Nat.le_trans le (disk.like_put id bytes).issued) (reply ▸ fresh)
  | fresh next ih =>
    obtain ⟨new, stored⟩ := fresh_reply le ((like_run _ _).fresh fresh)
    exact ih disk.fresh.1 (stored ▸ h _ new) (Nat.le_succ_of_le le) fresh

end Disk

namespace World
variable {w : World} {id : Id}

theorem admits_new {ρ : Type} [Stored ρ] [Sized ρ] (none : w.find id = none) (other : id ≠ .rootPointer) (r : ρ) :
    Admits w.find id (encode r) where
  record := ⟨kind ρ, size_encode r⟩
  first _ same := absurd same other
  later old found := by
    rw [none] at found
    cases found

theorem admits_pointer (none : w.find .rootPointer = none) (p : RootPointer) : Admits w.find .rootPointer (encode p) where
  record := ⟨.rootPointer, size_encode p⟩
  first _ _ := size_encode p
  later old found := by
    rw [none] at found
    cases found

/-- A record may be put in the place of one of its kind when it keeps what it has to. -/
theorem admits_again {κ : Kind} {r r' : κ.Record} (stored : w.get κ.Record id = some r) (keeps : κ.Keeps r r') :
    Admits w.find id (encode r') := by
  obtain ⟨bytes, found, read⟩ := find_of_get stored
  refine ⟨⟨κ, Kind.size_record r'⟩, fun none => ?_, fun old same => ?_⟩
  · rw [found] at none
    cases none
  · rw [found] at same
    cases same
    exact .of_keeps read keeps

end World

variable {α β ρ : Type} [Stored ρ] {w : World}

/-- What is loaded is the record that is stored; where there is none, loading fails. -/
theorem Store.exists_yields_load (faulty : Prop) (ρ : Type) [Stored ρ] (w : World) (id : Id) :
    ∃ v, Yields faulty (Store.load ρ id) w v ∧ ∀ r, v = .ok r → w.get ρ id = some r := by
  have got : Yields faulty (Store.get id) w (.ok (w.find id)) := Store.yields_get id
  cases found : w.find id with
  | none =>
    rw [found] at got
    exact ⟨_, .bind_error _ (.bind_ok got (.throw _)), fun _ failed => by cases failed⟩
  | some bytes =>
    rw [found] at got
    by_cases size : bytes.size = (kind ρ).size
    · have fetched : Yields faulty (Store.fetch id (kind ρ)) w (.ok bytes) := Store.yields_fetch found size
      cases read : Stored.read ρ bytes with
      | ok r =>
        have stored : w.get ρ id = some r := by
          rw [World.get, found, Option.bind_some, read]
          rfl
        refine ⟨.ok r, Store.yields_load stored, ?_⟩
        rintro _ ⟨⟩
        exact stored
      | error e =>
        rw [read_of_size size] at read
        refine ⟨.error (.malformed e), .bind_ok fetched ?_, fun _ failed => by cases failed⟩
        rw [read]
        exact .throw _
    · have refused : Yields faulty (Store.fetch id (kind ρ)) w (.error (.malformed (.size (kind ρ) bytes.size (kind ρ).size))) := by
        refine .bind_ok got ?_
        simp only [Kind.check, if_neg size]
        exact .throw _
      exact ⟨_, .bind_error _ refused, fun _ failed => by cases failed⟩

/-- What is taken once stays so. -/
theorem Ensures.taken {faulty : Prop} {x : Action α} {Q : Except Failure α → World → Prop} {id : Id} (h : Ensures faulty x w Q)
    (used : w.taken id) : Ensures faulty x w fun r w' => Q r w' ∧ w'.taken id :=
  Access.ensures_and h (Access.ensures_taken used _)

/-- Every put of the action is admitted, from the root in memory on. -/
def Careful (x : Action α) (w : World) : Prop := (x.run.run w.cache).Careful w.toStock

namespace Careful

theorem bind {x : Action α} {f : α → Action β} (h : Careful x w)
    (next : Ensures True x w fun r w' =>
      match r with
      | .ok a => Careful (f a) w'
      | .error _ => True) : Careful (x >>= f) w := by
  refine Access.Careful.bind (x := x.run.run w.cache) h (Access.ensures_mono ?_ next)
  rintro ⟨r, cache⟩ s careful
  cases r with
  | ok a => exact careful
  | error e => trivial

theorem pure (a : α) : Careful (pure a : Action α) w := trivial

theorem throw (e : Failure) : Careful (throw e : Action α) w := trivial

theorem of_yields {x : Action α} {v : Except Failure α} (h : Yields True x w v) : Careful x w := Access.careful_of_looks h

/-- A program that starts with something known. -/
theorem after {x : Action α} {v : Except Failure α} {f : α → Action β} (h : Yields True x w v)
    (next : ∀ a, v = .ok a → Careful (f a) w) : Careful (x >>= f) w := by
  refine (of_yields h).bind (h.ensures (fun _ _ => trivial) ?_)
  cases v with
  | ok a => exact next a rfl
  | error e => trivial

/-- The next part is careful wherever it starts. -/
theorem seq {x : Action α} {f : α → Action β} (h : Careful x w) (next : ∀ a w, Careful (f a) w) : Careful (x >>= f) w := by
  refine h.bind (Access.ensures_of_forall (fun done s => ?_) _ _)
  cases done.1 with
  | ok a => exact next a _
  | error e => trivial

theorem map {x : Action α} (f : α → β) (h : Careful x w) : Careful (f <$> x) w := by
  rw [← bind_pure_comp]
  exact h.seq fun a _ => .pure (f a)

theorem fresh {f : Id → Action β} (next : ∀ id, ¬ w.taken id → Careful (f id) (w.take id)) :
    Careful (Store.freshId >>= f) w := next

theorem save {id : Id} {r : ρ} (admits : Admits w.find id (encode r)) : Careful (Store.save id r) w := by
  refine seq (x := Store.call (.put id (encode r) .done)) ⟨admits, fun _ => trivial, trivial⟩ fun _ w => ?_
  -- What follows takes a stored root into memory and puts nothing.
  obtain ⟨s, cache⟩ := w
  cases cache with
  | none => trivial
  | some root =>
    change Careful (if root.key = id then _ else _) _
    split
    · cases Stored.read Inode (encode r) <;> trivial
    · trivial

theorem save_bind {id : Id} {r : ρ} {f : Unit → Action β} (admits : Admits w.find id (encode r))
    (root : ∀ c, w.cache = some c → c.key = id → ∃ i, Stored.read Inode (encode r) = .ok i)
    (next : Careful (f ()) (w.save id r)) : Careful (Store.save id r >>= f) w :=
  (save admits).bind (Store.ensures_save root (fun _ _ => trivial) next)

end Careful
end RecordFs
