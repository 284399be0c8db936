import RecordFs.Proofs.Store.DiskRuns

/-! How many identifiers a program asks for. What asks for none, like reading and clearing, needs no
assumption on those that are handed out. -/
namespace RecordFs

namespace Access
variable {α β : Type} {m n : Nat}

/-- The program asks for at most so many identifiers, whatever it is replied. -/
def Frugal : Access α → Nat → Prop
  | done _, _ => True
  | get _ next, n => ∀ r, (next r).Frugal n
  | put _ _ next, n => ∀ r, (next r).Frugal n
  | fresh _, 0 => False
  | fresh next, n + 1 => ∀ id, (next id).Frugal n

theorem Frugal.mono {x : Access α} (h : x.Frugal m) (le : m ≤ n) : x.Frugal n := by
  induction x generalizing m n with
  | done a => trivial
  | get id next ih => exact fun r => ih r (h r) le
  | put id bytes next ih => exact fun r => ih r (h r) le
  | fresh next ih =>
    cases m with
    | zero => exact h.elim
    | succ m =>
      obtain ⟨n, rfl⟩ := Nat.exists_eq_add_of_le' (Nat.le_trans (Nat.le_add_left 1 m) le)
      exact fun id => ih id (h id) (Nat.le_of_succ_le_succ le)

theorem Frugal.bind {x : Access α} {f : α → Access β} (h : x.Frugal m) (next : ∀ a, (f a).Frugal n) :
    (x.bind f).Frugal (m + n) := by
  induction x generalizing m with
  | done a => exact (next a).mono (Nat.le_add_left n m)
  | get id rest ih => exact fun r => ih r (h r)
  | put id bytes rest ih => exact fun r => ih r (h r)
  | fresh rest ih =>
    cases m with
    | zero => exact h.elim
    | succ m =>
      rw [Nat.succ_add]
      exact fun id => ih id (h id)

end Access

/-- A disk hands out no more identifiers than it is asked for. -/
theorem Disk.issued_run_le {α : Type} {x : Access α} {n : Nat} (h : x.Frugal n) (disk : Disk) :
    (x.run backend disk).2.issued ≤ disk.issued + n := by
  induction x generalizing n disk with
  | done a => exact Nat.le_add_right _ _
  | get id next ih => exact ih _ (h _) (disk.get id).2
  | put id bytes next ih => exact disk.issued_put id bytes ▸ ih _ (h _) (disk.put id bytes).2
  | fresh next ih =>
    cases n with
    | zero => exact h.elim
    | succ n =>
      have later := ih disk.fresh.1 (h _) disk.fresh.2
      change _ ≤ disk.issued + 1 + n at later
      change ((next disk.fresh.1).run backend disk.fresh.2).2.issued ≤ _
      omega

/-- What is not asked for is no assumption. -/
theorem Disk.fresh_of_frugal {α : Type} {x : Access α} (h : x.Frugal 0) (disk : Disk) (taken : Id → Prop) :
    (x.run backend disk).2.Fresh taken disk.issued := by
  have few := disk.issued_run_le h
  constructor
  · intro n since before
    omega
  · intro m since before
    omega

/-- Wherever it starts from, the action asks for at most so many identifiers. -/
def Asks (n : Nat) {α : Type} (x : Action α) : Prop := ∀ cache, (x.run.run cache).Frugal n

namespace Asks
variable {α β : Type} {m n : Nat}

theorem mono {x : Action α} (h : Asks m x) (le : m ≤ n) : Asks n x := fun cache => (h cache).mono le

theorem pure (a : α) : Asks n (pure a : Action α) := fun _ => trivial

theorem throw (e : Failure) : Asks n (throw e : Action α) := fun _ => trivial

theorem ofExcept (v : Except Failure α) : Asks n (MonadExcept.ofExcept v : Action α) := by
  cases v with
  | ok a => exact .pure a
  | error e => exact .throw e

theorem bind {x : Action α} {f : α → Action β} (h : Asks m x) (next : ∀ a, Asks n (f a)) : Asks (m + n) (x >>= f) := by
  intro cache
  apply (h cache).bind
  rintro ⟨r, cache⟩
  cases r with
  | ok a => exact next a cache
  | error e => trivial

/-- A step that asks for none. -/
theorem after {x : Action α} {f : α → Action β} (h : Asks 0 x) (next : ∀ a, Asks n (f a)) : Asks n (x >>= f) :=
  (Nat.zero_add n) ▸ h.bind next

theorem map {x : Action α} (f : α → β) (h : Asks n x) : Asks n (f <$> x) := by
  rw [← bind_pure_comp]
  exact h.bind (n := 0) fun a => .pure (f a)

theorem ite {p : Prop} [Decidable p] {x y : Action α} (h : Asks n x) (k : Asks n y) : Asks n (if p then x else y) := by
  split
  · exact h
  · exact k

theorem foldlM {f : β → α → Action β} (each : ∀ b a, Asks 0 (f b a)) (l : List α) (b : β) : Asks 0 (l.foldlM f b) := by
  induction l generalizing b with
  | nil => exact .pure b
  | cons a rest ih =>
    rw [List.foldlM_cons]
    exact (each b a).after ih

theorem mapM {f : α → Action β} (each : ∀ a, Asks 0 (f a)) (l : List α) : Asks 0 (l.mapM f) := by
  induction l with
  | nil => exact .pure []
  | cons a rest ih =>
    rw [List.mapM_cons]
    exact (each a).after fun b => ih.after fun bs => .pure (b :: bs)

theorem cache : Asks n (MonadState.get : Action Cache) := fun _ => trivial

theorem setCache (root : Cache) : Asks n (MonadState.set root : Action PUnit) := fun _ => trivial

theorem get (id : Id) : Asks 0 (Store.get id) := by
  rintro cache (found | fault) <;> trivial

theorem freshId : Asks 1 Store.freshId := fun _ _ => trivial

theorem expect (v : Except Malformed α) : Asks 0 (Store.expect v) := by
  cases v with
  | ok a => exact .pure a
  | error e => exact .throw _

theorem put (id : Id) (bytes : ByteArray) : Asks 0 (Store.put id bytes) := by
  have called : Asks 0 (Store.call (.put id bytes .done)) := by rintro cache (done | fault) <;> trivial
  apply called.after
  intro _
  apply Asks.cache.after
  rintro (none | root)
  · exact .pure _
  · refine .ite ?_ (.pure _)
    exact (Asks.expect _).after fun inode => .setCache _

theorem load {ρ : Type} [Stored ρ] (id : Id) : Asks 0 (Store.load ρ id) := by
  refine Asks.after ?_ fun bytes => .expect _
  apply (Asks.get id).after
  rintro (none | bytes)
  · exact .throw _
  · exact (Asks.expect _).after fun _ => .pure _

theorem save {ρ : Type} [Stored ρ] (id : Id) (record : ρ) : Asks 0 (Store.save id record) := .put id _

end Asks
end RecordFs
