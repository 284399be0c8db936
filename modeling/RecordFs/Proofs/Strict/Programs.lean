import RecordFs.Proofs.Strict.Records
import RecordFs.Store.Action

/-! Programs of which every step is checked, beside the same programs without the checks. Both are in step when
they make the same calls and come to the same result, whatever the replies are; then the first never slips. -/
namespace RecordFs

namespace Access
variable {α β : Type} {P : α → Prop} {Q : β → Prop}

/-- However its calls are answered, the program ends in `P`. -/
def Ends (P : α → Prop) : Access α → Prop
  | done a => P a
  | get _ next => ∀ r, (next r).Ends P
  | put _ _ next => ∀ r, (next r).Ends P
  | fresh next => ∀ id, (next id).Ends P

theorem Ends.bind {x : Access α} {f : α → Access β} (h : x.Ends P) (next : ∀ a, P a → (f a).Ends Q) : (x.bind f).Ends Q := by
  induction x with
  | done a => exact next a h
  | get id rest ih => exact fun r => ih r (h r)
  | put id bytes rest ih => exact fun r => ih r (h r)
  | fresh rest ih => exact fun id => ih id (h id)

theorem ends_of_forall (h : ∀ a, P a) (x : Access α) : x.Ends P := by
  induction x with
  | done a => exact h a
  | get id next ih => exact ih
  | put id bytes next ih => exact ih
  | fresh next ih => exact ih

/-- What follows matters only for results that there can be. -/
theorem bind_congr {x : Access α} {f g : α → Access β} (h : x.Ends P) (same : ∀ a, P a → f a = g a) : x.bind f = x.bind g := by
  induction x with
  | done a => exact same a h
  | get id rest ih => exact congrArg (get id) (funext fun r => ih r (h r))
  | put id bytes rest ih => exact congrArg (put id bytes) (funext fun r => ih r (h r))
  | fresh rest ih => exact congrArg fresh (funext fun id => ih id (h id))

theorem Ends.run {σ : Type} {x : Access α} (h : x.Ends P) (backend : Backend σ) (s : σ) : P (x.run backend s).1 := by
  induction x generalizing s with
  | done a => exact h
  | get id next ih => exact ih _ (h _) _
  | put id bytes next ih => exact ih _ (h _) _
  | fresh next ih => exact ih _ (h _) _

/-- The first program is the second, of which every result is fine and in `P`. -/
structure InStep (P : α → Prop) (x : ExceptT Slip Access α) (y : Access α) : Prop where
  same : x = ExceptT.lift y
  ends : y.Ends P

namespace InStep

theorem lift {x : Access α} (ends : x.Ends P) : InStep P (ExceptT.lift x) x := ⟨rfl, ends⟩

theorem bind {x : ExceptT Slip Access α} {y : Access α} {f : α → ExceptT Slip Access β} {g : α → Access β}
    (h : InStep P x y) (next : ∀ a, P a → InStep Q (f a) (g a)) : InStep Q (x >>= f) (y.bind g) where
  same := by
    rw [h.same]
    change (y.bind _).bind _ = (y.bind g).bind _
    rw [bind_assoc, bind_assoc]
    exact bind_congr h.ends fun a ha => (next a ha).same
  ends := h.ends.bind fun a ha => (next a ha).ends

/-- On every backend both programs do the same. -/
theorem run {σ : Type} {x : ExceptT Slip Access α} {y : Access α} (h : InStep P x y) (backend : Backend σ) (s : σ) :
    x.run.run backend s = (.ok (y.run backend s).1, (y.run backend s).2) := by
  rw [h.same]
  exact run_bind backend y _ s

end InStep
end Access

/-- Programs of which every step is checked. -/
abbrev StrictAction := ExceptT Failure (StateT Cache (ExceptT Slip Access))

instance : MonadLift Checked (ExceptT Slip Access) := ⟨fun v => ExceptT.mk (.done v)⟩

/-- Programs without a step that needs a check. -/
instance : MonadLift Action StrictAction := ⟨fun x => ExceptT.mk fun cache => ExceptT.lift (x.run.run cache)⟩

variable {α β : Type} {P : α → Prop} {Q : β → Prop}

/-- From any root in memory on, the first program does what the second does, and its answers are in `P`. -/
def InStep (P : α → Prop) (x : StrictAction α) (y : Action α) : Prop :=
  ∀ cache, Access.InStep (fun r => ∀ a, r.1 = .ok a → P a) (x.run.run cache) (y.run.run cache)

namespace InStep

theorem pure {a : α} (holds : P a) : InStep P (pure a) (pure a) := by
  refine fun cache => ⟨rfl, ?_⟩
  rintro _ ⟨⟩
  exact holds

theorem throw (e : Failure) : InStep P (throw e) (throw e) := fun _ => ⟨rfl, nofun⟩

theorem bind {x : StrictAction α} {y : Action α} {f : α → StrictAction β} {g : α → Action β} (h : InStep P x y)
    (next : ∀ a, P a → InStep Q (f a) (g a)) : InStep Q (x >>= f) (y >>= g) := by
  intro cache
  apply (h cache).bind
  rintro ⟨r, cache⟩ holds
  cases r with
  | ok a => exact next a (holds a rfl) cache
  | error e => exact ⟨rfl, nofun⟩

theorem map {x : StrictAction α} {y : Action α} (f : α → β) (h : InStep P x y) (holds : ∀ a, P a → Q (f a)) :
    InStep Q (f <$> x) (f <$> y) := by
  rw [← bind_pure_comp, ← bind_pure_comp]
  exact h.bind fun a ha => .pure (holds a ha)

/-- A program that is no different with checks. -/
theorem lift (x : Action α) : InStep (fun _ => True) (liftM x) x :=
  fun _ => .lift (Access.ends_of_forall (fun _ _ _ => trivial) _)

/-- A step that may be taken. -/
theorem check {c : Checked α} {a : α} {f : α → StrictAction β} {y : Action β} (fine : c = .ok a) (next : InStep Q (f a) y) :
    InStep Q (liftM c >>= f) y := by
  rw [fine]
  exact next

theorem ite {p q : Prop} [Decidable p] [Decidable q] {x x' : StrictAction α} {y y' : Action α} (same : q ↔ p)
    (first : p → InStep P x y) (second : ¬ p → InStep P x' y') : InStep P (if p then x else x') (if q then y else y') := by
  by_cases h : p
  · rw [if_pos h, if_pos (same.mpr h)]
    exact first h
  · rw [if_neg h, if_neg (mt same.mp h)]
    exact second h

theorem setCache (c : Cache) : InStep (fun _ => True) (MonadState.set c) (MonadState.set c) := fun _ => ⟨rfl, fun _ _ => trivial⟩

theorem ofExcept (v : Except Failure α) (holds : ∀ a, v = .ok a → P a) :
    InStep P (MonadExcept.ofExcept v) (MonadExcept.ofExcept v) := by
  cases v with
  | ok a => exact .pure (holds a rfl)
  | error e => exact .throw e

end InStep

namespace Store.Strict
variable {ρ : Type} [Stored ρ] [StrictlyStored ρ]

def fetch (id : Id) (kind : Kind) : StrictAction ByteArray := do
  match ← get id with
  | none => throw (.store (.absent id))
  | some bytes =>
    expect (kind.check bytes)
    return bytes

def load (ρ : Type) [Stored ρ] [StrictlyStored ρ] (id : Id) : StrictAction ρ := do
  let bytes ← fetch id (Stored.kind ρ)
  expect (← interpret ρ bytes)

/-- Bytes under the root's key are read only when they have the size of an inode. -/
def put (id : Id) (bytes : ByteArray) : StrictAction Unit := do
  call (.put id bytes .done)
  if let some root := (← root?) then
    if root.key = id then
      expect ((Stored.kind Inode).check bytes)
      let inode ← expect (← interpret Inode bytes)
      MonadState.set (some { root with inode } : Cache)

def save (id : Id) (record : ρ) : StrictAction Unit := do put id (← StrictlyStored.encode record)

def saveInode (inode : Inode) : StrictAction Unit := save inode.self inode

end Store.Strict

namespace Store
variable {ρ : Type} [Stored ρ] [StrictlyStored ρ] [StrictlyStored.Lawful ρ]

theorem inStep_expect (v : Except Malformed α) (holds : ∀ a, v = .ok a → P a) : InStep P (liftM (expect v)) (expect v) := by
  cases v with
  | ok a => exact .pure (holds a rfl)
  | error e => exact .throw _

theorem inStep_check (kind : Kind) (bytes : ByteArray) :
    InStep (fun _ => bytes.size = kind.size) (liftM (expect (kind.check bytes))) (expect (kind.check bytes)) := by
  refine inStep_expect _ fun _ checked => ?_
  rw [Kind.check] at checked
  split at checked
  · assumption
  · cases checked

/-- What is fetched has the size of the kind. -/
theorem inStep_fetch (id : Id) (kind : Kind) : InStep (fun bytes => bytes.size = kind.size) (Strict.fetch id kind) (fetch id kind) := by
  apply (InStep.lift _).bind
  intro found _
  cases found with
  | none => exact .throw _
  | some bytes => exact (inStep_check kind bytes).bind fun _ size => .pure size

theorem inStep_load (ρ : Type) [Stored ρ] [StrictlyStored ρ] [StrictlyStored.Lawful ρ] (id : Id) :
    InStep Fits (Strict.load ρ id) (load ρ id) := by
  apply (inStep_fetch id _).bind
  intro bytes size
  apply InStep.check (interpret_of_size size)
  exact inStep_expect _ fun r read => StrictlyStored.Lawful.fits size read

theorem inStep_put (id : Id) (bytes : ByteArray) : InStep (fun _ => True) (Strict.put id bytes) (put id bytes) := by
  apply (InStep.lift _).bind
  intro _ _
  apply (InStep.lift _).bind
  intro cache _
  cases cache with
  | none => exact .pure trivial
  | some root =>
    have read : expect (Stored.read Inode bytes) = (do
        expect ((Stored.kind Inode).check bytes)
        expect (Stored.decode bytes)) := by
      rw [Stored.read]
      cases (Stored.kind Inode).check bytes <;> rfl
    refine .ite Iff.rfl (fun _ => ?_) fun _ => .pure trivial
    rw [read, bind_assoc]
    apply (inStep_check _ bytes).bind
    intro _ size
    apply InStep.check (interpret_of_size size)
    apply (inStep_expect _ fun _ _ => trivial).bind
    intro inode _
    exact .setCache _

theorem inStep_save {r : ρ} (fits : Fits r) (id : Id) : InStep (fun _ => True) (Strict.save id r) (save id r) :=
  .check (StrictlyStored.Lawful.encode_eq fits) (inStep_put id _)

theorem inStep_saveInode (inode : Inode) : InStep (fun _ => True) (Strict.saveInode inode) (saveInode inode) :=
  inStep_save trivial inode.self

end Store
end RecordFs
