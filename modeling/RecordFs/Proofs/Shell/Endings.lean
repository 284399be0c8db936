import RecordFs.Shell.Machine

/-! How a command can end, whatever the store and the machine reply to its calls. -/
namespace RecordFs

universe u

/-- Programs of which it is known how they can end. -/
class Ending (m : Type → Type u) [Monad m] where
  MayEnd {α : Type} : m α → α → Prop
  mayEnd_pure {α : Type} {a b : α} : MayEnd (pure a : m α) b ↔ b = a
  mayEnd_bind {α β : Type} {x : m α} {f : α → m β} {b : β} : MayEnd (x >>= f) b ↔ ∃ a, MayEnd x a ∧ MayEnd (f a) b

section optional
variable {m : Type → Type u} [Monad m] [Ending m]

/-- A program that gives up does not end in anything of its own. -/
instance : Ending (OptionT m) where
  MayEnd x a := Ending.MayEnd x.run (some a)
  mayEnd_pure := Ending.mayEnd_pure.trans Option.some_inj
  mayEnd_bind {α β x f b} := by
    refine Ending.mayEnd_bind.trans ⟨?_, ?_⟩
    · rintro ⟨_ | a, first, rest⟩
      · cases Ending.mayEnd_pure.mp rest
      · exact ⟨a, first, rest⟩
    · rintro ⟨a, first, rest⟩
      exact ⟨some a, first, rest⟩

end optional

namespace Access
variable {α β σ : Type}

/-- Some replies of a store lead to this end. -/
def MayEnd : Access α → α → Prop
  | done b, a => a = b
  | get _ next, a => ∃ reply, (next reply).MayEnd a
  | put _ _ next, a => ∃ reply, (next reply).MayEnd a
  | fresh next, a => ∃ id, (next id).MayEnd a

theorem mayEnd_bind (x : Access α) (f : α → Access β) (b : β) :
    (x.bind f).MayEnd b ↔ ∃ a, x.MayEnd a ∧ (f a).MayEnd b := by
  induction x with
  | done a => simp [bind, MayEnd]
  | get id next ih => simp only [bind, MayEnd, ih]; exact exists_comm.trans (by simp)
  | put id bytes next ih => simp only [bind, MayEnd, ih]; exact exists_comm.trans (by simp)
  | fresh next ih => simp only [bind, MayEnd, ih]; exact exists_comm.trans (by simp)

instance : Ending Access where
  MayEnd := MayEnd
  mayEnd_pure := Iff.rfl
  mayEnd_bind := mayEnd_bind ..

/-- A run on a store is one of the ways to end. -/
theorem mayEnd_run (backend : Backend σ) (x : Access α) (s : σ) : x.MayEnd (x.run backend s).1 := by
  induction x generalizing s with
  | done a => rfl
  | get id next ih => exact ⟨_, ih _ _⟩
  | put id bytes next ih => exact ⟨_, ih _ _⟩
  | fresh next ih => exact ⟨_, ih _ _⟩

end Access

namespace Shell

/-- What the machine may reply. Of the open store it replies only what a store can lead to. -/
def Call.Admits : {β : Type} → Call β → β → Prop
  | _, .onStore access, reply => access.MayEnd reply
  | _, _, _ => True

namespace Script
variable {α β σ : Type}

/-- Some replies of a machine lead to this end. -/
def MayEnd : Script α → α → Prop
  | done b, a => a = b
  | call c next, a => ∃ reply, c.Admits reply ∧ (next reply).MayEnd a

theorem mayEnd_bind (x : Script α) (f : α → Script β) (b : β) :
    (x.bind f).MayEnd b ↔ ∃ a, x.MayEnd a ∧ (f a).MayEnd b := by
  induction x with
  | done a => simp [bind, MayEnd]
  | call c next ih =>
    simp only [bind, MayEnd, ih]
    constructor
    · rintro ⟨reply, admitted, a, first, rest⟩
      exact ⟨a, ⟨reply, admitted, first⟩, rest⟩
    · rintro ⟨a, ⟨reply, admitted, first⟩, rest⟩
      exact ⟨reply, admitted, a, first, rest⟩

instance : Ending Script where
  MayEnd := MayEnd
  mayEnd_pure := Iff.rfl
  mayEnd_bind := mayEnd_bind ..

/-- A run on a machine that replies what it may is one of the ways to end. -/
theorem mayEnd_run (answer : {β : Type} → Call β → StateM σ β)
    (admits : ∀ {β : Type} (c : Call β) (s : σ), c.Admits ((answer c).run s).1) (x : Script α) (s : σ) :
    x.MayEnd ((x.run answer).run s).1 := by
  induction x generalizing s with
  | done a => rfl
  | call c next ih => exact ⟨_, admits c s, ih _ _⟩

end Script

/-- The machine in memory replies what a machine may. -/
theorem Machine.admits_answer {β : Type} (c : Call β) (machine : Machine) : c.Admits ((Machine.answer c).run machine).1 := by
  cases c with
  | onStore access =>
    simp only [Call.Admits, answer, StateT.run, modifyGet, MonadStateOf.modifyGet, StateT.modifyGet]
    split
    · exact Access.mayEnd_run Disk.backend access _
    · exact Access.mayEnd_run Disk.backend access _
  | _ => trivial

section blames
variable {m : Type → Type u} [Monad m] [Ending m] {α β : Type} {P Q : Trouble → Prop}
  {x : ExceptT Trouble (StateT Cache m) α} {f : α → ExceptT Trouble (StateT Cache m) β}

/-- The program can end in this trouble. -/
def Fails (x : ExceptT Trouble (StateT Cache m) α) (trouble : Trouble) : Prop :=
  ∃ before after, Ending.MayEnd (x.run.run before) (.error trouble, after)

/-- Whenever the program fails, it is with one of these troubles. -/
structure Blames (P : Trouble → Prop) (x : ExceptT Trouble (StateT Cache m) α) : Prop where
  of_fails : ∀ {trouble}, Fails x trouble → P trouble

namespace Blames

theorem pure (a : α) : Blames P (pure a : ExceptT Trouble (StateT Cache m) α) := by
  constructor
  rintro trouble ⟨before, after, ends⟩
  cases Ending.mayEnd_pure.mp ends

theorem throw {trouble : Trouble} (h : P trouble) : Blames P (throw trouble : ExceptT Trouble (StateT Cache m) α) := by
  constructor
  rintro _ ⟨before, after, ends⟩
  cases Ending.mayEnd_pure.mp ends
  exact h

/-- What would come after a failure does not matter. -/
theorem throw_bind {trouble : Trouble} (h : P trouble) : Blames P (MonadExcept.throw trouble >>= f) := by
  constructor
  rintro _ ⟨before, after, ends⟩
  obtain ⟨⟨r, between⟩, first, rest⟩ := Ending.mayEnd_bind.mp ends
  cases Ending.mayEnd_pure.mp first
  cases Ending.mayEnd_pure.mp rest
  exact h

theorem bind (h : Blames P x) (next : ∀ a, Blames P (f a)) : Blames P (x >>= f) := by
  constructor
  rintro trouble ⟨before, after, ends⟩
  obtain ⟨⟨r, between⟩, first, rest⟩ := Ending.mayEnd_bind.mp ends
  cases r with
  | ok a => exact (next a).of_fails ⟨between, after, rest⟩
  | error e =>
    cases Ending.mayEnd_pure.mp rest
    exact h.of_fails ⟨before, _, first⟩

theorem map (h : Blames P x) (g : α → β) : Blames P (g <$> x) := by
  constructor
  rintro trouble ⟨before, after, ends⟩
  obtain ⟨⟨r, between⟩, first, rest⟩ := Ending.mayEnd_bind.mp ends
  cases r with
  | ok a => cases Ending.mayEnd_pure.mp rest
  | error e =>
    cases Ending.mayEnd_pure.mp rest
    exact h.of_fails ⟨before, _, first⟩

theorem tryCatch {handle : Trouble → ExceptT Trouble (StateT Cache m) α} (h : Blames P x)
    (handled : ∀ trouble, P trouble → Blames Q (handle trouble)) : Blames Q (tryCatch x handle) := by
  constructor
  rintro trouble ⟨before, after, ends⟩
  obtain ⟨⟨r, between⟩, first, rest⟩ := Ending.mayEnd_bind.mp ends
  cases r with
  | ok a => cases Ending.mayEnd_pure.mp rest
  | error e => exact (handled e (h.of_fails ⟨before, between, first⟩)).of_fails ⟨between, after, rest⟩

theorem ite {c : Prop} [Decidable c] {y : ExceptT Trouble (StateT Cache m) α} (h : Blames P x) (k : Blames P y) :
    Blames P (if c then x else y) := by
  split
  · exact h
  · exact k

theorem mono (h : Blames P x) (weaker : ∀ trouble, P trouble → Q trouble) : Blames Q x :=
  ⟨fun fails => weaker _ (h.of_fails fails)⟩

end Blames
end blames
end Shell
end RecordFs
