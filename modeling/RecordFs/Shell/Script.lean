import RecordFs.Mount.Options
import RecordFs.Shell.Trouble
import RecordFs.Store.Action

/-! What a command does to the machine it runs on, as a tree of calls. -/
namespace RecordFs.Shell

/-- A call, with the type of its reply. One store is open at a time. -/
inductive Call : Type → Type 1 where
  | pathExists (path : String) : Call Bool
  | isDirectory (path : String) : Call Bool
  | readText (path : String) : Call (Except SystemFailure String)
  /-- Makes a directory and those above it. -/
  | makeDirectories (path : String) : Call (Except SystemFailure Unit)
  /-- Opens a store file, and makes one where there is none. -/
  | openStore (path : String) : Call (Reply Unit)
  | onStore {α : Type} (access : Access α) : Call α
  | closeStore : Call (Reply Unit)
  | input : Call (Except SystemFailure ByteArray)
  | print (bytes : ByteArray) : Call (Except SystemFailure Unit)
  | report (line : String) : Call (Except SystemFailure Unit)
  /-- Mounts the open store and serves it from then on. -/
  | mount (point : String) (options : Mount.Options) : Call (Except SystemFailure Unit)
  | awaitStop : Call Unit
  | unmount : Call Unit

inductive Script (α : Type) : Type 1 where
  | done (a : α)
  | call {β : Type} (c : Call β) (next : β → Script α)

namespace Script

variable {α β γ : Type}

def bind : Script α → (α → Script β) → Script β
  | done a, f => f a
  | call c next, f => call c fun r => (next r).bind f

instance : Monad Script where
  pure := done
  bind := bind

@[simp] theorem pure_eq (a : α) : (pure a : Script α) = done a := rfl

@[simp] theorem bind_eq (x : Script α) (f : α → Script β) : x >>= f = x.bind f := rfl

theorem bind_done (x : Script α) : x.bind done = x := by
  induction x with
  | done a => rfl
  | call c next ih => simp [bind, ih]

theorem bind_assoc (x : Script α) (f : α → Script β) (g : β → Script γ) :
    (x.bind f).bind g = x.bind fun a => (f a).bind g := by
  induction x with
  | done a => rfl
  | call c next ih => simp [bind, ih]

instance : LawfulMonad Script := LawfulMonad.mk' Script bind_done (fun _ _ => rfl) bind_assoc

/-- Runs a script where `answer` says what each call does. -/
def run {m : Type → Type} [Monad m] (answer : {β : Type} → Call β → m β) : Script α → m α
  | done a => return a
  | call c next => do (next (← answer c)).run answer

end Script

/-- Commands: they may fail with a chain of causes, and keep the root of the open store in memory. One that
panics says nothing more. -/
abbrev Running := ExceptT Trouble (StateT Cache (OptionT Script))
end RecordFs.Shell
