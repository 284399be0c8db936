import RecordFs.Failure

/-! Programs over a key-value store, as trees of the calls they make. What a program does next
depends only on the replies, so it can be run on any backend, failing or not. -/
namespace RecordFs

abbrev Reply (α : Type) := Except Fault α

inductive Access (α : Type) where
  | done (result : α)
  | get (id : Id) (next : Reply (Option ByteArray) → Access α)
  | put (id : Id) (bytes : ByteArray) (next : Reply Unit → Access α)
  /-- Asks for an identifier that nothing is stored under. -/
  | fresh (next : Id → Access α)

namespace Access

variable {α β σ : Type}

def bind : Access α → (α → Access β) → Access β
  | done a, f => f a
  | get id next, f => get id fun r => (next r).bind f
  | put id bytes next, f => put id bytes fun r => (next r).bind f
  | fresh next, f => fresh fun id => (next id).bind f

instance : Monad Access where
  pure := done
  bind := bind

@[simp] theorem pure_eq (a : α) : (pure a : Access α) = done a := rfl

@[simp] theorem bind_eq (x : Access α) (f : α → Access β) : x >>= f = x.bind f := rfl

theorem bind_done (x : Access α) : x.bind done = x := by
  induction x with
  | done a => rfl
  | get id next ih => simp [bind, ih]
  | put id bytes next ih => simp [bind, ih]
  | fresh next ih => simp [bind, ih]

theorem bind_assoc {γ : Type} (x : Access α) (f : α → Access β) (g : β → Access γ) :
    (x.bind f).bind g = x.bind fun a => (f a).bind g := by
  induction x with
  | done a => rfl
  | get id next ih => simp [bind, ih]
  | put id bytes next ih => simp [bind, ih]
  | fresh next ih => simp [bind, ih]

instance : LawfulMonad Access :=
  LawfulMonad.mk' Access bind_done (fun _ _ => rfl) bind_assoc

end Access

/-- A store with its own state `σ`: how it answers each call, and the identifiers it hands out. -/
structure Backend (σ : Type) where
  get : Id → σ → Reply (Option ByteArray) × σ
  put : Id → ByteArray → σ → Reply Unit × σ
  fresh : σ → Id × σ

namespace Access

variable {α β σ : Type}

def run (backend : Backend σ) : Access α → σ → α × σ
  | done a, s => (a, s)
  | get id next, s => let (r, s) := backend.get id s; (next r).run backend s
  | put id bytes next, s => let (r, s) := backend.put id bytes s; (next r).run backend s
  | fresh next, s => let (id, s) := backend.fresh s; (next id).run backend s

theorem run_bind (backend : Backend σ) (x : Access α) (f : α → Access β) (s : σ) :
    (x.bind f).run backend s = (f (x.run backend s).1).run backend (x.run backend s).2 := by
  induction x generalizing s with
  | done a => rfl
  | get id next ih => exact ih _ _
  | put id bytes next ih => exact ih _ _
  | fresh next ih => exact ih _ _

end Access
end RecordFs
