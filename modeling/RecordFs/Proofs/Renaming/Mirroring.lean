import RecordFs.Proofs.Renaming.Copies
import RecordFs.Store.Action

/-! Programs that do the same under other names: they make the same calls, and as long as these get
the same replies, all under other names, they come to the same outcome under other names. -/
namespace RecordFs
open Renaming

/-- Two replies to a get that are the same under other names. -/
inductive Found (σ : Renaming) : Reply (Option ByteArray) → Reply (Option ByteArray) → Prop where
  | fault (f : Fault) : Found σ (.error f) (.error f)
  | none : Found σ (.ok none) (.ok none)
  | some {a b : ByteArray} (copy : Copy σ a b) : Found σ (.ok (some a)) (.ok (some b))

theorem Found.of_rel {σ : Renaming} {r r' : Option ByteArray} (h : Option.Rel (Copy σ) r r') : Found σ (.ok r) (.ok r') := by
  cases h with
  | none => exact .none
  | some copy => exact .some copy

namespace Access
variable {α β γ δ : Type} {σ : Renaming}

/-- Both programs make the same calls under other names, and their results are related. -/
def Mirrors (σ : Renaming) (R : α → β → Prop) : Access α → Access β → Prop
  | done a, done b => R a b
  | get id next, get id' next' => id' = rename σ id ∧ ∀ r r', Found σ r r' → Mirrors σ R (next r) (next' r')
  | put id bytes next, put id' bytes' next' =>
    id' = rename σ id ∧ Copy σ bytes bytes' ∧ ∀ r, Mirrors σ R (next r) (next' r)
  | fresh next, fresh next' => ∀ id, Mirrors σ R (next id) (next' (rename σ id))
  | _, _ => False

theorem mirrors_bind {R : α → β → Prop} {S : γ → δ → Prop} {x : Access α} {y : Access β} {f : α → Access γ}
    {g : β → Access δ} (h : x.Mirrors σ R y) (next : ∀ a b, R a b → (f a).Mirrors σ S (g b)) :
    (x.bind f).Mirrors σ S (y.bind g) := by
  induction x generalizing y with
  | done a =>
    cases y with
    | done b => exact next a b h
    | get | put | fresh => exact h.elim
  | get id rest ih =>
    cases y with
    | get id' rest' => exact ⟨h.1, fun r r' found => ih r (h.2 r r' found)⟩
    | done | put | fresh => exact h.elim
  | put id bytes rest ih =>
    cases y with
    | put id' bytes' rest' => exact ⟨h.1, h.2.1, fun r => ih r (h.2.2 r)⟩
    | done | get | fresh => exact h.elim
  | fresh rest ih =>
    cases y with
    | fresh rest' => exact fun id => ih id (h id)
    | done | get | put => exact h.elim

end Access

variable {α β γ δ : Type} {σ : Renaming} {R : α → β → Prop} {S : γ → δ → Prop}

/-- The same value under other names. -/
def Renamed {α : Type} [Renames α] (σ : Renaming) (a b : α) : Prop := b = rename σ a

/-- Two results that are both refusals, the same under other names, or are both none. -/
def Outcome (σ : Renaming) (R : α → β → Prop) : Except Failure α → Except Failure β → Prop
  | .ok a, .ok b => R a b
  | .error e, .error e' => Renamed σ e e'
  | _, _ => False

/-- Both actions do the same under other names, from the same root in memory under other names on. -/
def Mirrors (σ : Renaming) (R : α → β → Prop) (x : Action α) (y : Action β) : Prop :=
  ∀ c, (x.run.run c).Mirrors σ (fun r r' => Outcome σ R r.1 r'.1 ∧ Renamed σ r.2 r'.2) (y.run.run (rename σ c))

namespace Mirrors

theorem pure {a : α} {b : β} (same : R a b) : Mirrors σ R (pure a) (pure b) := fun _ => ⟨same, rfl⟩

theorem throw {e e' : Failure} (same : e' = rename σ e) : Mirrors σ R (throw e) (throw e') := fun _ => ⟨same, rfl⟩

theorem bind {x : Action α} {y : Action β} {f : α → Action γ} {g : β → Action δ} (h : Mirrors σ R x y)
    (next : ∀ a b, R a b → Mirrors σ S (f a) (g b)) : Mirrors σ S (x >>= f) (y >>= g) := by
  intro c
  apply Access.mirrors_bind (h c)
  rintro ⟨r, c⟩ ⟨r', c'⟩ ⟨same, cache⟩
  cases cache
  cases r with
  | ok a =>
    cases r' with
    | ok b => exact next a b same c
    | error e' => exact same.elim
  | error e =>
    cases r' with
    | ok b => exact same.elim
    | error e' => exact ⟨same, rfl⟩

theorem map {x : Action α} {y : Action β} {f : α → γ} {g : β → δ} (h : Mirrors σ R x y)
    (next : ∀ a b, R a b → S (f a) (g b)) : Mirrors σ S (f <$> x) (g <$> y) := by
  rw [← bind_pure_comp, ← bind_pure_comp]
  exact h.bind fun a b same => .pure (next a b same)

theorem ofExcept {v : Except Failure α} {v' : Except Failure β} (same : Outcome σ R v v') :
    Mirrors σ R (MonadExcept.ofExcept v) (MonadExcept.ofExcept v') := by
  cases v with
  | ok a =>
    cases v' with
    | ok b => exact .pure same
    | error e' => exact same.elim
  | error e =>
    cases v' with
    | ok b => exact same.elim
    | error e' => exact .throw same

theorem ite {p q : Prop} [Decidable p] [Decidable q] {x x' : Action α} {y y' : Action β} (same : q ↔ p)
    (first : p → Mirrors σ R x y) (second : ¬ p → Mirrors σ R x' y') :
    Mirrors σ R (if p then x else x') (if q then y else y') := by
  by_cases h : p
  · rw [if_pos h, if_pos (same.mpr h)]
    exact first h
  · rw [if_neg h, if_neg (mt same.mp h)]
    exact second h

end Mirrors

namespace Store

theorem mirrors_get (σ : Renaming) (id : Id) : Mirrors σ (Option.Rel (Copy σ)) (get id) (get (rename σ id)) := by
  intro c
  refine ⟨rfl, fun r r' found => ?_⟩
  cases found with
  | fault f => exact ⟨rfl, rfl⟩
  | none => exact ⟨.none, rfl⟩
  | some copy => exact ⟨.some copy, rfl⟩

theorem mirrors_freshId (σ : Renaming) : Mirrors σ (Renamed σ) freshId freshId := fun _ _ => ⟨rfl, rfl⟩

theorem mirrors_cache (σ : Renaming) : Mirrors σ (Renamed σ) (MonadState.get : Action Cache) (MonadState.get : Action Cache) :=
  fun _ => ⟨rfl, rfl⟩

theorem mirrors_setCache (σ : Renaming) (c : Cache) : Mirrors σ (Renamed σ) (MonadState.set c : Action PUnit)
    (MonadState.set (rename σ c) : Action PUnit) := fun _ => ⟨rfl, rfl⟩

theorem mirrors_expect {v : Except Malformed α} {v' : Except Malformed β} (f : α → β) (same : v' = v.map f) :
    Mirrors σ (fun a b => b = f a) (expect v) (expect v') := by
  subst same
  cases v with
  | ok a => exact .pure rfl
  | error e => exact .throw rfl

theorem mirrors_contains (σ : Renaming) (id : Id) : Mirrors σ (Renamed σ) (contains id) (contains (rename σ id)) := by
  apply (mirrors_get σ id).bind
  intro a b found
  cases found with
  | none => exact .pure rfl
  | some copy => exact .pure rfl

/-- Bytes that are fetched have the size of the kind that was asked for. -/
theorem mirrors_fetch (σ : Renaming) (id : Id) (kind : Kind) :
    Mirrors σ (fun a b => Copy σ a b ∧ a.size = kind.size) (fetch id kind) (fetch (rename σ id) kind) := by
  apply (mirrors_get σ id).bind
  intro a b found
  cases found with
  | none => exact .throw rfl
  | some copy =>
    rename_i a b
    simp only [Kind.check, copy.size]
    by_cases size : a.size = kind.size
    · rw [if_pos size]
      exact .pure ⟨copy, size⟩
    · rw [if_neg size]
      exact .throw rfl

section record
variable {ρ : Type} [Stored ρ] [Renames ρ] [Copied ρ]

theorem mirrors_load (σ : Renaming) (ρ : Type) [Stored ρ] [Renames ρ] [Copied ρ] (id : Id) :
    Mirrors σ (Renamed σ) (load ρ id) (load ρ (rename σ id)) := by
  apply (mirrors_fetch σ id _).bind
  rintro a b ⟨copy, size⟩
  have read := Copied.reads (ρ := ρ) copy
  rw [ReadsAlike, Stored.read_of_size size, Stored.read_of_size (copy.size.trans size)] at read
  exact mirrors_expect (rename σ) read

theorem mirrors_put {a b : ByteArray} (copy : Copy σ a b) (id : Id) :
    Mirrors σ (Renamed σ) (put id a) (put (rename σ id) b) := by
  have stored : Mirrors σ (Renamed σ) (call (.put id a .done)) (call (.put (rename σ id) b .done)) := by
    intro c
    refine ⟨rfl, copy, fun r => ?_⟩
    cases r with
    | ok _ => exact ⟨rfl, rfl⟩
    | error f => exact ⟨rfl, rfl⟩
  apply stored.bind
  intro _ _ _
  apply (mirrors_cache σ).bind
  rintro c _ rfl
  cases c with
  | none => exact .pure rfl
  | some root =>
    apply Mirrors.ite (rename_inj σ)
    · intro _
      apply (mirrors_expect (rename σ) (Copied.reads copy)).bind
      rintro inode _ rfl
      exact mirrors_setCache σ (some { root with inode })
    · intro _
      exact .pure rfl

theorem mirrors_save (σ : Renaming) (id : Id) (r : ρ) :
    Mirrors σ (Renamed σ) (save id r) (save (rename σ id) (rename σ r)) := mirrors_put (Copied.copy σ r) id

end record

theorem mirrors_saveInode (σ : Renaming) (i : Inode) : Mirrors σ (Renamed σ) (saveInode i) (saveInode (rename σ i)) :=
  mirrors_save σ i.self i

end Store
end RecordFs
