import RecordFs.Proofs.Renaming.Exchanging
import RecordFs.Proofs.Tree.Refinement

/-! Runs under other names. Two disks that hold the same under other names, let the same calls fail
and hand out matching identifiers give matching replies to programs that do the same. -/
namespace RecordFs
open Renaming Volume

variable {α β : Type} {σ : Renaming} {R : α → β → Prop}

namespace Disk

/-- One disk holds what the other holds, under other names; so does it hand out identifiers, up to some number of them. -/
structure Mirrored (σ : Renaming) (last : Nat) (a b : Disk) : Prop where
  find : ∀ id, Option.Rel (Copy σ) (a.find? id) (b.find? (rename σ id))
  failures : a.SameFailures b
  issued : b.issued = a.issued
  supply : ∀ n, a.issued ≤ n → n < last → b.supply n = rename σ (a.supply n)

variable {last : Nat} {a b : Disk}

theorem steady_mirrored (σ : Renaming) (last : Nat) : Steady σ last (Mirrored σ last) where
  issued h := h.issued
  get h failed id := ⟨found_get h.failures.fault h.find failed id, h.find, h.failures.get _ _, h.issued, h.supply⟩
  put {a b} h failed id _ bytes' copy := by
    refine ⟨reply_put h.failures.fault failed .., fun x => rel_find?_put h.find failed id x copy, h.failures.put _ _ _ _, ?_, ?_⟩
    · rw [issued_put, issued_put, h.issued]
    · rw [issued_put, (a.like_put id _).supply, (b.like_put _ bytes').supply]
      exact h.supply
  fresh {a b} h before := by
    have next := h.supply a.issued (Nat.le_refl _) before
    rw [← h.issued] at next
    exact ⟨next.trans (by rw [h.issued]; rfl), h.find, h.failures.fresh, congrArg (· + 1) h.issued,
      fun n first => h.supply n (Nat.le_of_succ_le first)⟩

theorem Mirrored.run {x : Access α} {y : Access β} (mirrors : x.Mirrors σ R y) (h : Mirrored σ last a b)
    (within : (x.run backend a).2.issued ≤ last ∨ (y.run backend b).2.issued ≤ last) :
    R (x.run backend a).1 (y.run backend b).1 ∧ Mirrored σ last (x.run backend a).2 (y.run backend b).2 :=
  have ⟨reply, _, ends⟩ := (steady_mirrored σ last).run mirrors h (h.failures.failAlike x y) within
  ⟨reply, ends⟩

end Disk

theorem renamed_of_outcome {α : Type} [Renames α] {r r' : Except Failure α} (h : Outcome σ (Renamed σ) r r') : r' = rename σ r := by
  cases r with
  | ok a =>
    cases r' with
    | ok a' => exact congrArg Except.ok h
    | error e' => exact h.elim
  | error e =>
    cases r' with
    | ok a' => exact h.elim
    | error e' => exact congrArg Except.error h

namespace Session
variable {last : Nat} {s t : Session}

/-- One volume is in memory and on its disk what the other is, under other names. -/
structure Mirrored (σ : Renaming) (last : Nat) (s t : Session) : Prop where
  cache : t.cache = rename σ s.cache
  disk : s.disk.Mirrored σ last t.disk

namespace Mirrored

/-- One action. -/
theorem perform (h : Mirrored σ last s t) {x : Action α} {y : Action β} (mirrors : Mirrors σ R x y)
    (within : (s.perform x).2.disk.issued ≤ last ∨ (t.perform y).2.disk.issued ≤ last) :
    Outcome σ R (s.perform x).1 (t.perform y).1 ∧ Mirrored σ last (s.perform x).2 (t.perform y).2 := by
  have same := mirrors s.cache
  rw [← h.cache] at same
  obtain ⟨⟨reply, cache⟩, disk⟩ := h.disk.run same within
  exact ⟨reply, cache, disk⟩

/-- Any calls, one after another. -/
theorem run (h : Mirrored σ last s t) (calls : List (Int64 × Call))
    (within : (s.run calls).2.disk.issued ≤ last ∨ (t.run calls).2.disk.issued ≤ last) :
    (t.run calls).1 = (s.run calls).1.map (rename σ) ∧ Mirrored σ last (s.run calls).2 (t.run calls).2 := by
  induction calls generalizing s t with
  | nil => exact ⟨rfl, h⟩
  | cons first rest ih =>
    obtain ⟨now, call⟩ := first
    have soon : (s.perform (call.perform now)).2.disk.issued ≤ last ∨ (t.perform (call.perform now)).2.disk.issued ≤ last :=
      within.imp (Nat.le_trans (like_run _ rest).issued) (Nat.le_trans (like_run _ rest).issued)
    obtain ⟨reply, h'⟩ := h.perform (mirrors_perform σ now call) soon
    obtain ⟨replies, h''⟩ := ih h' within
    exact ⟨congrArg₂ List.cons (renamed_of_outcome reply) replies, h''⟩

end Mirrored
end Session
end RecordFs
