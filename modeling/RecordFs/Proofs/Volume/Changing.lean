import RecordFs.Proofs.Volume.Planning
import RecordFs.Proofs.Volume.Saving

/-! Changes of a store, one record at a time. A call that fails on the way has made the first of
its changes and none of the others. -/
namespace RecordFs
namespace Outline

variable {α β : Type} {faulty : Prop} {o o' : Outline}

/-- These changes are all made, or after a fault the first of them. -/
inductive Carried (faulty : Prop) : List Change → α → Outline → Except Failure α → Outline → Prop where
  | done {answer : α} {o : Outline} (sound : o.Sound) : Carried faulty [] answer o (.ok answer) o
  | fault {c : Change} {changes : List Change} {answer : α} {o : Outline} (sound : o.Sound) (hf : faulty) (f : Fault) :
      Carried faulty (c :: changes) answer o (.error (.ofFault f)) o
  | step {c : Change} {changes : List Change} {answer : α} {o o' : Outline} {r : Except Failure α} (sound : o.Sound)
      (rest : Carried faulty changes answer (o.apply c) r o') : Carried faulty (c :: changes) answer o r o'

/-- A plan is followed, or a fault came before anything was changed. -/
def Follows (faulty : Prop) (plan : Except Failure (Plan α)) (o : Outline) (r : Except Failure α) (o' : Outline) : Prop :=
  (faulty ∧ (∃ f, r = .error (.ofFault f)) ∧ o' = o) ∨
    match plan with
    | .error e => r = .error e ∧ o' = o
    | .ok plan => ∃ changes answer, plan changes answer ∧ Carried faulty changes answer o r o'

namespace Carried
variable {c : Change} {changes : List Change} {answer : α} {r : Except Failure α}

theorem nil (h : Carried faulty [] answer o r o') : o' = o := by
  cases h
  rfl

theorem cons (h : Carried faulty (c :: changes) answer o r o') :
    o' = o ∨ (o.apply c).Sound ∧ Carried faulty changes answer (o.apply c) r o' := by
  cases h with
  | fault sound hf f => exact .inl rfl
  | step sound rest => exact .inr ⟨by cases rest <;> assumption, rest⟩

/-- A call that succeeds has made all its changes. -/
theorem nil_ok {a : α} (h : Carried faulty [] answer o (.ok a) o') : a = answer ∧ o' = o := by
  cases h
  exact ⟨rfl, rfl⟩

theorem cons_ok {a : α} (h : Carried faulty (c :: changes) answer o (.ok a) o') :
    (o.apply c).Sound ∧ Carried faulty changes answer (o.apply c) (.ok a) o' := by
  cases h with
  | step sound rest => exact ⟨by cases rest <;> assumption, rest⟩

/-- What succeeds would have gone the same way where nothing can fail. -/
theorem steady {a : α} (h : Carried faulty changes answer o (.ok a) o') : Carried False changes answer o (.ok a) o' := by
  induction changes generalizing o with
  | nil =>
    cases h with
    | done sound => exact .done sound
  | cons c rest ih =>
    cases h with
    | step sound later => exact .step sound (ih later)

theorem result (h : Carried faulty changes answer o r o') : r = .ok answer ∨ faulty ∧ ∃ f, r = .error (.ofFault f) := by
  induction h with
  | done sound => exact .inl rfl
  | fault sound hf f => exact .inr ⟨hf, f, rfl⟩
  | step sound _ ih => exact ih

end Carried

theorem Carried.map {changes : List Change} {answer : α} {r : Except Failure α} (g : α → β)
    (h : Carried faulty changes answer o r o') : Carried faulty changes (g answer) o (r.map g) o' := by
  induction h with
  | done sound => exact .done sound
  | fault sound hf f => exact .fault sound hf f
  | step sound _ ih => exact .step sound ih

namespace Follows
variable {plan : Except Failure (Plan α)} {r : Except Failure α}

theorem fault (hf : faulty) (f : Fault) : Follows faulty plan o (.error (.ofFault f)) o := .inl ⟨hf, ⟨f, rfl⟩, rfl⟩

theorem refused (e : Failure) : Follows faulty (.error e : Except Failure (Plan α)) o (.error e) o := .inr ⟨rfl, rfl⟩

theorem just {changes : List Change} {answer : α} (h : Carried faulty changes answer o r o') :
    Follows faulty (.ok (.just changes answer)) o r o' := .inr ⟨changes, answer, ⟨rfl, rfl⟩, h⟩

theorem steady {a : α} (h : Follows faulty plan o (.ok a) o') : Follows False plan o (.ok a) o' := by
  rcases h with ⟨_, ⟨f, failed⟩, _⟩ | followed
  · cases failed
  · cases plan with
    | error e => cases followed.1
    | ok plan =>
      obtain ⟨changes, answer, ok, carried⟩ := followed
      exact .inr ⟨changes, answer, ok, carried.steady⟩

/-- What is planned fails with a fault of the store only. -/
theorem fault_of_allowed {plan : Plan α} {e : Failure} (h : Follows faulty (.ok plan) o (.error e) o') :
    ∃ f, e = .ofFault f := by
  rcases h with ⟨_, ⟨f, failed⟩, _⟩ | ⟨_, _, _, carried⟩
  · exact ⟨f, Except.error.inj failed⟩
  · obtain ok | ⟨_, f, failed⟩ := carried.result
    · cases ok
    · exact ⟨f, Except.error.inj failed⟩

theorem map (g : α → β) (h : Follows faulty plan o r o') : Follows faulty (Plan.map g <$> plan) o (r.map g) o' := by
  rcases h with ⟨hf, ⟨f, rfl⟩, same⟩ | followed
  · exact .inl ⟨hf, ⟨f, rfl⟩, same⟩
  · cases plan with
    | error e =>
      obtain ⟨rfl, same⟩ := followed
      exact .inr ⟨rfl, same⟩
    | ok allowed =>
      obtain ⟨changes, answer, ok, carried⟩ := followed
      exact .inr ⟨changes, g answer, ⟨answer, rfl, ok⟩, carried.map g⟩

section map
variable {g : α → β} {r : Except Failure β} (h : Follows faulty (Plan.map g <$> plan) o r o')
include h

/-- A call that changed something had a plan for it. -/
theorem carried : o' = o ∨ ∃ allowed changes a,
    plan = .ok allowed ∧ allowed changes a ∧ Carried faulty changes (g a) o r o' := by
  rcases h with ⟨_, _, same⟩ | followed
  · exact .inl same
  · cases plan with
    | error e => exact .inl followed.2
    | ok allowed =>
      obtain ⟨changes, _, ⟨a, rfl, ok⟩, carried⟩ := followed
      exact .inr ⟨allowed, changes, a, rfl, ok, carried⟩

/-- A call gets the answer of its plan unless there is a fault. -/
theorem result : (∃ allowed changes a, plan = .ok allowed ∧ allowed changes a ∧ r = .ok (g a)) ∨
    (∃ e, plan = .error e ∧ r = .error e) ∨ faulty ∧ ∃ f, r = .error (.ofFault f) := by
  rcases h with ⟨hf, failed, _⟩ | followed
  · exact .inr (.inr ⟨hf, failed⟩)
  · cases plan with
    | error e => exact .inr (.inl ⟨e, rfl, followed.1⟩)
    | ok allowed =>
      obtain ⟨changes, _, ⟨a, rfl, ok⟩, carried⟩ := followed
      exact carried.result.imp (fun same => ⟨allowed, changes, a, rfl, ok, same⟩) .inr

end map

/-- A call that succeeds has followed its plan to the end. -/
theorem succeeded {g : α → β} {x : β} (h : Follows faulty (Plan.map g <$> plan) o (.ok x) o') :
    ∃ allowed changes a, plan = .ok allowed ∧ allowed changes a ∧ Carried faulty changes (g a) o (.ok x) o' := by
  rcases h with ⟨_, ⟨f, failed⟩, _⟩ | followed
  · cases failed
  · cases plan with
    | error e => cases followed.1
    | ok allowed =>
      obtain ⟨changes, _, ⟨a, rfl, ok⟩, carried⟩ := followed
      exact ⟨allowed, changes, a, rfl, ok, carried⟩

end Follows
end Outline

open Outline

namespace World
variable {α β : Type} {faulty : Prop} {w : World}

/-- The store stays sound, and its outline becomes what `P` allows. -/
def Leaves (P : Except Failure α → Outline → Prop) (r : Except Failure α) (w' : World) : Prop :=
  w'.Sound ∧ P r w'.outline

namespace Sound

/-- A record is stored, and the program goes on from there. -/
theorem ensures_step {ρ : Type} [Stored ρ] {id : Id} {record : ρ} {c : Change} {changes : List Change}
    {answer : α} {next : Unit → Action α} (h : w.Sound)
    (root : ∀ r, w.cache = some r → r.key = id → ∃ i, Stored.read Inode (Stored.encode record) = .ok i)
    (saved : (w.save id record).outline = w.outline.apply c)
    (rest : Ensures faulty (next ()) (w.save id record)
      (Leaves (Carried faulty changes answer (w.save id record).outline))) :
    Ensures faulty (Store.save id record >>= next) w (Leaves (Carried faulty (c :: changes) answer w.outline)) := by
  rw [ensures_bind]
  refine Store.ensures_save root (fun hf f => ⟨h, .fault h.outline hf f⟩) ?_
  refine rest.mono fun r w' ⟨sound, carried⟩ => ⟨sound, ?_⟩
  rw [saved] at carried
  exact .step h.outline carried

/-- A program that starts with something known follows the plan that starts so. -/
theorem follows_bind {x : Action β} {v : Except Failure β} {f : β → Action α} {plan : β → Except Failure (Plan α)} (h : w.Sound)
    (hx : Yields faulty x w v)
    (hf : ∀ b, v = .ok b → Ensures faulty (f b) w (Leaves (Follows faulty (plan b) w.outline))) :
    Ensures faulty (x >>= f) w (Leaves (Follows faulty (v >>= plan) w.outline)) := by
  refine hx.andThen (fun hf f => ⟨h, .fault hf f⟩) (fun e he => ⟨h, ?_⟩) (fun b hb => ?_)
  · rw [he]
    exact .refused e
  · rw [hb]
    exact hf b hb

theorem follows_query {x : Action α} {v : Except Failure α} (h : w.Sound) (hx : Yields faulty x w v) :
    Ensures faulty x w (Leaves (Follows faulty (planQuery v) w.outline)) := by
  refine hx.ensures (fun hf f => ⟨h, .fault hf f⟩) ⟨h, ?_⟩
  cases v with
  | error e => exact .refused e
  | ok a => exact .just (.done h.outline)

theorem follows_map (g : α → β) {x : Action α} {plan : Except Failure (Plan α)} {o : Outline}
    (hx : Ensures faulty x w (Leaves (Follows faulty plan o))) :
    Ensures faulty (g <$> x) w (Leaves (Follows faulty (Plan.map g <$> plan) o)) :=
  (ensures_map g x _).mpr (hx.mono fun _ _ ⟨sound, followed⟩ => ⟨sound, followed.map g⟩)

end Sound
end World
end RecordFs
