import RecordFs.Proofs.Strict.Calls
import RecordFs.Proofs.Volume.Histories

/-! Whole histories with every step checked. However a store answers, with bytes of any length, with nothing or
with a fault, no step is taken that must not be: neither in opening a volume nor in any call. -/
namespace RecordFs.Volume

namespace Strict

def step : Step → StrictAction Answer
  | .opening options now => do
    MonadState.set (none : Cache)
    openRoot options now
    return .done
  | .calling now call => perform now call

def performAll : List Step → Cache → ExceptT Slip Access (List (Except Failure Answer))
  | [], _ => return []
  | s :: rest, cache => do
    let (reply, cache) ← (step s).run.run cache
    let replies ← performAll rest cache
    return reply :: replies

end Strict

theorem inStep_step (s : Step) : InStep (fun _ => True) (Strict.step s) s.perform := by
  cases s with
  | opening options now =>
    apply (InStep.setCache none).bind
    intro _ _
    exact (inStep_openRoot now options).bind fun _ _ => .pure trivial
  | calling now call => exact inStep_perform now call

/-- There is a reply to every step. -/
theorem inStep_performAll (steps : List Step) (cache : Cache) :
    Access.InStep (·.length = steps.length) (Strict.performAll steps cache) (performAll steps cache) := by
  induction steps generalizing cache with
  | nil => exact ⟨rfl, rfl⟩
  | cons s rest ih =>
    apply (inStep_step s cache).bind
    rintro ⟨reply, cache⟩ _
    apply (ih cache).bind
    intro replies each
    exact ⟨rfl, congrArg Nat.succ each⟩

/-- On every backend and from every root in memory on, each step is replied to, with an answer or a failure, and
none slips: the replies and what becomes of the store are the same with all checks as without. -/
theorem performAll_never_slips {σ : Type} (backend : Backend σ) (steps : List Step) (cache : Cache) (s : σ) :
    ∃ replies s', (Strict.performAll steps cache).run.run backend s = (.ok replies, s') ∧
      (performAll steps cache).run backend s = (replies, s') ∧ replies.length = steps.length :=
  ⟨_, _, (inStep_performAll steps cache).run backend s, rfl, (inStep_performAll steps cache).ends.run backend s⟩

end RecordFs.Volume
