import RecordFs.Proofs.Volume.Admitting
import RecordFs.Proofs.Volume.Histories

/-! References are written once. Whatever is done on an empty store and whichever calls fail, what is stored
under a key stays of its kind, and what it once refers to it refers to for good. -/
namespace RecordFs
open Volume

namespace World
variable {w : World}

/-- The root in memory is forgotten. -/
theorem Sound.forget (h : w.Sound) : Sound { w with cache := none } :=
  { h with
    closed := ⟨h.closed.zero, h.closed.stored, nofun⟩
    root := nofun }

theorem Sound.careful_step (h : w.Sound) (used : w.taken .rootPointer) (step : Step) : Careful step.perform w := by
  cases step with
  | opening options now =>
    have opened := h.forget.careful_openRoot options now rfl used
    exact opened.seq (f := fun _ => return Answer.done) fun _ _ => .pure _
  | calling now call => exact h.careful_perform now used call

theorem Sound.ensures_step_perform (h : w.Sound) (used : w.taken .rootPointer) (step : Step) :
    Ensures True step.perform w fun _ w' => w'.Sound ∧ w'.taken .rootPointer := by
  refine Ensures.taken ?_ used
  cases step with
  | opening options now =>
    have opened : Ensures True (openRoot options now >>= fun _ => return Answer.done) { w with cache := none }
        fun _ w' => w'.Sound := by
      rw [ensures_bind]
      refine (h.forget.ensures_reopen options now rfl used).mono fun r w' sound => ?_
      cases r <;> exact sound
    exact opened
  | calling now call => exact (h.ensures_perform now call).mono fun _ _ leaves => leaves.1

/-- All steps of a history put only what is admitted. -/
theorem Sound.careful_performAll (h : w.Sound) (used : w.taken .rootPointer) (steps : List Step) :
    (performAll steps w.cache).Careful w.toStock := by
  induction steps generalizing w with
  | nil => trivial
  | cons step rest ih =>
    refine Access.Careful.bind (h.careful_step used step) ?_
    refine Access.ensures_mono ?_ (h.ensures_step_perform used step)
    rintro ⟨reply, cache⟩ s ⟨sound, used⟩
    exact (ih sound used).bind (Access.ensures_of_forall (fun _ _ => trivial) _ _)

end World

/-- On an empty store, references are written once: along all that is stored, and so in the store at the end. -/
theorem Disk.Blank.referencesStay {disk : Disk} (blank : disk.Blank) (steps : List Step)
    (supplied : (disk.serve steps).2.Supplied) :
    WriteOnce ((disk.exchanges steps).filterMap Exchange.stored?) ∧
      (disk.serve steps).2.find? = putAll (fun _ => none) ((disk.exchanges steps).filterMap Exchange.stored?) := by
  have nothing : disk.find? = fun _ => none := funext blank.nothing
  have sound := World.sound_of_blank (w := { disk.stock with cache := none }) blank.nothing rfl (.inl rfl)
  have careful : (performAll steps none).Careful disk.stock := sound.careful_performAll (.inr (.inl rfl)) steps
  rw [Disk.stock_eq_since] at careful
  have admitted := admitted_run careful (Nat.zero_le _) supplied.fresh
  have stored := find?_run (performAll steps none) disk
  rw [nothing] at admitted stored
  exact ⟨admitted.writeOnce, stored⟩

theorem referencesStay_oneFile :
    WriteOnce ((Disk.counting.exchanges oneFile).filterMap Exchange.stored?) ∧
      (Disk.counting.serve oneFile).2.find? =
        putAll (fun _ => none) ((Disk.counting.exchanges oneFile).filterMap Exchange.stored?) :=
  have blank : Disk.counting.Blank := ⟨rfl, rfl⟩
  Disk.Blank.referencesStay blank oneFile supplied_oneFile

end RecordFs
