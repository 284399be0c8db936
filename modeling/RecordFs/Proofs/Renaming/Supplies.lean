import RecordFs.Proofs.Volume.Histories
import RecordFs.Proofs.Volume.Reopening

/-! Which identifiers come does not matter. The same history on two empty stores that hand out different
identifiers, where the same gets and puts fail, is the same history under other names. -/
namespace RecordFs
open Renaming Volume

variable {σ : Renaming} {a b : Disk}

namespace Disk

/-- One disk holds what the other holds, under other names, and so does it hand out identifiers, up to some number of
them. A call that fails has the same reply on both. -/
structure Matched (σ : Renaming) (last : Nat) (a b : Disk) : Prop where
  find : ∀ id, Option.Rel (Copy σ) (a.find? id) (b.find? (rename σ id))
  fault : b.fault = a.fault
  issued : b.issued = a.issued
  supply : ∀ n < last, b.supply n = rename σ (a.supply n)

theorem steady_matched (σ : Renaming) (last : Nat) : Steady σ last (Matched σ last) where
  issued h := h.issued
  get h failed id := ⟨found_get h.fault h.find failed id, h.find, h.fault, h.issued, h.supply⟩
  put {a b} h failed id _ bytes' copy := by
    refine ⟨reply_put h.fault failed .., fun x => rel_find?_put h.find failed id x copy, ?_, ?_, ?_⟩
    · rw [fault_put, fault_put, h.fault]
    · rw [issued_put, issued_put, h.issued]
    · rw [(a.like_put id _).supply, (b.like_put _ bytes').supply]
      exact h.supply
  fresh {a b} h before := by
    have next := h.supply a.issued before
    rw [← h.issued] at next
    exact ⟨next.trans (by rw [h.issued]; rfl), h.find, h.fault, congrArg (· + 1) h.issued, h.supply⟩

end Disk

/-! ### Histories -/

theorem Volume.Step.mirrors (σ : Renaming) (step : Step) : Mirrors σ (Renamed σ) step.perform step.perform := by
  cases step with
  | opening options now =>
    apply (Store.mirrors_setCache σ none).bind
    intro _ _ _
    apply (mirrors_openRoot σ now options).bind
    intro _ _ _
    exact .pure rfl
  | calling now call => exact mirrors_perform σ now call

theorem Volume.mirrors_performAll (σ : Renaming) (steps : List Step) (cache : Cache) :
    (performAll steps cache).Mirrors σ (fun replies replies' => replies' = replies.map (rename σ)) (performAll steps (rename σ cache)) := by
  induction steps generalizing cache with
  | nil => rfl
  | cons step rest ih =>
    apply Access.mirrors_bind (step.mirrors σ cache)
    rintro ⟨reply, cache⟩ ⟨reply', _⟩ ⟨same, rfl⟩
    apply Access.mirrors_bind (ih cache)
    rintro replies _ rfl
    exact congrArg (· :: _) (renamed_of_outcome same)

/-- The second disk has the history of the first one under other names: the same gets and puts, the same replies,
and in the end the same store. -/
structure Disk.SameHistory (σ : Renaming) (a b : Disk) (steps : List Step) : Prop where
  exchanges : List.Forall₂ (Exchange.Alike σ) (a.exchanges steps) (b.exchanges steps)
  replies : (b.serve steps).1 = (a.serve steps).1.map (rename σ)
  stored : ∀ id, Option.Rel (Copy σ) ((a.serve steps).2.find? id) ((b.serve steps).2.find? (rename σ id))
  issued : (b.serve steps).2.issued = (a.serve steps).2.issued
  supply : ∀ n < (a.serve steps).2.issued, b.supply n = rename σ (a.supply n)

/-- A history on an empty store does not depend on the identifiers that are handed out. -/
theorem Disk.Blank.sameHistory (blank : a.Blank) (blank' : b.Blank) (begins : b.issued = a.issued) (fault : b.fault = a.fault)
    (steps : List Step) (fails : FailAlike (a.exchanges steps) (b.exchanges steps)) (supplied : (a.serve steps).2.Supplied)
    (supplied' : (b.serve steps).2.Supplied) : ∃ σ : Renaming, Disk.SameHistory σ a b steps := by
  have like : (a.serve steps).2.supply = a.supply := (like_run (performAll steps none) a).supply
  have like' : (b.serve steps).2.supply = b.supply := (like_run (performAll steps none) b).supply
  -- That both take as many identifiers is known only in the end, so they are matched up to the smaller number.
  obtain ⟨σ, matched⟩ := exists_matching supplied supplied'
    (Nat.min_le_left (a.serve steps).2.issued (b.serve steps).2.issued) (Nat.min_le_right _ _)
  rw [like, like'] at matched
  have start : Matched σ (min (a.serve steps).2.issued (b.serve steps).2.issued) a b := by
    refine ⟨fun id => ?_, fault, begins, matched⟩
    rw [blank.nothing, blank'.nothing]
    exact .none
  obtain ⟨replies, alike, ends⟩ := (steady_matched σ _).run (mirrors_performAll σ steps none) start fails (by
    change (a.serve steps).2.issued ≤ _ ∨ (b.serve steps).2.issued ≤ _
    omega)
  have issued : (b.serve steps).2.issued = (a.serve steps).2.issued := ends.issued
  exact ⟨σ, alike, replies, ends.find, issued, fun n before => matched n (by omega)⟩

/-- A blank disk with other identifiers than the one that counts. -/
def Disk.countingHigh : Disk := { supply := fun n => ⟨1, UInt64.ofNat n⟩ }

theorem Disk.supplied_of_countingHigh {disk : Disk} (supply : disk.supply = countingHigh.supply)
    (few : disk.issued < UInt64.size) : disk.Supplied := by
  have number (n : Nat) (before : n < disk.issued) : (disk.supply n).lo.toNat = n := by
    rw [supply]
    exact UInt64.toNat_ofNat_of_lt' (by omega)
  have high (n : Nat) : (disk.supply n).hi = 1 := by
    rw [supply]
    rfl
  refine ⟨fun m hm n hn same => ?_, fun n _ same => ?_, fun n _ same => ?_⟩
  · rw [← number m hm, same, number n hn]
  · exact absurd ((high n).symm.trans (congrArg Id.hi same)) (by decide)
  · exact absurd ((high n).symm.trans (congrArg Id.hi same)) (by decide)

theorem sameHistory_oneFile : ∃ σ : Renaming, Disk.SameHistory σ .counting .countingHigh oneFile := by
  have alike : Disk.counting.SameFailures .countingHigh := ⟨fun _ => rfl, fun _ => rfl, rfl⟩
  have few (disk : Disk) : (disk.serve oneFile).2.issued ≤ disk.issued + 4 := Disk.issued_run_le frugal_oneFile disk
  have supply (disk : Disk) : (disk.serve oneFile).2.supply = disk.supply := (Disk.like_run _ disk).supply
  have supplied' : (Disk.countingHigh.serve oneFile).2.Supplied :=
    Disk.supplied_of_countingHigh (supply _) (Nat.lt_of_le_of_lt (few _) (by decide))
  have blank : Disk.counting.Blank := ⟨rfl, rfl⟩
  have blank' : Disk.countingHigh.Blank := ⟨rfl, rfl⟩
  exact Disk.Blank.sameHistory blank blank' rfl rfl oneFile (alike.failAlike _ _) supplied_oneFile supplied'

end RecordFs
