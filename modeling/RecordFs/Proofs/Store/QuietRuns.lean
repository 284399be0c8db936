import RecordFs.Proofs.Store.DiskRuns

/-! Runs in which no call of the store failed. Such a run does not depend on which calls were to
fail: on a disk that never fails it goes the same way. -/
namespace RecordFs.Disk

/-- No get and no put failed from the one state of a disk to the other. -/
structure Quiet (a b : Disk) : Prop where
  gets : ∀ k, a.gets ≤ k → k < b.gets → a.getFails k = false
  puts : ∀ k, a.puts ≤ k → k < b.puts → a.putFails k = false

/-- Nothing fails where nothing can. -/
theorem quiet_of_steady {a b : Disk} (steady : ¬ a.Faulty) : a.Quiet b where
  gets k _ _ := Bool.eq_false_iff.mpr fun fails => steady (.inl ⟨k, fails⟩)
  puts k _ _ := Bool.eq_false_iff.mpr fun fails => steady (.inr ⟨k, fails⟩)

/-- The same disk without failures. -/
def calm (disk : Disk) : Disk := { disk with getFails := fun _ => false, putFails := fun _ => false }

theorem not_faulty_calm (disk : Disk) : ¬ disk.calm.Faulty := by
  rintro (⟨k, fails⟩ | ⟨k, fails⟩)
  · cases fails
  · cases fails

theorem gets_put (disk : Disk) (id : Id) (bytes : ByteArray) : (disk.put id bytes).2.gets = disk.gets := by
  cases failed : disk.putFails disk.puts <;> simp [put, failed]

theorem puts_put (disk : Disk) (id : Id) (bytes : ByteArray) : (disk.put id bytes).2.puts = disk.puts + 1 := by
  cases failed : disk.putFails disk.puts <;> simp [put, failed]

theorem fault_put (disk : Disk) (id : Id) (bytes : ByteArray) : (disk.put id bytes).2.fault = disk.fault := by
  cases failed : disk.putFails disk.puts <;> simp [put, failed]

/-- Calls are counted up. -/
theorem counts_run {α : Type} (x : Access α) (disk : Disk) :
    disk.gets ≤ (x.run backend disk).2.gets ∧ disk.puts ≤ (x.run backend disk).2.puts := by
  induction x generalizing disk with
  | done a => exact ⟨Nat.le_refl _, Nat.le_refl _⟩
  | get id next ih =>
    obtain ⟨gets, puts⟩ := ih (disk.get id).1 (disk.get id).2
    exact ⟨Nat.le_of_succ_le gets, puts⟩
  | put id bytes next ih =>
    obtain ⟨gets, puts⟩ := ih (disk.put id bytes).1 (disk.put id bytes).2
    rw [gets_put] at gets
    rw [puts_put] at puts
    exact ⟨gets, Nat.le_of_succ_le puts⟩
  | fresh next ih => exact ih disk.fresh.1 disk.fresh.2

theorem Quiet.of_le {a b c : Disk} (quiet : Quiet a c) (like : Like a b) (gets : a.gets ≤ b.gets)
    (puts : a.puts ≤ b.puts) : Quiet b c := by
  constructor
  · intro k after before
    rw [like.getFails]
    exact quiet.gets k (by omega) before
  · intro k after before
    rw [like.putFails]
    exact quiet.puts k (by omega) before

theorem Quiet.of_get {disk t : Disk} {id : Id} (failed : disk.getFails disk.gets = false)
    (rest : Quiet (disk.get id).2 t) : Quiet disk t where
  gets k after before := by
    rcases Nat.eq_or_lt_of_le after with rfl | after
    · exact failed
    · exact rest.gets k after before
  puts := rest.puts

theorem Quiet.of_put {disk t : Disk} {id : Id} {bytes : ByteArray} (failed : disk.putFails disk.puts = false)
    (rest : Quiet (disk.put id bytes).2 t) : Quiet disk t where
  gets k after before := by
    rw [← (disk.like_put id bytes).getFails]
    exact rest.gets k (by rwa [gets_put]) before
  puts k after before := by
    rcases Nat.eq_or_lt_of_le after with rfl | after
    · exact failed
    · rw [← (disk.like_put id bytes).putFails]
      exact rest.puts k (by rwa [puts_put]) before

/-- A run in which nothing failed is also a run without failures. -/
theorem run_calm {α : Type} (x : Access α) (disk : Disk) (quiet : Quiet disk (x.run backend disk).2) :
    x.run backend disk.calm = ((x.run backend disk).1, (x.run backend disk).2.calm) := by
  induction x generalizing disk with
  | done a => rfl
  | get id next ih =>
    -- The counts never fall, so the number of this get lies between those at the start and at the end.
    have le := (counts_run (next (disk.get id).1) (disk.get id).2).1
    have answered : disk.getFails disk.gets = false := quiet.gets _ (Nat.le_refl _) le
    have same : disk.calm.get id = ((disk.get id).1, (disk.get id).2.calm) := by
      simp only [get, calm, answered]
      rfl
    have rest := ih (disk.get id).1 (disk.get id).2
      (quiet.of_le (disk.like_get id) (Nat.le_succ _) (Nat.le_refl _))
    change (next (disk.calm.get id).1).run backend (disk.calm.get id).2 = _
    rw [same]
    exact rest
  | put id bytes next ih =>
    have le := (counts_run (next (disk.put id bytes).1) (disk.put id bytes).2).2
    rw [puts_put] at le
    have answered : disk.putFails disk.puts = false := quiet.puts _ (Nat.le_refl _) le
    have same : disk.calm.put id bytes = ((disk.put id bytes).1, (disk.put id bytes).2.calm) := by
      simp only [put, calm, answered]
      rfl
    have rest := ih (disk.put id bytes).1 (disk.put id bytes).2
      (quiet.of_le (disk.like_put id bytes) (Nat.le_of_eq (gets_put disk id bytes).symm) (by
        rw [puts_put]
        exact Nat.le_succ _))
    change (next (disk.calm.put id bytes).1).run backend (disk.calm.put id bytes).2 = _
    rw [same]
    exact rest
  | fresh next ih =>
    exact ih disk.fresh.1 disk.fresh.2 (quiet.of_le disk.like_fresh (Nat.le_refl _) (Nat.le_refl _))

/-- A run in which nothing failed ends in what is ensured of a store that cannot fail. -/
theorem run_ensures_of_quiet {α : Type} {x : Access α} {disk : Disk} {taken : Id → Prop} {Q : α → Stock → Prop}
    (h : x.Ensures False ⟨disk.find?, taken⟩ Q) (quiet : Quiet disk (x.run backend disk).2)
    (fresh : (x.run backend disk).2.Fresh taken disk.issued) :
    Q (x.run backend disk).1 ((x.run backend disk).2.since taken disk.issued) := by
  have calm := run_calm x disk quiet
  have ensured : x.Ensures False (disk.calm.since taken disk.calm.issued) Q := by
    rw [since_issued]
    exact h
  have ends := run_ensures_since ensured (Nat.le_refl _) (by rw [calm]; exact ⟨fresh.new, fresh.distinct⟩)
    disk.not_faulty_calm
  rwa [calm] at ends

end RecordFs.Disk
