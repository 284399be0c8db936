import RecordFs.Proofs.Tree.Running

/-! A volume whose store does not fail answers like a tree, whatever is called in whatever order. -/
namespace RecordFs
open Outline Volume

namespace Session

/-- A volume that is opened on an empty disk, none of whose calls fail, answers like a new tree. -/
theorem answers_like_tree {disk : Disk} (blank : disk.Blank) (steady : ¬ disk.Faulty) (options : Options) (now : Int64)
    (calls : List (Int64 × Call))
    (supplied : ((perform ⟨none, disk⟩ (openRoot options now)).2.run calls).2.disk.Supplied) :
    (perform ⟨none, disk⟩ (openRoot options now)).1 = .ok () ∧
      ((perform ⟨none, disk⟩ (openRoot options now)).2.run calls).1.map (·.map Answer.plain) =
        (Tree.new options now).answers calls := by
  have supplied' := (like_run _ calls).supplied supplied
  obtain ⟨sound, ⟨self, data, ok, outline⟩ | ⟨faulty, _⟩⟩ := perform_openRoot blank options now rfl supplied'
  · refine ⟨ok, Shows.run ⟨sound, ?_, ?_⟩ supplied⟩
    · exact mt (like_perform ⟨none, disk⟩ (openRoot options now)).faulty.mp steady
    · rw [outline]
      exact matches_begun options now self data
  · exact absurd faulty steady

/-- A directory and a file in it are made, found and removed again. -/
def comingAndGoing : List (Int64 × Call) :=
  [(1, .makeDirectory "/d" 0o755 0 0), (2, .makeFile "/d/f" 0o644 0 0), (3, .attributes "/d//f"), (4, .names "/d"),
    (5, .removeDirectory "/d"), (6, .removeFile "/d/f"), (7, .removeDirectory "/d"), (8, .attributes "/d/f")]

theorem answers_like_tree_comingAndGoing : Disk.counting.Blank ∧ ¬ Disk.counting.Faulty ∧
    (first.run comingAndGoing).1.map (·.map Answer.plain) = (Tree.new {} 0).answers comingAndGoing ∧
      ((Tree.new {} 0).answers comingAndGoing)[3]? = some (.ok (.names [".", "..", "f"])) ∧
      ((Tree.new {} 0).answers comingAndGoing)[4]? = some (.error (.directoryNotEmpty "/d")) ∧
      ((Tree.new {} 0).answers comingAndGoing)[6]? = some (.ok .done) ∧
      ((Tree.new {} 0).answers comingAndGoing)[7]? = some (.error (.notFound "/d/f")) := by
  have blank : Disk.counting.Blank := ⟨rfl, rfl⟩
  have steady := Disk.not_faulty_counting
  have supplied := (displays_first.after comingAndGoing (by decide)).supplied (by decide)
  rw [after, first] at supplied
  rw [first]
  refine ⟨blank, steady, (answers_like_tree blank steady {} 0 comingAndGoing supplied).2, ?_, ?_, ?_, ?_⟩ <;> decide +kernel

end Session
end RecordFs
