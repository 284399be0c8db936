import RecordFs.Proofs.Store.Exchanges
import RecordFs.Proofs.Volume.Asking
import RecordFs.Proofs.Volume.Reachable

/-! Whole histories of a store: a volume on it is opened, and opened again, and called, any number of
times. A history is one program, so what holds of programs holds of it from end to end. -/
namespace RecordFs
open Volume

namespace Volume

inductive Step where
  | opening (options : Options) (now : Int64)
  | calling (now : Int64) (call : Call)

/-- Opening forgets the root in memory, as a new process does. -/
def Step.perform : Step → Action Answer
  | opening options now => do
    MonadState.set (none : Cache)
    openRoot options now
    return .done
  | calling now call => call.perform now

/-- Steps one after another, with the reply to each. -/
def performAll : List Step → Cache → Access (List (Except Failure Answer))
  | [], _ => .done []
  | step :: rest, cache => (step.perform.run.run cache).bind fun (reply, cache) =>
      (performAll rest cache).bind fun replies => .done (reply :: replies)

end Volume

namespace Disk

/-- The replies to the steps, and the disk after them. At first no volume is open. -/
def serve (disk : Disk) (steps : List Step) : List (Except Failure Answer) × Disk :=
  (performAll steps none).run backend disk

/-- The gets and puts of all the steps. -/
def exchanges (disk : Disk) (steps : List Step) : List Exchange := (performAll steps none).exchanges backend disk

end Disk

/-- A volume is opened and gets a file. -/
def oneFile : List Step := [.opening {} 0, .calling 1 (.makeFile "/a" 0o644 0 0)]

/-- A root and a file take two identifiers each. -/
theorem frugal_oneFile : (performAll oneFile none).Frugal 4 := by
  have opened : Asks 2 (Step.opening {} 0).perform :=
    (Asks.setCache none).after fun _ => (Asks.openRoot 0 {}).bind (n := 0) fun _ => .pure _
  have made : Asks 2 (Step.calling 1 (.makeFile "/a" 0o644 0 0)).perform := (Asks.make 1 "/a" _ 0 0).map _
  refine Access.Frugal.bind (n := 2) (opened none) fun ⟨_, cache⟩ => ?_
  refine Access.Frugal.bind (n := 0) ?_ fun _ => trivial
  exact Access.Frugal.bind (n := 0) (made cache) fun _ => trivial

theorem supplied_oneFile : (Disk.counting.serve oneFile).2.Supplied := by
  have few (disk : Disk) : (disk.serve oneFile).2.issued ≤ disk.issued + 4 := Disk.issued_run_le frugal_oneFile disk
  have supply (disk : Disk) : (disk.serve oneFile).2.supply = disk.supply := (Disk.like_run _ disk).supply
  exact Disk.supplied_of_counting (supply _) (Nat.lt_of_le_of_lt (few _) (by decide))

end RecordFs
