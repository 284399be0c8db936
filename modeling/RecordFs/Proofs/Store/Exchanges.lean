import RecordFs.Store.Disk

/-! What passes between a program and the store: the gets and puts of a run with the replies to them, in
the order in which they were made. -/
namespace RecordFs

/-- A get or a put, and the reply to it. -/
inductive Exchange where
  | get (id : Id) (reply : Reply (Option ByteArray))
  | put (id : Id) (bytes : ByteArray) (reply : Reply Unit)

namespace Exchange

def isGet : Exchange → Bool
  | get .. => true
  | put .. => false

def failed : Exchange → Bool
  | get _ reply => !reply.isOk
  | put _ _ reply => !reply.isOk

/-- What a put that succeeded has stored. -/
def stored? : Exchange → Option (Id × ByteArray)
  | put id bytes (.ok _) => some (id, bytes)
  | _ => none

end Exchange

namespace Access
variable {α σ : Type}

/-- The exchanges of a run. -/
def exchanges (backend : Backend σ) : Access α → σ → List Exchange
  | done _, _ => []
  | get id next, s => let (r, s) := backend.get id s; .get id r :: (next r).exchanges backend s
  | put id bytes next, s => let (r, s) := backend.put id bytes s; .put id bytes r :: (next r).exchanges backend s
  | fresh next, s => let (id, s) := backend.fresh s; (next id).exchanges backend s

end Access

end RecordFs
