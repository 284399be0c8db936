import RecordFs.Record.Inode
import RecordFs.Store.Access

/-! Typed access to records, and the root inode kept in memory. Whatever is written under the
root's key is taken into memory as well, so paths start from what is stored. -/
namespace RecordFs

structure Root where
  key : Id
  inode : Inode
  deriving DecidableEq, Repr

/-- What is kept in memory between calls: the root, once it is known. -/
abbrev Cache := Option Root

/-- Programs that may fail, with the cache as their state. A failure keeps the state reached. -/
abbrev Action := ExceptT Failure (StateT Cache Access)

namespace Store

/-- Makes calls of which the reply may be a fault. -/
def call {α : Type} (access : Access (Reply α)) : Action α := do
  match ← (monadLift access : StateT Cache Access (Reply α)) with
  | .ok a => pure a
  | .error fault => throw (.store (.fault fault))

def get (id : Id) : Action (Option ByteArray) := call (.get id .done)

def freshId : Action Id := ExceptT.lift (StateT.lift (.fresh .done))

def contains (id : Id) : Action Bool := return (← get id).isSome

/-- Bytes that are no record are a failure. -/
def expect {α : Type} : Except Malformed α → Action α
  | .ok a => pure a
  | .error e => throw (.malformed e)

/-- The bytes under a key, which must have the size of the kind. -/
def fetch (id : Id) (kind : Kind) : Action ByteArray := do
  match ← get id with
  | none => throw (.store (.absent id))
  | some bytes =>
    expect (kind.check bytes)
    return bytes

/-- Stores bytes; under the root's key they become the root in memory. -/
def put (id : Id) (bytes : ByteArray) : Action Unit := do
  call (.put id bytes .done)
  if let some root := (← MonadState.get : Cache) then
    if root.key = id then
      let inode ← expect (Stored.read Inode bytes)
      MonadState.set (some { root with inode } : Cache)

def load (ρ : Type) [Stored ρ] (id : Id) : Action ρ := do
  expect (Stored.decode (← fetch id (Stored.kind ρ)))

def save {ρ : Type} [Stored ρ] (id : Id) (record : ρ) : Action Unit := put id (Stored.encode record)

/-- Stores an inode under its own key. -/
def saveInode (inode : Inode) : Action Unit := save inode.self inode

def root? : Action Cache := MonadState.get

/-- Takes an inode as the root. Only the first has any effect. -/
def attachRoot (inode : Inode) : Action Bool := do
  match ← root? with
  | some _ => return false
  | none =>
    MonadState.set (some ⟨inode.self, inode⟩ : Cache)
    return true

end Store
end RecordFs
