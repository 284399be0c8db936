import RecordFs.Proofs.Volume.Answering
import RecordFs.Volume.Call

/-! What each call is going to do, read off the outline: why it is refused, or which records it
stores in which order. Identifiers of new records are only known to be unused. -/
namespace RecordFs.Outline
open Volume

/-- One record stored anew. -/
inductive Change where
  | inode (i : Inode)
  | table (d : Directory)
  | content (id : Id) (view : Nat → UInt8)

def apply (o : Outline) : Change → Outline
  | .inode i => o.setInode i
  | .table d => o.setTable d
  | .content id view => o.setContent id view

/-- The changes that a call may make, with its answers. -/
abbrev Plan (α : Type) := List Change → α → Prop

/-- A plan that leaves no choice. -/
def Plan.just {α : Type} (changes : List Change) (answer : α) : Plan α := fun cs a => cs = changes ∧ a = answer

/-- Nothing is stored under the identifier and nothing names it. -/
structure Unused (o : Outline) (id : Id) : Prop where
  inode : o.inode id = none
  table : o.table id = none
  content : o.content id = none
  data : ∀ x i, o.inode x = some i → i.data ≠ id
  child : ∀ x d k, o.table x = some d → d.named? k ≠ some id

/-- A new inode, both of whose identifiers are unused. -/
structure New (o : Outline) (i : Inode) : Prop where
  self : o.Unused i.self
  data : o.Unused i.data
  apart : i.self ≠ i.data

variable (o : Outline) (now : Int64) (path : String)

def planQuery {α : Type} (answer : Except Failure α) : Except Failure (Plan α) := do return .just [] (← answer)

def planChange (f : Inode → Inode) : Except Failure (Plan Unit) := do
  let inode ← o.resolve path
  return .just [.inode { f inode with ctime := now }] ()

/-- A free slot for an entry of this name. -/
structure Opening where
  parent : Inode
  name : String
  table : Directory
  slot : Fin dirEntries

def opening : Except Failure Opening := do
  let (parent, name) ← o.resolveParent path
  let table ← o.directory parent path
  if (table.find? name).isSome then .error (.alreadyExists path)
  else match table.slots.findFinIdx? (·.isFree) with
    | none => .error (.directoryFull (Path.directoryOf path))
    | some slot => .ok ⟨parent, name, table, slot⟩

variable {o path} in
theorem opening_eq_ok {place : Opening} : o.opening path = .ok place ↔
    o.resolveParent path = .ok (place.parent, place.name) ∧ o.directory place.parent path = .ok place.table ∧
      place.table.find? place.name = none ∧ place.table.slots.findFinIdx? (·.isFree) = some place.slot := by
  simp only [opening, bind_eq_ok, ite_error_eq_ok, Bool.not_eq_true, Option.isSome_eq_false_iff, Option.isNone_iff_eq_none]
  constructor
  · rintro ⟨⟨parent, name⟩, resolved, table, listed, new, found⟩
    cases free : table.slots.findFinIdx? (·.isFree) with
    | none =>
      rw [free] at found
      cases found
    | some slot =>
      rw [free] at found
      cases found
      exact ⟨resolved, listed, new, free⟩
  · rintro ⟨resolved, listed, new, free⟩
    exact ⟨(place.parent, place.name), resolved, place.table, listed, new, by rw [free]⟩

/-- What a new entry of a kind starts with. -/
def emptyData (data : Id) : EntryKind → Change
  | .directory => .table (.empty data)
  | .file => .content data fun _ => 0

theorem inode_apply_emptyData (o : Outline) (data : Id) (kind : EntryKind) :
    (o.apply (emptyData data kind)).inode = o.inode := by
  cases kind <;> rfl

theorem table_apply_emptyData (o : Outline) {data id : Id} (kind : EntryKind) (other : id ≠ data) :
    (o.apply (emptyData data kind)).table id = o.table id := by
  cases kind with
  | directory => exact Function.update_of_ne other ..
  | file => rfl

/-- The table with the new entry in the free slot. -/
def Opening.filled (place : Opening) (self : Id) : Directory := place.table.put place.slot ⟨place.name, self⟩

/-- The entry is stored before the table that names it. -/
def Opening.changes (place : Opening) (now : Int64) (inode : Inode) : List Change :=
  [emptyData inode.data inode.kind, .inode inode, .table (place.filled inode.self),
    .inode (touched now place.parent (place.filled inode.self).count)]

def planMake (mode uid gid : UInt32) : Except Failure (Plan Attributes) := do
  let place ← o.opening path
  return fun changes answer => ∃ self data, o.New (.new self data mode uid gid now) ∧
    changes = place.changes now (.new self data mode uid gid now) ∧
    answer = .ofInode (.new self data mode uid gid now)

def planDetach (parent : Inode) (table : Directory) (name : String) : Except Failure (Plan Unit) :=
  match table.remove? name with
  | none => .error (.notFound name)
  | some (_, table) => .ok <| .just [.table table, .inode (touched now parent table.count)] ()

def planRemoveFile : Except Failure (Plan Unit) := do
  let (parent, name) ← o.resolveParent path
  let table ← o.directory parent path
  match table.find? name with
  | none => .error (.notFound path)
  | some id => do
    let inode ← load (o.inode id) id
    if inode.isDirectory then .error (.isADirectory path) else planDetach now parent table name

def planRemoveDirectory : Except Failure (Plan Unit) := do
  let target ← o.resolve path
  let table ← o.directory target path
  if table.isEmpty then do
    let (parent, name) ← o.resolveParent path
    planDetach now parent (← o.directory parent path) name
  else .error (.directoryNotEmpty path)

/-- The bytes of a file of this size, and zeros after them. -/
def within (size : Nat) (view : Nat → UInt8) (n : Nat) : UInt8 := if n < size then view n else 0

/-- In the first `size` bytes each block is as it was or has its part of `data`. -/
def Torn (old : Nat → UInt8) (size : Nat) (data : ByteArray) (offset : Nat) (view : Nat → UInt8) : Prop :=
  ∀ k, (∀ n < size, n / blockSize = k → view n = old n) ∨
    ∀ n < size, n / blockSize = k → view n = Content.overlaid old data offset (offset + data.size) n

/-- The first bytes are those of the file, zeros after its end, with `data` laid over them. -/
def Filled (old : Nat → UInt8) (size : Nat) (data : ByteArray) (offset : Nat) (view : Nat → UInt8) : Prop :=
  ∀ n < max size (offset + data.size),
    view n = Content.overlaid (within size old) data offset (offset + data.size) n

/-- Bytes are laid over a file, which then has another size. -/
def storing {α : Type} (now : Int64) (inode : Inode) (old : Nat → UInt8) (data : ByteArray) (offset size : Nat)
    (answer : α) : Plan α := fun changes a =>
  a = answer ∧ ∃ torn filled, Torn old inode.size.toNat data offset torn ∧ Filled old inode.size.toNat data offset filled ∧
    changes = [.content inode.data torn, .content inode.data filled, .inode (touched now inode size)]

def planStore {α : Type} (inode : Inode) (data : ByteArray) (offset size : Nat) (answer : α) :
    Except Failure (Plan α) := do
  return storing now inode (← load (o.content inode.data) inode.data) data offset size answer

def planWrite (data : ByteArray) (offset : Nat) : Except Failure (Plan Nat) := do
  let _ ← Content.checkExtent offset data.size
  let inode ← o.resolveFile path
  if data.isEmpty then return .just [] 0
  else o.planStore now inode data offset (max inode.size.toNat (offset + data.size)) data.size

def planResize (size : Nat) : Except Failure (Plan Unit) := do
  if maxFileSize < size then .error (.fileTooLarge size maxFileSize)
  else
    let inode ← o.resolveFile path
    if inode.size.toNat < size then
      o.planStore now inode (zeros (size - inode.size.toNat)) inode.size.toNat size ()
    else return .just [.inode (touched now inode size)] ()

/-- A plan whose answer is told in another form. -/
def Plan.map {α β : Type} (f : α → β) (plan : Plan α) : Plan β := fun changes b => ∃ a, f a = b ∧ plan changes a

/-- The plan of a call. -/
def plan : Call → Except Failure (Plan Answer)
  | .attributes path => Plan.map .attributes <$> planQuery (o.attributes path)
  | .names path => Plan.map .names <$> planQuery (o.names path)
  | .entries path => Plan.map .entries <$> planQuery (o.entries path)
  | .setMode path mode => Plan.map (fun _ => .done) <$> o.planChange now path fun i =>
      { i with mode := (i.mode &&& Mode.typeMask) ||| (mode &&& Mode.permissionMask) }
  | .setOwner path uid gid => Plan.map (fun _ => .done) <$> o.planChange now path fun i =>
      { i with uid := uid.getD i.uid, gid := gid.getD i.gid }
  | .setTimes path atime mtime => Plan.map (fun _ => .done) <$> o.planChange now path fun i =>
      { i with atime := atime.getD i.atime, mtime := mtime.getD i.mtime }
  | .makeFile path mode uid gid =>
      Plan.map .attributes <$> o.planMake now path (Mode.regular ||| (mode &&& Mode.permissionMask)) uid gid
  | .makeDirectory path mode uid gid =>
      Plan.map .attributes <$> o.planMake now path (Mode.directory ||| (mode &&& Mode.permissionMask)) uid gid
  | .removeFile path => Plan.map (fun _ => .done) <$> o.planRemoveFile now path
  | .removeDirectory path => Plan.map (fun _ => .done) <$> o.planRemoveDirectory now path
  | .read path offset length => Plan.map .bytes <$> planQuery (o.read path offset.toNat length)
  | .write path data offset => Plan.map .count <$> o.planWrite now path data offset.toNat
  | .resize path size => Plan.map (fun _ => .done) <$> o.planResize now path size.toNat
  | .settle _ => .ok (.just [] .done)

end RecordFs.Outline
