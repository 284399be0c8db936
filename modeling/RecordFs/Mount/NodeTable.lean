import RecordFs.Record.Inode

/-! Numbers under which a kernel knows the entries of a volume. A number stands for one path as long
as it is in the table; it leaves when the kernel has forgotten it as often as it was told of it. -/
namespace RecordFs.Mount

structure Node where
  path : String
  kind : EntryKind
  /-- How often the kernel was told of this number and has not forgotten it, in a word that wraps. -/
  count : UInt64 := 1
  deriving DecidableEq, Repr

namespace Node

def lookups (node : Node) : Nat := node.count.toNat

def remember (node : Node) : Node := { node with count := node.count + 1 }

/-- Takes lookups back and tells how many are left. When there were not so many, they are put back. -/
def release (node : Node) (count : Nat) : Option Nat × Node :=
  let less := { node with count := node.count - .ofNat count }
  if node.lookups < count then (none, { less with count := less.count + .ofNat count })
  else (some (node.lookups - count), less)

/-- Nothing when there are not so many lookups to forget. -/
def forget? (node : Node) (count : Nat) : Option Node :=
  match node.release count with
  | (none, _) => none
  | (some _, less) => some less

section
variable {node : Node} {count : Nat}

@[simp] theorem remember_path : node.remember.path = node.path := rfl

@[simp] theorem remember_kind : node.remember.kind = node.kind := rfl

theorem lookups_remember (few : node.lookups + 1 < UInt64.size) : node.remember.lookups = node.lookups + 1 := by
  rw [lookups, remember, UInt64.toNat_add]
  exact Nat.mod_eq_of_lt few

/-- Lookups that were not there are put back, whatever the subtraction made of them. -/
theorem release_of_lt (fewer : node.lookups < count) : node.release count = (none, node) := by
  rw [release, if_pos fewer, UInt64.sub_add_cancel]

theorem release_of_le (enough : count ≤ node.lookups) :
    node.release count = (some (node.lookups - count), { node with count := node.count - .ofNat count }) :=
  if_neg (Nat.not_lt.mpr enough)

@[simp] theorem release_path : (node.release count).2.path = node.path := by
  rw [release]
  split <;> rfl

@[simp] theorem release_kind : (node.release count).2.kind = node.kind := by
  rw [release]
  split <;> rfl

theorem lookups_release (enough : count ≤ node.lookups) :
    (node.release count).2.lookups = node.lookups - count := by
  have small : count < 2 ^ 64 := Nat.lt_of_le_of_lt enough node.count.toNat_lt
  have word : (UInt64.ofNat count).toNat = count := Nat.mod_eq_of_lt small
  have below : UInt64.ofNat count ≤ node.count := UInt64.le_iff_toNat_le.mpr (word.symm ▸ enough)
  rw [release_of_le enough]
  change (node.count - .ofNat count).toNat = node.count.toNat - count
  rw [UInt64.toNat_sub_of_le _ _ below, word]

end

end Node

def rootNumber : Nat := 1

def rootPath : String := "/"

structure NodeTable where
  nodes : List (Nat × Node) := [(rootNumber, { path := rootPath, kind := .directory })]
  numbers : List (String × Nat) := [(rootPath, rootNumber)]
  /-- Greater than every number ever given out. It grows without end; in a word of 64 bits it would start again
  once 2 ^ 64 numbers were given out. -/
  next : Nat := rootNumber + 1
  deriving DecidableEq, Repr

namespace NodeTable

def node? (table : NodeTable) (number : Nat) : Option Node := table.nodes.lookup number

def path? (table : NodeTable) (number : Nat) : Option String := (table.node? number).map (·.path)

def number? (table : NodeTable) (path : String) : Option Nat := table.numbers.lookup path

def update (table : NodeTable) (number : Nat) (f : Node → Node) : NodeTable :=
  { table with nodes := table.nodes.map fun (n, node) => (n, if n = number then f node else node) }

def add (table : NodeTable) (node : Node) : Nat × NodeTable :=
  (table.next,
    { nodes := table.nodes ++ [(table.next, node)]
      numbers := (node.path, table.next) :: table.numbers
      next := table.next + 1 })

/-- The number of a path, given out if it has none, with one more lookup. -/
def lookUp (table : NodeTable) (path : String) (kind : EntryKind) : Nat × NodeTable :=
  match table.number? path with
  | some number => (number, table.update number Node.remember)
  | none => table.add { path, kind }

/-- The number of a path, given out if it has none, with no lookup counted. -/
def mention (table : NodeTable) (path : String) (kind : EntryKind) : Nat × NodeTable :=
  match table.number? path with
  | some number => (number, table)
  | none => table.add { path, kind, count := 0 }

def evict (table : NodeTable) (number : Nat) (path : String) : NodeTable :=
  { table with
    nodes := table.nodes.filter (·.1 ≠ number)
    numbers := table.numbers.filter (· ≠ (path, number)) }

/-- Takes back lookups. The entry leaves when none are left, and the flag tells; the root stays. -/
def forget (table : NodeTable) (number count : Nat) : Bool × NodeTable :=
  if number = rootNumber then (false, table)
  else match table.node? number with
    | none => (false, table)
    | some node =>
      match node.release count with
      | (some 0, less) => (true, table.evict number less.path)
      | (_, less) => (false, table.update number fun _ => less)

/-- The path is no longer that of its number, which stays until it is forgotten. -/
def invalidate (table : NodeTable) (path : String) : NodeTable :=
  if path = rootPath then table
  else { table with numbers := table.numbers.filter (·.1 ≠ path) }

/-- Counts one more lookup of a number. -/
def remember (table : NodeTable) (number : Nat) : NodeTable := table.update number Node.remember

/-- Takes back lookups of a number without evicting it; nothing happens when there are too few. -/
def release (table : NodeTable) (number count : Nat) : NodeTable :=
  table.update number fun node => (node.release count).2

/-- How many numbers are known, that of the root included. -/
def size (table : NodeTable) : Nat := table.nodes.length

/-- Only the root is known. -/
def isEmpty (table : NodeTable) : Bool := table.size ≤ 1

end NodeTable
end RecordFs.Mount
