import RecordFs.Shell.Run
import RecordFs.Shell.StoreName
import RecordFs.Store.Disk

/-! A machine in memory: folders, texts and stores under paths, and what a command reads and prints.
Its store files are databases, and it has no device to mount with. -/
namespace RecordFs.Shell

inductive Node where
  | folder
  | text (text : String)
  | store (disk : Disk)

/-- The names that lead to a node from the top. -/
abbrev Location := List String

inductive Opened where
  | file (location : Location)
  /-- A store in no file, with all that it holds. -/
  | temporary (disk : Disk)

structure Machine where
  /-- Everything but the top folder. -/
  nodes : List (Location × Node) := []
  /-- Where paths without a leading slash start. -/
  here : Location := []
  /-- The identifiers that each new store hands out. -/
  supply : Nat → Nat → Id
  stores : Nat := 0
  opened : Option Opened := none
  input : ByteArray := .empty
  printed : ByteArray := .empty
  reported : List String := []

namespace Machine

private def cannotOpen (path : String) : Fault where
  message := "SQLite"
  causes := [s!"unable to open database file: {path}", "Error code 14: Unable to open the database file"]

private def notAStore : Fault where
  message := "SQLite"
  causes := ["file is not a database", "Error code 26: File opened that is not a database file"]

private def damaged : Fault where
  message := "SQLite"
  causes := ["database disk image is malformed", "Error code 11: The database disk image is malformed"]

private def node? (machine : Machine) (location : Location) : Option Node :=
  if location = [] then some .folder else (machine.nodes.find? (·.1 = location)).map (·.2)

private def set (machine : Machine) (location : Location) (node : Node) : Machine :=
  { machine with nodes := (location, node) :: machine.nodes.filter (·.1 ≠ location) }

/-- The longest name of a file or folder, in bytes. -/
def maxName : Nat := 255

/-- One step along a path. An empty name stays in the folder. -/
private def step (machine : Machine) (folder : Location) (name : String) :
    Except SystemFailure Location :=
  match machine.node? folder with
  | none => .error .missing
  | some .folder =>
    if name = "" ∨ name = "." then .ok folder
    else if name = ".." then .ok folder.dropLast
    else if maxName < name.utf8ByteSize then .error .nameTooLong
    else .ok (folder ++ [name])
  | some _ => .error .notADirectory

private def names (path : String) : List String := (Text.pieces '/' path.toList).map String.ofList

private def start (machine : Machine) (path : String) : Location :=
  if path.startsWith "/" then [] else machine.here

/-- Where these names lead from the start of a path. There need be nothing yet. -/
private def walk (machine : Machine) (path : String) (names : List String) :
    Except SystemFailure Location :=
  if path = "" then .error .missing
  else if '\x00' ∈ path.toList then .error .zeroByte
  else if 4096 ≤ path.utf8ByteSize then .error .nameTooLong
  else names.foldlM machine.step (machine.start path)

private def locate (machine : Machine) (path : String) : Except SystemFailure Location :=
  machine.walk path (names path)

private def find (machine : Machine) (path : String) : Except SystemFailure Node := do
  match machine.node? (← machine.locate path) with
  | some node => return node
  | none => throw .missing

private def readText (machine : Machine) (path : String) : Except SystemFailure String := do
  match ← machine.find path with
  | .text text => return text
  | .folder => throw .isADirectory
  | .store _ => throw .notText

private def isFolder (machine : Machine) (path : String) : Bool :=
  match machine.find path with
  | .ok .folder => true
  | _ => false

/-- Makes one folder. Slashes at the end of its path do not count. -/
private def makeFolder (machine : Machine) (path : String) : Except SystemFailure Machine := do
  let location ← machine.walk path ((names path).reverse.dropWhile (· = "")).reverse
  if (machine.node? location).isSome then throw .taken
  return machine.set location .folder

/-- Makes a folder and, where they are missing, those that it lies in. What was made before a failure
stays. -/
private def makeFolders (machine : Machine) : List String → Except SystemFailure Unit × Machine
  | [] => (.ok (), machine)
  | path :: above =>
    let settle (machine : Machine) : Except SystemFailure Machine → Except SystemFailure Unit × Machine
      | .ok made => (.ok (), made)
      | .error failure =>
        (if failure.kind = .alreadyExists ∧ machine.isFolder path then .ok () else .error failure,
          machine)
    match machine.makeFolder path with
    | .error ⟨.notFound, _⟩ =>
      match machine.makeFolders above with
      | (.ok (), machine) => settle machine (machine.makeFolder path)
      | failed => failed
    | reply => settle machine reply

private def makeDirectories (machine : Machine) (path : String) :
    Except SystemFailure Unit × Machine :=
  machine.makeFolders (Folder.chain path)

private def bytes (location : Location) : Nat := location.foldl (· + ·.utf8ByteSize + 1) 0

/-- Where the file of a store is. Two dots only take back the name before them. -/
private def fileOf? (machine : Machine) (path : String) : Option Location := do
  let location ← (names path).foldlM (fun location name =>
    if name = "" ∨ name = "." then some location
    else if name = ".." then some location.dropLast
    else if 512 ≤ bytes (location ++ [name]) then none
    else match machine.node? location with
      | none => some (location ++ [name])
      | some _ => (machine.step location name).toOption) (machine.start path)
  if location = [] ∨ 504 < bytes location then none else return location

private def opening (machine : Machine) (name : String) : Reply Machine :=
  let disk : Disk := { supply := machine.supply machine.stores }
  let fresh : Machine := { machine with stores := machine.stores + 1 }
  match StoreName.read? name with
  | none => .error (cannotOpen name)
  | some .temporary => .ok { fresh with opened := some (.temporary disk) }
  | some (.file path mayCreate) =>
    match machine.fileOf? path with
    | none => .error (cannotOpen name)
    | some location =>
      let made : Machine := { fresh.set location (.store disk) with opened := some (.file location) }
      match machine.node? location.dropLast, machine.node? location with
      | some .folder, none => if mayCreate then .ok made else .error (cannotOpen name)
      | _, some (.text text) => if text.utf8ByteSize ≤ 1 then .ok made else .error notAStore
      | _, some (.store _) => .ok { machine with opened := some (.file location) }
      | _, _ => .error (cannotOpen name)

def makeDirectory (machine : Machine) (path : String) : Machine := (machine.makeDirectories path).2

/-- Puts a text at a path, and makes the folders above it. -/
def writeText (machine : Machine) (path text : String) : Machine :=
  let made := machine.makeDirectory ((Folder.of? path).getD "")
  ((made.locate path).map fun location => made.set location (.text text)).toOption.getD made

def pathExists (machine : Machine) (path : String) : Bool := (machine.find path).isOk

private def openedDisk? (machine : Machine) : Option Disk :=
  match machine.opened with
  | some (.file location) =>
    match machine.node? location with
    | some (.store disk) => some disk
    | _ => none
  | some (.temporary disk) => some disk
  | none => none

/-- The store at a path; a new one where there is nothing. -/
def store? (machine : Machine) (path : String) : Option (Disk × Machine) := do
  let machine ← (machine.opening path).toOption
  return (← machine.openedDisk?, machine)

def putStore (machine : Machine) (disk : Disk) : Machine :=
  match machine.opened with
  | some (.file location) => machine.set location (.store disk)
  | some (.temporary _) => { machine with opened := some (.temporary disk) }
  | none => machine

private def spoiled (disk : Disk) : Disk := { disk.limit (some 0) (some 0) with fault := damaged }

/-- Spoils the store at a path: it still opens, but every call on it fails. -/
def damage (machine : Machine) (path : String) : Machine :=
  match machine.store? path with
  | some (disk, machine) => machine.putStore (spoiled disk)
  | none => machine

private def attempt {α ε : Type} (step : Machine → Except ε Machine) (value : α) :
    StateM Machine (Except ε α) := modifyGet fun machine =>
  match step machine with
  | .ok machine => (.ok value, machine)
  | .error e => (.error e, machine)

/-- What each call does. -/
def answer {β : Type} : Call β → StateM Machine β
  | .pathExists path => return (← get).pathExists path
  | .isDirectory path => return (← get).isFolder path
  | .readText path => return (← get).readText path
  | .makeDirectories path => modifyGet (·.makeDirectories path)
  | .openStore path => attempt (·.opening path) ()
  | .onStore access => modifyGet fun machine =>
    match machine.openedDisk? with
    | some disk =>
      let (reply, disk) := access.run Disk.backend disk
      (reply, machine.putStore disk)
    | none => ((access.run Disk.backend (spoiled { supply := machine.supply 0 })).1, machine)
  | .closeStore => modifyGet fun machine => (.ok (), { machine with opened := none })
  | .input => return .ok (← get).input
  | .print bytes => modifyGet fun machine => (.ok (), { machine with printed := machine.printed ++ bytes })
  | .report line => modifyGet fun machine => (.ok (), { machine with reported := machine.reported ++ [line] })
  | .mount _ _ => return .error .missing
  | .awaitStop => return ()
  | .unmount => return ()

/-- Runs a command with this input. Nothing of what was printed before is kept. -/
def run (machine : Machine) (env : Environment) (args : List String) (input : ByteArray) :
    Outcome × Machine :=
  ((Shell.run env args).run answer).run
    { machine with input, opened := none, printed := .empty, reported := [] }

end Machine
end RecordFs.Shell
