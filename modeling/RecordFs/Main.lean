import RecordFs.Shell.Run
import RecordFs.Shell.StoreFile
import RecordFs.Shell.StoreName
import Std.Time.DateTime.Timestamp

/-! The command line. Calls of a script are made on the machine that the program runs on. -/
namespace RecordFs.Main

open Shell

/-- The open store: its file, if it has one, and its records as far as they are known. -/
structure OpenStore where
  path : Option String
  records : Records

abbrev State := IO.Ref (Option OpenStore)

private def failure : IO.Error → SystemFailure
  | .noFileOrDirectory .. | .noSuchThing .. => .missing
  | .permissionDenied .. => .denied
  | .alreadyExists .. => .taken
  | .interrupted _ _ text => ⟨.interrupted, text⟩
  | e => ⟨.other, toString e⟩

private def fault (e : IO.Error) : Fault := ⟨toString e, []⟩

private def attempt {α ε : Type} (explain : IO.Error → ε) (action : IO α) : IO (Except ε α) := do
  try return .ok (← action) catch e => return .error (explain e)

private def pathExists (path : String) : IO Bool := do
  if path = "" then return false else ((← IO.currentDir) / path).pathExists

private def append (path : String) (bytes : ByteArray) : IO Unit :=
  IO.FS.withFile path .append fun file => do
    file.write bytes
    file.flush

private def openFile (state : State) (path : String) (mayCreate : Bool) : IO (Reply Unit) := do
  try
    if mayCreate && !(← pathExists path) then append path StoreFile.mark
    let file ← IO.FS.readBinFile path
    match StoreFile.read? file with
    | some records =>
      if file.isEmpty then append path StoreFile.mark
      state.set (some ⟨path, records⟩)
      return .ok ()
    | none => return .error ⟨"the file is not a store", []⟩
  catch e => return .error (fault e)

private def openStore (state : State) (name : String) : IO (Reply Unit) :=
  match StoreName.read? name with
  | some (.file path mayCreate) => openFile state path mayCreate
  | some .temporary => do
    state.set (some ⟨none, {}⟩)
    return .ok ()
  | none => return .error ⟨"no store has such a name", []⟩

private def put (state : State) (id : Id) (bytes : ByteArray) : IO (Reply Unit) := do
  match ← state.get with
  | none => return .error ⟨"no store is open", []⟩
  | some opened => attempt fault do
    if let some path := opened.path then append path (StoreFile.entry id bytes)
    state.set (some { opened with records := opened.records.put id bytes })

private def perform {α : Type} (state : State) : Access α → IO α
  | .done a => return a
  | .get id next => do perform state (next (.ok ((← state.get).bind (·.records.get? id))))
  | .put id bytes next => do perform state (next (← put state id bytes))
  | .fresh next => do perform state (next (Id.ofBytes (← IO.getRandomBytes 16).toList))

private def answer (state : State) {β : Type} : Call β → IO β
  | .pathExists path => pathExists path
  | .isDirectory path => do ((← IO.currentDir) / path).isDir
  | .readText path => attempt failure (IO.FS.readFile path)
  | .makeDirectories path => attempt failure (IO.FS.createDirAll path)
  | .openStore path => openStore state path
  | .onStore access => perform state access
  | .closeStore => do
    state.set none
    return .ok ()
  | .input => attempt failure do (← IO.getStdin).readBinToEnd
  | .print bytes => attempt failure do (← IO.getStdout).write bytes
  | .report line => attempt failure (IO.eprintln line)
  | .mount _ _ => return .error ⟨.other, "Operation not supported (os error 95)"⟩
  | .awaitStop => return ()
  | .unmount => return ()

/-- The first number after a label in the account that the kernel gives of this process. -/
private def ownNumber (label : String) : IO UInt32 := do
  try
    let lines := (← IO.FS.readFile "/proc/self/status").splitOn "\n"
    let fields := ((lines.find? (·.startsWith label)).getD "").splitOn "\t"
    return UInt32.ofNat ((fields.getD 1 "").toNat?.getD 0)
  catch _ => return 0

end RecordFs.Main

open RecordFs RecordFs.Main in
def main (args : List String) : IO UInt32 := do
  let now ← Std.Time.Timestamp.now
  let environment : Shell.Environment := {
    store := ← IO.getEnv "KVFS_STORE"
    configDirectory := ← IO.getEnv "KVFS_CONFIG_DIR"
    xdgConfigHome := ← IO.getEnv "XDG_CONFIG_HOME"
    home := ← IO.getEnv "HOME"
    author := {
      uid := ← ownNumber "Uid:"
      gid := ← ownNumber "Gid:"
      now := Int64.ofInt now.toSecondsSinceUnixEpoch.val } }
  let state ← IO.mkRef none
  let outcome ← (Shell.run environment args).run (answer state)
  return UInt32.ofNat outcome.exitCode
