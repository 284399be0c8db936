import RecordFs.Shell.Edit
import RecordFs.Shell.Folder
import RecordFs.Shell.Listing
import RecordFs.Shell.Script
import RecordFs.Shell.Settings
import RecordFs.Volume.Open

/-! Running a command line: settings first, then the store, then the command itself. -/
namespace RecordFs.Shell

/-- What a command finds set when it starts. -/
structure Environment where
  /-- The store to use when none is named. -/
  store : Option String := none
  configDirectory : Option String := none
  xdgConfigHome : Option String := none
  home : Option String := none
  author : Author

namespace Environment

private def join (folder name : String) : String :=
  if folder = "" ∨ folder.endsWith "/" then folder ++ name else folder ++ "/" ++ name

/-- Where settings are looked for when no file is named. -/
def configFile? (env : Environment) : Option String :=
  match env.configDirectory with
  | some folder => some (join folder "config.toml")
  | none => (base.map (join · "kvfs")).map (join · "config.toml")
where
  base : Option String :=
    (env.xdgConfigHome.filter (·.startsWith "/")).or
      ((env.home.filter (· ≠ "")).map (join · ".config"))

end Environment

/-- What is asked for wins over the settings. -/
def MountRequest.options (request : MountRequest) (settings : Mount.Options) : Mount.Options where
  ttlMillis := request.ttlMillis.getD settings.ttlMillis
  fsname := request.fsname.getD settings.fsname
  autoUnmount := settings.autoUnmount && !request.keepMounted
  allowOther := settings.allowOther || request.allowOther
  readOnly := request.readOnly

namespace Running

def call {α : Type} (c : Call α) : Running α := ExceptT.lift (StateT.lift (OptionT.lift (.call c .done)))

/-- Ends the program on the spot. -/
def panic {α : Type} : Running α := ExceptT.lift (StateT.lift OptionT.fail)

/-- Passes on what a call gives, or explains its failure. -/
def explained {α ε : Type} (cause : ε → Cause) (note : String) : Except ε α → Running α
  | .ok a => return a
  | .error e => throw [.note note, cause e]

def faulty (fault : Fault) : Cause := .store (.fault fault)

/-- Performs an edit on the open store. -/
def edit {α : Type} (e : Edit α) : Running α :=
  ExceptT.mk (StateT.mk fun cache => OptionT.lift (.call (.onStore (e.run.run cache)) .done))

def volume {α : Type} (action : Action α) : Running α := edit (Edit.volume action)

/-- What has to be done; the program panics if it was not. -/
def must : Except SystemFailure Unit → Running Unit
  | .ok () => return ()
  | .error _ => panic

/-- Passes on what the machine gives, or fails with its failure alone. -/
def given {α : Type} : Except SystemFailure α → Running α
  | .ok a => return a
  | .error e => throw [.system e]

/-- Writes bytes to the output. Nothing is done where there are none. -/
def write (bytes : ByteArray) : Running (Except SystemFailure Unit) :=
  if bytes.isEmpty then return .ok () else call (.print bytes)

def print (text : String) : Running Unit := do must (← write text.toUTF8)

def report (line : String) : Running Unit := do must (← call (.report line))

def readSettings (path : String) : Running Settings := do
  let text ← explained .system s!"Failed to read config file: {path}" (← call (.readText path))
  explained .note s!"Invalid config file: {path}" (Settings.read text)

/-- A file of settings that is named has to be there. -/
def settings (env : Environment) (named : Option String) : Running Settings := do
  match named, env.configFile? with
  | some path, _ => readSettings path
  | none, some path => if ← call (.pathExists path) then readSettings path else return {}
  | none, none => return {}

def storePath (store : Option String) : Running String := do
  match store with
  | some path => return path
  | none =>
    throw [.note "No store given: pass --store, set KVFS_STORE, or set `store` in the config file"]

/-- Opens a store that is there, and the volume in it. -/
def openVolume (author : Author) (path : String) : Running Unit := do
  unless ← call (.pathExists path) do
    throw [.system ⟨.notFound, s!"Store does not exist: {path} (run `kvfs init` first)"⟩]
  explained faulty s!"Failed to open store: {path}" (← call (.openStore path))
  let options : Volume.Options := { uid := author.uid, gid := author.gid }
  tryCatch (volume (Volume.openRoot options (author.now .opening))) fun trouble =>
    throw (.note s!"Failed to load filesystem from {path}" :: trouble)

/-- Makes a store with an empty volume, and the folder that it is in. -/
def makeStore (author : Author) (path : String) (permissions : UInt32) : Running Unit := do
  if ← call (.pathExists path) then
    throw [.system ⟨.alreadyExists, s!"Store already exists: {path}"⟩]
  if let some folder := (Folder.of? path).filter (· ≠ "") then
    unless ← call (.pathExists folder) do
      explained .system s!"Failed to create directory: {folder}" (← call (.makeDirectories folder))
  explained faulty s!"Failed to create store: {path}" (← call (.openStore path))
  let options := Volume.Options.withRootPermissions { uid := author.uid, gid := author.gid } permissions
  tryCatch (volume (Volume.openRoot options (author.now .opening))) fun trouble =>
    throw (.note "Failed to initialize root directory" :: trouble)
  match ← call .closeStore with
  | .ok () => print s!"Initialized empty store at {path}\n"
  | .error fault => throw [faulty fault]

/-- Mounts the open store, and unmounts it when told to stop. -/
def mount (request : MountRequest) (settings : Mount.Options) : Running Unit := do
  let point := request.point
  unless ← call (.pathExists point) do
    unless request.create do
      throw [.note s!"Mountpoint does not exist: {point} (use --create-mountpoint)"]
    explained .system s!"Failed to create mountpoint: {point}" (← call (.makeDirectories point))
  unless ← call (.isDirectory point) do throw [.note s!"Mountpoint is not a directory: {point}"]
  let mounted ← call (.mount point (request.options settings))
  explained .system s!"Failed to mount store at {point}" mounted
  report s!"Mounted at {point}. Press Ctrl+C to unmount."
  call .awaitStop
  report "Unmounting..."
  call .unmount

/-- What a command does with the volume of an open store. -/
def onVolume (author : Author) : Command → Running Unit
  | .list path long all onePerLine => do
    let path := Path.absolute path
    let entries ← volume (Volume.entries path)
    if long then
      let self ← if all then some <$> volume (Volume.attributes path) else pure none
      print (Listing.long self entries)
    else print (Listing.short all onePerLine entries)
  | .content path => do
    let path := Path.absolute path
    let size := (← volume (Volume.attributes path)).size
    let content ← volume (Volume.read path 0 size.toNat)
    given (← write content)
  | .details path => do
    let path := Path.absolute path
    print (Listing.details path (← volume (Volume.attributes path)))
  | .makeDirectory path parents permissions => do
    let path := Path.absolute path
    if parents then edit (Edit.ensureDirectories author permissions path)
    else let _ ← volume (Volume.makeDirectory (author.now .making) path permissions author.uid author.gid)
  | .touch path permissions => volume (author.touch (Path.absolute path) permissions)
  | .write path placement permissions => do
    let content ← given (← call .input)
    let _ ← volume (author.place (Path.absolute path) content placement permissions)
  | .removeFile path force => volume (author.remove (Path.absolute path) force)
  | .removeDirectory path => volume (Volume.removeDirectory (author.now .removing) (Path.absolute path))
  | .resize path size create => volume (author.resize (Path.absolute path) size create)
  | .init _ | .mount _ => return ()

/-- Runs a command on the store that the options, the environment or the settings name. -/
def execute (env : Environment) (invocation : Invocation) : Running Unit := do
  let settings ← settings env invocation.config
  let path ← storePath ((invocation.store.or env.store).or settings.store)
  match invocation.command with
  | .init permissions => makeStore env.author path permissions
  | .mount request =>
    openVolume env.author path
    mount request settings.mount
  | command =>
    openVolume env.author path
    onVolume env.author command
    explained faulty s!"Failed to close store: {path}" (← call .closeStore)

end Running

private def usage : String :=
  "Usage: kvfs [-v] [-q] [--store STORE] [--config FILE] COMMAND\n\nCommands: " ++
    ", ".intercalate (Command.forms.map (·.name)) ++ "\n"

/-- Runs a command line. A failure is reported unless an argument asks for quiet. -/
def run (env : Environment) (args : List String) : Script Outcome := do
  match Request.read args with
  | .misuse =>
    let _ ← Script.call (.report usage) .done
    return .misuse
  | .help _ =>
    let _ ← Script.call (.print usage.toUTF8) .done
    return .success
  | .version about =>
    let name := "-".intercalate ("kvfs" :: about.toList)
    let _ ← Script.call (.print s!"{name} 0.1.0\n".toUTF8) .done
    return .success
  | .run invocation =>
    match ← ((Running.execute env invocation).run.run none).run with
    | none => return .panicked
    | some (.ok (), _) => return .success
    | some (.error trouble, _) =>
      unless "-q" ∈ args ∨ "--quiet" ∈ args do
        if let .error _ ← Script.call (.report s!"Error: {trouble.message}") .done then return .panicked
      return trouble.outcome

end RecordFs.Shell
