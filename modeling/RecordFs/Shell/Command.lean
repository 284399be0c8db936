import RecordFs.Shell.Arguments
import RecordFs.Shell.Permissions

/-! The commands, and the arguments that ask for them. -/
namespace RecordFs.Shell

/-- Where the input goes in a file. -/
inductive Placement where
  | replace
  | append
  | offset (offset : UInt64)
  deriving DecidableEq, Repr

/-- How to mount, where it differs from the settings. -/
structure MountRequest where
  point : String
  readOnly : Bool
  allowOther : Bool
  keepMounted : Bool
  ttlMillis : Option Nat
  fsname : Option String
  create : Bool
  deriving DecidableEq, Repr

inductive Command where
  | init (permissions : UInt32)
  | list (path : String) (long all onePerLine : Bool)
  | content (path : String)
  | details (path : String)
  | makeDirectory (path : String) (parents : Bool) (permissions : UInt32)
  | touch (path : String) (permissions : UInt32)
  | write (path : String) (placement : Placement) (permissions : UInt32)
  | removeFile (path : String) (force : Bool)
  | removeDirectory (path : String)
  | resize (path : String) (size : UInt64) (create : Bool)
  | mount (request : MountRequest)
  deriving DecidableEq, Repr

/-- A command with the options that any command takes. -/
structure Invocation where
  command : Command
  store : Option String
  config : Option String
  deriving DecidableEq, Repr

/-- What the arguments ask for. A question may be about one command. -/
inductive Request where
  | run (invocation : Invocation)
  | misuse
  | help (about : Option String)
  | version (about : Option String)
  deriving DecidableEq, Repr

namespace Command

private def isPath (text : String) : Bool := text ≠ ""

private def isPermissions (text : String) : Bool := (Permissions.read text).isOk

private def word? (text : String) : Option Nat := (Text.readNumber 10 UInt64.size text).toOption

private def isWord (text : String) : Bool := (word? text).isSome

/-- Options that may stand before the command and after it. -/
private def common : List Switch :=
  [{ name := "verbose", letter := 'v', effect := .mark true },
    { name := "quiet", letter := 'q', effect := .mark false },
    { name := "store", effect := .value isPath },
    { name := "config", effect := .value isPath },
    { name := "help", letter := 'h', effect := .stop .help },
    { name := "version", letter := 'V', effect := .stop .version }]

private def mark (name : String) (letter : Option Char := none) : Switch :=
  { name, letter, effect := .mark false }

private def value (name : String) (accepts : String → Bool) (letter : Option Char := none) :
    Switch :=
  { name, letter, effect := .value accepts }

private def permissions (given : Given) (name default : String) : Option UInt32 :=
  (Permissions.read ((given.value? name).getD default)).toOption

/-- The options and words of a command, and the command that they make. -/
structure Form where
  name : String
  switches : List Switch := []
  words : List (String → Bool)
  make : Given → Option Command

private def anyWord : String → Bool := fun _ => true

def forms : List Form :=
  [{ name := "init"
     switches := [value "perm" isPermissions]
     words := []
     make := fun g => init <$> permissions g "perm" "775" },
    { name := "ls"
      switches := [mark "long" 'l', mark "all" 'a',
        { name := "one per line", letter := '1', long := false, effect := .mark false }]
      words := [anyWord]
      make := fun g =>
        some (list (g.words.headD "/") (g.has "long") (g.has "all") (g.has "one per line")) },
    { name := "cat"
      words := [anyWord]
      make := fun g => return content (← g.words.head?) },
    { name := "stat"
      words := [anyWord]
      make := fun g => return details (← g.words.head?) },
    { name := "mkdir"
      switches := [mark "parents" 'p', value "mode" isPermissions 'm']
      words := [anyWord]
      make := fun g => do
        let path ← g.words.head?
        return makeDirectory path (g.has "parents") (← permissions g "mode" "755") },
    { name := "touch"
      switches := [value "mode" isPermissions 'm']
      words := [anyWord]
      make := fun g => return touch (← g.words.head?) (← permissions g "mode" "644") },
    { name := "write"
      switches := [mark "append" 'a', value "offset" isWord, value "mode" isPermissions 'm']
      words := [anyWord]
      make := fun g => do
        let offset := (g.value? "offset").bind word?
        let placement ← match g.has "append", offset with
          | true, some _ => none
          | true, none => some .append
          | false, some n => some (.offset (UInt64.ofNat n))
          | false, none => some .replace
        return write (← g.words.head?) placement (← permissions g "mode" "644") },
    { name := "rm"
      switches := [mark "force" 'f']
      words := [anyWord]
      make := fun g => return removeFile (← g.words.head?) (g.has "force") },
    { name := "rmdir"
      words := [anyWord]
      make := fun g => return removeDirectory (← g.words.head?) },
    { name := "truncate"
      switches := [mark "no-create" 'c']
      words := [anyWord, isWord]
      make := fun g => do
        let [path, size] := g.words | none
        return resize path (UInt64.ofNat (← word? size)) !(g.has "no-create") },
    { name := "mount"
      switches := [mark "read-only", mark "allow-other", mark "no-auto-unmount",
        value "ttl-ms" isWord, value "fsname" anyWord, mark "create-mountpoint"]
      words := [isPath]
      make := fun g => do
        let point ← g.words.head?
        return mount {
          point
          readOnly := g.has "read-only"
          allowOther := g.has "allow-other"
          keepMounted := g.has "no-auto-unmount"
          ttlMillis := (g.value? "ttl-ms").bind word?
          fsname := g.value? "fsname"
          create := g.has "create-mountpoint" } }]

def form? (name : String) : Option Form := forms.find? (·.name = name)

end Command

namespace Request

private def stopped (about : Option String) : Stop → Request
  | .misuse => misuse
  | .help => help about
  | .version => version about

/-- The command `help` is about the whole, or about one command. -/
private def helpAbout : List String → Request
  | [] => help none
  | [name] => if (Command.form? name).isSome || name = "help" then help (some name) else misuse
  | _ => misuse

/-- Options after the command's name win over those before it. -/
private def assemble (form : Command.Form) (outer : Given) (args : List String) : Request :=
  match Level.read ⟨Command.common ++ form.switches, form.words⟩ args with
  | .error stop => stopped (some form.name) stop
  | .ok given =>
    let option (name : String) := (given.value? name).or (outer.value? name)
    match form.make given with
    | none => misuse
    | some command => run { command, store := option "store", config := option "config" }

def read (args : List String) : Request :=
  match Level.readOptions ⟨Command.common, []⟩ args with
  | .error stop => stopped none stop
  | .ok (_, []) => misuse
  | .ok (outer, name :: args) =>
    if name = "help" then helpAbout args
    else match Command.form? name with
      | some form => assemble form outer args
      | none => misuse

end Request
end RecordFs.Shell
