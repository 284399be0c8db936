/-! Reading a command's arguments from left to right: options by letter or by name, and words. The
first fault, or the first question for help or for the version, ends the reading. -/
namespace RecordFs.Shell

/-- Why a command is not run: it makes no sense, or only a question was asked. -/
inductive Stop where
  | misuse
  | help
  | version
  deriving DecidableEq, Repr

inductive Effect where
  /-- Counts how often it is given; `many` allows more than once. -/
  | mark (many : Bool)
  /-- Takes a value that passes the test. -/
  | value (accepts : String → Bool)
  | stop (stop : Stop)

structure Switch where
  name : String
  letter : Option Char := none
  /-- Whether the name can be written out, or only the letter. -/
  long : Bool := true
  effect : Effect

/-- What was given: options with their values, and words, each in the order given. -/
structure Given where
  options : List (String × String) := []
  words : List String := []
  deriving DecidableEq, Repr

namespace Given

def has (given : Given) (name : String) : Bool := given.options.any (·.1 = name)

def value? (given : Given) (name : String) : Option String :=
  (given.options.find? (·.1 = name)).map (·.2)

private def add (given : Given) (switch : Switch) (value : String) (many : Bool) :
    Except Stop Given :=
  if given.has switch.name && !many then .error .misuse
  else .ok { given with options := given.options ++ [(switch.name, value)] }

private def mark (given : Given) (switch : Switch) : Except Stop Given :=
  match switch.effect with
  | .mark many => given.add switch "" many
  | .value _ => .error .misuse
  | .stop stop => .error stop

private def set (given : Given) (switch : Switch) (value : String) : Except Stop Given :=
  match switch.effect with
  | .value accepts => if accepts value then given.add switch value false else .error .misuse
  | _ => .error .misuse

end Given

namespace Switch

def takesValue (switch : Switch) : Bool :=
  match switch.effect with
  | .value _ => true
  | _ => false

end Switch

/-- One level of a command line: its options, and a test for each word that it may have. -/
structure Level where
  switches : List Switch
  words : List (String → Bool)

namespace Level

private def named? (level : Level) (name : String) : Option Switch :=
  level.switches.find? fun s => s.long && s.name = name

private def lettered? (level : Level) (letter : Char) : Option Switch :=
  level.switches.find? (·.letter = some letter)

/-- Letters run together. The first that takes a value has the rest of the argument as its value, or
the next argument when nothing is left; then it is handed back. -/
private def letters (level : Level) (given : Given) : List Char → Except Stop (Given × Option Switch)
  | [] => .ok (given, none)
  | c :: cs =>
    match level.lettered? c with
    | none => .error .misuse
    | some switch =>
      if switch.takesValue then
        match cs with
        | [] => .ok (given, some switch)
        | '=' :: value => do return (← given.set switch (String.ofList value), none)
        | value => do return (← given.set switch (String.ofList value), none)
      else do level.letters (← given.mark switch) cs

/-- A name, perhaps with a value after an equals sign. -/
private def name (level : Level) (given : Given) (cs : List Char) :
    Except Stop (Given × Option Switch) :=
  match level.named? (String.ofList (cs.takeWhile (· ≠ '='))), cs.dropWhile (· ≠ '=') with
  | none, _ => .error .misuse
  | some switch, '=' :: value => do return (← given.set switch (String.ofList value), none)
  | some switch, _ =>
    if switch.takesValue then .ok (given, some switch) else do return (← given.mark switch, none)

private def word (level : Level) (given : Given) (word : String) : Except Stop Given :=
  match level.words[given.words.length]? with
  | some accepts =>
    if accepts word then .ok { given with words := given.words ++ [word] } else .error .misuse
  | none => .error .misuse

private def isDashed (cs : List Char) : Bool := cs.head? = some '-' && cs ≠ ['-']

/-- Reads arguments up to the first word that `ends` the level; `pending` still needs its value. -/
private def scan (level : Level) (ends : Bool) :
    Given → Option Switch → List String → Except Stop (Given × List String)
  | given, none, [] => .ok (given, [])
  | _, some _, [] => .error .misuse
  | given, some switch, arg :: args =>
    if isDashed arg.toList then .error .misuse
    else do level.scan ends (← given.set switch arg) none args
  | given, none, arg :: args =>
    match arg.toList with
    | ['-', '-'] =>
      if ends then .error .misuse else do return (← args.foldlM level.word given, [])
    | '-' :: '-' :: cs => do
      let (given, pending) ← level.name given cs
      level.scan ends given pending args
    | '-' :: c :: cs => do
      let (given, pending) ← level.letters given (c :: cs)
      level.scan ends given pending args
    | _ =>
      if ends then .ok (given, arg :: args)
      else do level.scan ends (← level.word given arg) none args

/-- Reads all arguments. -/
def read (level : Level) (args : List String) : Except Stop Given :=
  (·.1) <$> level.scan false {} none args

/-- Reads options up to the first word, and returns what is left from there. -/
def readOptions (level : Level) (args : List String) : Except Stop (Given × List String) :=
  level.scan true {} none args

end Level
end RecordFs.Shell
