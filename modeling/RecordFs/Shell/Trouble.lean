import RecordFs.Failure

/-! Why a command fails: a chain of causes, outermost first, and the outcome it leads to. -/
namespace RecordFs.Shell

/-- The failures of the machine that are told apart. -/
inductive SystemKind where
  | notFound
  | permissionDenied
  | alreadyExists
  | interrupted
  | other
  deriving DecidableEq, Repr

structure SystemFailure where
  kind : SystemKind
  message : String
  deriving DecidableEq, Repr

namespace SystemFailure

def missing : SystemFailure := ⟨.notFound, "No such file or directory (os error 2)"⟩

def denied : SystemFailure := ⟨.permissionDenied, "Permission denied (os error 13)"⟩

def taken : SystemFailure := ⟨.alreadyExists, "File exists (os error 17)"⟩

def notADirectory : SystemFailure := ⟨.other, "Not a directory (os error 20)"⟩

def isADirectory : SystemFailure := ⟨.other, "Is a directory (os error 21)"⟩

def nameTooLong : SystemFailure := ⟨.other, "File name too long (os error 36)"⟩

def zeroByte : SystemFailure := ⟨.other, "file name contained an unexpected NUL byte"⟩

def notText : SystemFailure := ⟨.other, "stream did not contain valid UTF-8"⟩

end SystemFailure

inductive Cause where
  | note (text : String)
  | volume (failure : Failure)
  | store (failure : StoreFailure)
  | system (failure : SystemFailure)
  deriving DecidableEq, Repr

/-- How a command ends. -/
inductive Outcome where
  | success
  | general
  | misuse
  | notFound
  | permissionDenied
  | invalidOperation
  | storeInvalid
  | mountFailed
  | cancelled
  /-- The program gave up where it stood. -/
  | panicked
  deriving DecidableEq, Repr

def Outcome.exitCode : Outcome → Nat
  | success => 0
  | general => 1
  | misuse => 2
  | notFound => 3
  | permissionDenied => 4
  | invalidOperation => 5
  | storeInvalid => 6
  | mountFailed => 7
  | cancelled => 130
  | panicked => 101

namespace Cause

/-- What led to a failure of the store. -/
def beneath : StoreFailure → List String
  | .absent _ => []
  | .fault f => f.causes

/-- The cause and what lies beneath it. -/
def messages : Cause → List String
  | note text => [text]
  | volume (.malformed m) => [(Failure.malformed m).message, m.message]
  | volume (.store s) => s.message :: beneath s
  | volume failure => [failure.message]
  | store failure => failure.message :: beneath failure
  | system failure => [failure.message]

/-- The outcome that the cause decides, if it does. -/
def outcome? : Cause → Option Outcome
  | volume (.notFound _) => some .notFound
  | volume (.malformed _) => some .storeInvalid
  | volume (.store (.absent _)) => some .storeInvalid
  | volume (.store (.fault _)) => some .general
  | volume _ => some .invalidOperation
  | system ⟨.notFound, _⟩ => some .notFound
  | system ⟨.permissionDenied, _⟩ => some .permissionDenied
  | system ⟨.alreadyExists, _⟩ => some .invalidOperation
  | system ⟨.interrupted, _⟩ => some .cancelled
  | system ⟨.other, _⟩ => none
  | note _ => none
  | store _ => none

end Cause

abbrev Trouble := List Cause

namespace Trouble

def message (trouble : Trouble) : String := ": ".intercalate (trouble.flatMap Cause.messages)

/-- Whether a word stands somewhere in a text. -/
def mentions (word : List Char) : List Char → Bool
  | [] => word = []
  | c :: cs => word.isPrefixOf (c :: cs) || mentions word cs

/-- The first cause that decides. Where none does, a mount is taken to have failed if the message
speaks of one, in letters of either case. -/
def outcome (trouble : Trouble) : Outcome :=
  match trouble.findSome? Cause.outcome? with
  | some outcome => outcome
  | none =>
    if mentions "mount".toList (trouble.message.toList.map Char.toLower) then .mountFailed
    else .general

end Trouble
end RecordFs.Shell
