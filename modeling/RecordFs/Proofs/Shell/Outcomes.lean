import RecordFs.Proofs.Shell.Endings

/-! What the outcome of a failed command depends on. A cause may decide it. Where none does the words of the
message do, and these can be names that the user chose. -/
namespace RecordFs

/-- The failure without the names, texts and numbers in it. -/
def Failure.bare : Failure → Failure
  | notFound _ => notFound ""
  | nameTooLong .. => nameTooLong 0 0
  | fileTooLarge .. => fileTooLarge 0 0
  | directoryNotEmpty _ => directoryNotEmpty ""
  | directoryFull _ => directoryFull ""
  | alreadyExists _ => alreadyExists ""
  | notADirectory _ => notADirectory ""
  | isADirectory _ => isADirectory ""
  | invalidPath _ => invalidPath ""
  | malformed _ => malformed (.name 0)
  | store (.absent _) => store (.absent .zero)
  | store (.fault _) => store (.fault ⟨"", []⟩)

namespace Shell

namespace Cause

/-- The cause without the names, texts and numbers in it. -/
def bare : Cause → Cause
  | note _ => note ""
  | volume f => volume f.bare
  | store (.absent _) => store (.absent .zero)
  | store (.fault _) => store (.fault ⟨"", []⟩)
  | system f => system ⟨f.kind, ""⟩

theorem outcome?_bare (c : Cause) : c.bare.outcome? = c.outcome? := by
  cases c with
  | note text => rfl
  | volume f =>
    cases f with
    | store s => cases s <;> rfl
    | _ => rfl
  | store s => cases s <;> rfl
  | system f =>
    obtain ⟨kind, message⟩ := f
    cases kind <;> rfl

/-- A failure of the volume always decides. -/
theorem isSome_outcome?_volume (f : Failure) : (volume f).outcome?.isSome := by
  cases f with
  | store s => cases s <;> rfl
  | _ => rfl

/-- No cause stands for a mount that failed. -/
theorem outcome?_ne_mountFailed (c : Cause) : c.outcome? ≠ some .mountFailed := by
  cases c with
  | note text => exact nofun
  | volume f =>
    cases f with
    | store s => cases s <;> exact nofun
    | _ => exact nofun
  | store s => exact nofun
  | system f =>
    obtain ⟨kind, message⟩ := f
    cases kind <;> exact nofun

end Cause

namespace Trouble

section mentions
variable {word : List Char} {c : Char} (free : c ∉ word)
include free

theorem isPrefixOf_append_cons (a b : List Char) : word.isPrefixOf (a ++ c :: b) = word.isPrefixOf a := by
  induction word generalizing a with
  | nil => rfl
  | cons d word ih =>
    obtain ⟨other, free⟩ := List.ne_and_not_mem_of_not_mem_cons free
    cases a with
    | nil => simp [List.isPrefixOf, other.symm]
    | cons e a => simp [List.isPrefixOf, ih free]

/-- A word stands on one side of a letter that is not in it. -/
theorem mentions_append_cons (a b : List Char) : mentions word (a ++ c :: b) = (mentions word a || mentions word b) := by
  induction a with
  | nil =>
    have first := isPrefixOf_append_cons free [] b
    cases word with
    | nil => rfl
    | cons d word =>
      have here : mentions (d :: word) (c :: b) = ((d :: word).isPrefixOf (c :: b) || mentions (d :: word) b) := rfl
      rw [List.nil_append] at first
      rw [List.nil_append, here, first]
      rfl
  | cons d a ih =>
    have first := isPrefixOf_append_cons free (d :: a) b
    rw [List.cons_append] at first ⊢
    rw [mentions, first, ih, mentions, Bool.or_assoc]

end mentions

/-- Whether a text speaks of a mount. -/
def speaks (text : String) : Bool := mentions "mount".toList (text.toList.map Char.toLower)

/-- A colon and a blank are in no word. -/
theorem speaks_colon (a b : String) : speaks (a ++ ": " ++ b) = (speaks a || speaks b) := by
  have letters : ": ".toList.map Char.toLower = [':', ' '] := by decide
  have free : ' ' ∉ "mount".toList := by decide
  have blank := mentions_append_cons free [] (b.toList.map Char.toLower)
  rw [speaks, String.toList_append, String.toList_append, List.map_append, List.map_append, letters, List.append_assoc,
    List.cons_append, mentions_append_cons (by decide)]
  exact congrArg _ blank

theorem speaks_intercalate (texts : List String) : speaks (": ".intercalate texts) = texts.any speaks := by
  induction texts with
  | nil => decide
  | cons a texts ih =>
    cases texts with
    | nil => simp
    | cons b texts => rw [String.intercalate_cons_cons, speaks_colon, ih, List.any_cons (l := b :: texts)]

variable {t t' : Trouble}

theorem speaks_message (t : Trouble) : speaks t.message = t.any fun c => c.messages.any speaks := by
  rw [message, speaks_intercalate, List.any_flatMap]

theorem outcome_of_decided {o : Outcome} (decided : t.findSome? Cause.outcome? = some o) : t.outcome = o := by
  rw [outcome, decided]

theorem outcome_of_undecided (undecided : t.findSome? Cause.outcome? = none) :
    t.outcome = if speaks t.message then .mountFailed else .general := by
  rw [outcome, undecided]
  rfl

/-- Some cause decides the outcome. -/
def Decided (t : Trouble) : Prop := ∃ c ∈ t, c.outcome?.isSome

theorem Decided.findSome (h : t.Decided) : ∃ o, t.findSome? Cause.outcome? = some o :=
  Option.isSome_iff_exists.mp (List.findSome?_isSome_iff.mpr h)

/-- A mount is taken to have failed only where no cause decides. -/
theorem Decided.outcome_ne (h : t.Decided) : t.outcome ≠ .mountFailed := by
  obtain ⟨o, decided⟩ := h.findSome
  obtain ⟨c, _, outcome⟩ := List.exists_of_findSome?_eq_some decided
  rw [outcome_of_decided decided]
  rintro rfl
  exact c.outcome?_ne_mountFailed outcome

theorem findSome?_bare (t : Trouble) : (t.map Cause.bare).findSome? Cause.outcome? = t.findSome? Cause.outcome? := by
  rw [List.findSome?_map]
  exact congrArg (List.findSome? · t) (funext Cause.outcome?_bare)

/-- Failures with the same causes differ in their outcomes only by the words in their messages. -/
theorem outcome_eq_iff (alike : t.map Cause.bare = t'.map Cause.bare) :
    t.outcome = t'.outcome ↔ t.Decided ∨ speaks t.message = speaks t'.message := by
  have same : t.findSome? Cause.outcome? = t'.findSome? Cause.outcome? := by
    rw [← findSome?_bare t, alike, findSome?_bare]
  cases decided : t.findSome? Cause.outcome? with
  | some o =>
    rw [outcome_of_decided decided, outcome_of_decided (same ▸ decided)]
    exact iff_of_true rfl (.inl (List.findSome?_isSome_iff.mp (decided ▸ rfl)))
  | none =>
    have undecided : ¬ t.Decided := by
      intro h
      obtain ⟨o, found⟩ := h.findSome
      rw [decided] at found
      cases found
    rw [outcome_of_undecided decided, outcome_of_undecided (same ▸ decided), or_iff_right undecided]
    cases speaks t.message <;> cases speaks t'.message <;> decide

end Trouble

open Trouble

/-- What is attempted on files and folders of the machine. -/
def readers : List String := ["read config file", "create directory"]

/-- What is attempted on a store as a whole. -/
def keepers : List String := ["open store", "create store", "close store"]

/-- The failures of commands other than a mount that no cause decides, each with the names and texts in it that come
from elsewhere. -/
inductive Undecided : List String → Trouble → Prop where
  | unnamed : Undecided []
      [.note "No store given: pass --store, set KVFS_STORE, or set `store` in the config file"]
  | document (path account : String) : Undecided [path, account] [.note s!"Invalid config file: {path}", .note account]
  | system {act : String} (own : act ∈ readers) (path message : String) :
      Undecided [path, message] [.note s!"Failed to {act}: {path}", .system ⟨.other, message⟩]
  | stream (message : String) : Undecided [message] [.system ⟨.other, message⟩]
  | store {act : String} (own : act ∈ keepers) (path : String) (fault : Fault) :
      Undecided (path :: fault.message :: fault.causes) [.note s!"Failed to {act}: {path}", .store (.fault fault)]
  | closing (fault : Fault) : Undecided (fault.message :: fault.causes) [.store (.fault fault)]
  | file (path : String) : Undecided [path] [.note s!"Path component is a file: {path}"]

namespace Undecided
variable {told : List String} {t : Trouble}

theorem findSome? (h : Undecided told t) : t.findSome? Cause.outcome? = none := by
  cases h <;> rfl

/-- What is said before a name does not matter if it does not speak of a mount. -/
theorem speaks_phrase (phrase act : String) (before : phrase = act ++ ": ") (silent : speaks act = false) (name : String) :
    speaks (phrase ++ name) = speaks name := by
  rw [before, speaks_colon, silent, Bool.false_or]

theorem speaks_failed {act : String} (own : act ∈ readers ++ keepers) (path : String) :
    speaks s!"Failed to {act}: {path}" = speaks path := by
  have silent : ∀ act ∈ readers ++ keepers, speaks ("Failed to " ++ act) = false := by decide
  exact speaks_phrase _ _ rfl (silent act own) path

theorem speaks_fault (fault : Fault) : speaks (StoreFailure.fault fault).message = speaks fault.message :=
  speaks_phrase _ "Store I/O failed" rfl (by decide) fault.message

/-- The phrases of the program itself do not speak of a mount. -/
theorem speaks_message (h : Undecided told t) : speaks t.message = told.any speaks := by
  rw [Trouble.speaks_message]
  cases h with
  | unnamed => decide
  | document path account =>
    have note := speaks_phrase "Invalid config file: " "Invalid config file" rfl (by decide) path
    simp only [Cause.messages, List.any_cons, List.any_nil, Bool.or_false]
    exact congrArg (· || _) note
  | system own path message =>
    have note := speaks_failed (List.mem_append_left _ own) path
    simp only [Cause.messages, List.any_cons, List.any_nil, Bool.or_false]
    exact congrArg (· || _) note
  | stream message => simp only [Cause.messages, List.any_cons, List.any_nil, Bool.or_false]
  | store own path fault =>
    have note := speaks_failed (List.mem_append_right _ own) path
    simp only [Cause.messages, List.any_cons, List.any_nil, Bool.or_false, Cause.beneath, speaks_fault]
    exact congrArg (· || _) note
  | closing fault =>
    simp only [Cause.messages, List.any_cons, List.any_nil, Bool.or_false, Cause.beneath, speaks_fault]
  | file path =>
    have note := speaks_phrase "Path component is a file: " "Path component is a file" rfl (by decide) path
    simp only [Cause.messages, List.any_cons, List.any_nil, Bool.or_false]
    exact note

theorem outcome_eq (h : Undecided told t) : t.outcome = if told.any speaks then .mountFailed else .general := by
  rw [outcome_of_undecided h.findSome?, h.speaks_message]

end Undecided

/-- What can be said of a failure of a command other than a mount. -/
def Accounted (t : Trouble) : Prop := t.Decided ∨ ∃ told, Undecided told t

/-- A failure of the volume decides, whatever is noted about it. -/
theorem accounted_of_volume {t : Trouble} {f : Failure} (h : .volume f ∈ t) : Accounted t :=
  .inl ⟨_, h, Cause.isSome_outcome?_volume f⟩

namespace Edit
variable {α : Type}

theorem blames_volume (action : Action α) : Blames (fun t => ∃ f, t = [.volume f]) (volume action) := by
  constructor
  rintro t ⟨before, after, ends⟩
  obtain ⟨⟨r, between⟩, _, rest⟩ := Ending.mayEnd_bind.mp ends
  cases r with
  | ok a => cases Ending.mayEnd_pure.mp rest
  | error e =>
    cases Ending.mayEnd_pure.mp rest
    exact ⟨e, rfl⟩

theorem accounts_volume (action : Action α) : Blames Accounted (volume action) := by
  apply (blames_volume action).mono
  rintro t ⟨f, rfl⟩
  exact accounted_of_volume List.mem_cons_self

theorem accounts_ensureDirectory (author : Author) (permissions : UInt32) (depth : Nat) (path : String) :
    Blames Accounted (ensureDirectory author permissions depth path) := by
  apply (accounts_volume _).bind
  rintro (_ | a)
  · exact (accounts_volume _).bind fun _ => .pure _
  · exact .ite (.throw (.inr ⟨_, .file path⟩)) (.pure _)

theorem accounts_ensureDirectories (author : Author) (permissions : UInt32) (path : String) :
    Blames Accounted (ensureDirectories author permissions path) := by
  suffices ∀ names depth above, Blames Accounted (ensureDirectories.go author permissions depth above names) from
    this _ _ _
  intro names
  induction names with
  | nil => exact fun _ _ => .pure _
  | cons name names ih => exact fun depth above => (accounts_ensureDirectory author permissions _ _).bind fun _ => ih _ _

end Edit

namespace Running
variable {α ε : Type}

theorem blames_call {P : Trouble → Prop} (c : Call α) : Blames P (call c) := by
  constructor
  rintro t ⟨before, after, ends⟩
  obtain ⟨⟨a, between⟩, _, rest⟩ := Ending.mayEnd_bind.mp ends
  cases Ending.mayEnd_pure.mp rest

/-- A program that gives up blames nothing. -/
theorem blames_panic {P : Trouble → Prop} : Blames P (panic : Running α) := by
  constructor
  rintro t ⟨before, after, ends⟩
  obtain ⟨_, given, _⟩ := Ending.mayEnd_bind.mp ends
  obtain ⟨_, given, _⟩ := Ending.mayEnd_bind.mp given
  cases (Ending.mayEnd_pure (m := Script)).mp given

theorem blames_edit {P : Trouble → Prop} {e : Edit α} (h : Blames P e) : Blames P (edit e) := by
  constructor
  rintro t ⟨before, after, reply, admitted, same⟩
  cases same
  exact h.of_fails ⟨before, after, admitted⟩

theorem blames_must {P : Trouble → Prop} (r : Except SystemFailure Unit) : Blames P (must r) := by
  cases r with
  | ok _ => exact .pure ()
  | error e => exact blames_panic

theorem blames_write {P : Trouble → Prop} (bytes : ByteArray) : Blames P (write bytes) := .ite (.pure _) (blames_call _)

theorem blames_print {P : Trouble → Prop} (text : String) : Blames P (print text) := (blames_write _).bind fun _ => blames_must _

theorem blames_explained {P : Trouble → Prop} {cause : ε → Cause} {note : String} (r : Except ε α)
    (h : ∀ e, r = .error e → P [.note note, cause e]) : Blames P (explained cause note r) := by
  cases r with
  | ok a => exact .pure a
  | error e => exact .throw (h e rfl)

theorem accounts_volume (action : Action α) : Blames Accounted (volume action) := blames_edit (Edit.accounts_volume action)

/-- A failure of the machine decides or is of no kind that is told apart. -/
theorem accounted_of_system {t : Trouble} {f : SystemFailure} (here : .system f ∈ t)
    (other : ∀ message, f = ⟨.other, message⟩ → ∃ told, Undecided told t) : Accounted t := by
  obtain ⟨kind, message⟩ := f
  cases kind with
  | other => exact .inr (other message rfl)
  | _ => exact .inl ⟨_, here, rfl⟩

theorem accounted_system (act : String) (own : act ∈ readers) (path : String) (f : SystemFailure) :
    Accounted [.note s!"Failed to {act}: {path}", .system f] := by
  apply accounted_of_system (List.mem_cons_of_mem _ List.mem_cons_self)
  rintro message rfl
  exact ⟨_, .system own path message⟩

/-- What the machine does not give or take is its failure alone. -/
theorem accounts_given (r : Except SystemFailure α) : Blames Accounted (given r) := by
  cases r with
  | ok a => exact .pure a
  | error f =>
    apply Blames.throw
    apply accounted_of_system List.mem_cons_self
    rintro message rfl
    exact ⟨_, .stream message⟩

theorem accounted_store (act : String) (own : act ∈ keepers) (path : String) (fault : Fault) :
    Accounted [.note s!"Failed to {act}: {path}", faulty fault] := .inr ⟨_, .store own path fault⟩

theorem accounts_readSettings (path : String) : Blames Accounted (readSettings path) := by
  apply (blames_call _).bind
  intro r
  apply (blames_explained r fun e _ => accounted_system "read config file" (by decide) path e).bind
  intro text
  exact blames_explained _ fun e _ => .inr ⟨_, .document path e⟩

theorem accounts_settings (env : Environment) (named : Option String) : Blames Accounted (settings env named) := by
  cases named with
  | some path => exact accounts_readSettings path
  | none =>
    rw [settings.eq_def]
    split
    · exact accounts_readSettings _
    · exact (blames_call _).bind fun _ => .ite (accounts_readSettings _) (.pure _)
    · exact .pure _

theorem accounts_storePath (store : Option String) : Blames Accounted (storePath store) := by
  cases store with
  | some path => exact .pure path
  | none => exact .throw (.inr ⟨_, .unnamed⟩)

/-- What is noted about a failure of the volume leaves it decided. -/
theorem accounts_noted (note : String) (action : Action α) :
    Blames Accounted (tryCatch (volume action) fun trouble => throw (.note note :: trouble)) := by
  apply (blames_edit (Edit.blames_volume action)).tryCatch
  rintro t ⟨f, rfl⟩
  exact .throw (accounted_of_volume (List.mem_cons_of_mem _ List.mem_cons_self))

theorem accounts_openVolume (author : Author) (path : String) : Blames Accounted (openVolume author path) := by
  have missing (text : String) : Accounted [.system ⟨.notFound, text⟩] := .inl ⟨_, List.mem_cons_self, rfl⟩
  have opened : Blames Accounted (do
      explained faulty s!"Failed to open store: {path}" (← call (.openStore path))
      let options : Volume.Options := { uid := author.uid, gid := author.gid }
      tryCatch (volume (Volume.openRoot options (author.now .opening))) fun trouble =>
        throw (.note s!"Failed to load filesystem from {path}" :: trouble)) := by
    apply (blames_call _).bind
    intro r
    apply (blames_explained r fun e _ => accounted_store "open store" (by decide) path e).bind
    exact fun _ => accounts_noted _ _
  exact (blames_call _).bind fun _ => .ite opened (.throw_bind (missing _))

theorem accounts_makeStore (author : Author) (path : String) (permissions : UInt32) :
    Blames Accounted (makeStore author path permissions) := by
  have taken (text : String) : Accounted [.system ⟨.alreadyExists, text⟩] := .inl ⟨_, List.mem_cons_self, rfl⟩
  have shut (fault : Fault) : Blames Accounted (throw [faulty fault] : Running Unit) := .throw (.inr ⟨_, .closing fault⟩)
  -- Two branches come to this part. What it says of the last reply is left open.
  have made {closed : Reply Unit → Running Unit} (well : Blames Accounted (closed (.ok ())))
      (ill : ∀ fault, Blames Accounted (closed (.error fault))) : Blames Accounted (do
        explained faulty s!"Failed to create store: {path}" (← call (.openStore path))
        let options := Volume.Options.withRootPermissions { uid := author.uid, gid := author.gid } permissions
        tryCatch (volume (Volume.openRoot options (author.now .opening))) fun trouble =>
          throw (.note "Failed to initialize root directory" :: trouble)
        closed (← call .closeStore)) := by
    apply (blames_call _).bind
    intro r
    apply (blames_explained r fun e _ => accounted_store "create store" (by decide) path e).bind
    intro _
    apply (accounts_noted _ _).bind
    intro _
    apply (blames_call _).bind
    rintro (fault | _)
    · exact ill fault
    · exact well
  apply (blames_call _).bind
  intro present
  apply Blames.ite
  · exact .throw_bind (taken _)
  dsimp only
  split
  · rename_i folder _
    apply (blames_call _).bind
    intro there
    apply Blames.ite (made (blames_print _) shut)
    apply (blames_call _).bind
    intro r
    apply (blames_explained r fun e _ => accounted_system "create directory" (by decide) folder e).bind
    exact fun _ => made (blames_print _) shut
  · exact made (blames_print _) shut

/-- What a command does with an open store fails with a failure of the volume, at a file on the way, or with a failure
of the streams that it reads and writes. -/
theorem accounts_onVolume (author : Author) (command : Command) : Blames Accounted (onVolume author command) := by
  cases command with
  | list path long all onePerLine =>
    apply (accounts_volume _).bind
    intro entries
    apply Blames.ite
    · exact .ite (((accounts_volume _).map _).bind fun _ => blames_print _) ((Blames.pure _).bind fun _ => blames_print _)
    · exact blames_print _
  | content path =>
    exact (accounts_volume _).bind fun _ => (accounts_volume _).bind fun _ => (blames_write _).bind accounts_given
  | details path => exact (accounts_volume _).bind fun _ => blames_print _
  | makeDirectory path parents permissions =>
    exact .ite (blames_edit (Edit.accounts_ensureDirectories ..)) ((accounts_volume _).bind fun _ => .pure _)
  | touch path permissions => exact accounts_volume _
  | write path placement permissions =>
    exact (blames_call _).bind fun r => (accounts_given r).bind fun _ => (accounts_volume _).bind fun _ => .pure _
  | removeFile path force => exact accounts_volume _
  | removeDirectory path => exact accounts_volume _
  | resize path size create => exact accounts_volume _
  | init permissions => exact .pure _
  | mount request => exact .pure _

theorem accounts_execute (env : Environment) {invocation : Invocation}
    (other : ∀ request, invocation.command ≠ .mount request) : Blames Accounted (execute env invocation) := by
  apply (accounts_settings env invocation.config).bind
  intro settings
  apply (accounts_storePath _).bind
  intro path
  split
  · exact accounts_makeStore ..
  · exact absurd ‹_› (other _)
  · apply (accounts_openVolume ..).bind
    intro _
    apply (accounts_onVolume ..).bind
    intro _
    apply (blames_call _).bind
    intro r
    exact blames_explained r fun e _ => accounted_store "close store" (by decide) path e

end Running

variable {env : Environment} {args : List String} {invocation : Invocation} {t : Trouble} {o : Outcome}

/-- The command can fail with this trouble when it is run. -/
def Stops (env : Environment) (invocation : Invocation) (t : Trouble) : Prop :=
  ∃ after, Ending.MayEnd ((Running.execute env invocation).run.run none) (.error t, after)

/-- A command that fails ends its command line with the outcome of what it fails with, whether that is reported or not. -/
theorem mayEnd_of_stops (asked : Request.read args = .run invocation) (stops : Stops env invocation t) :
    (run env args).MayEnd t.outcome := by
  obtain ⟨after, executed⟩ := stops
  rw [run, asked]
  refine (Script.mayEnd_bind _ _ _).mpr ⟨_, executed, ?_⟩
  dsimp only
  split
  · rfl
  · exact ⟨.ok (), trivial, rfl⟩

/-- A command line ends well, is refused as it stands, gives up, or ends with the outcome of what its command fails
with. -/
theorem stops_of_mayEnd (ends : (run env args).MayEnd o) : o = .success ∨ o = .misuse ∨ o = .panicked ∨
    ∃ invocation t, Request.read args = .run invocation ∧ Stops env invocation t ∧ o = t.outcome := by
  rw [run] at ends
  cases asked : Request.read args with
  | misuse =>
    rw [asked] at ends
    obtain ⟨_, _, same⟩ := ends
    exact .inr (.inl same)
  | help about =>
    rw [asked] at ends
    obtain ⟨_, _, same⟩ := ends
    exact .inl same
  | version about =>
    rw [asked] at ends
    obtain ⟨_, _, same⟩ := ends
    exact .inl same
  | run invocation =>
    rw [asked] at ends
    obtain ⟨_ | ⟨r, after⟩, executed, rest⟩ := (Script.mayEnd_bind _ _ _).mp ends
    · exact .inr (.inr (.inl rest))
    cases r with
    | ok done => exact .inl rest
    | error t =>
      have stops (same : o = t.outcome) : ∃ invocation' t, Request.run invocation = .run invocation' ∧
          Stops env invocation' t ∧ o = t.outcome := ⟨invocation, t, rfl, ⟨after, executed⟩, same⟩
      dsimp only at rest
      split at rest
      · exact .inr (.inr (.inr (stops rest)))
      · obtain ⟨_ | _, _, same⟩ := rest
        · exact .inr (.inr (.inl same))
        · exact .inr (.inr (.inr (stops same)))

/-- How the outcome of a command line comes about. -/
structure OutcomeLaws (env : Environment) (args : List String) : Prop where
  /-- Failures with the same causes have the same outcome, unless no cause decides and one message alone speaks of
  a mount. -/
  alike : ∀ {t t' : Trouble}, t.map Cause.bare = t'.map Cause.bare →
    (t.outcome = t'.outcome ↔ t.Decided ∨ speaks t.message = speaks t'.message)
  /-- Where no cause decides the failure of a command other than a mount, the outcome hangs on the names and texts in
  it that come from elsewhere. -/
  other : ∀ {invocation t}, (∀ request, invocation.command ≠ .mount request) → Stops env invocation t →
    t.Decided ∧ t.outcome ≠ .mountFailed ∨
      ∃ told, Undecided told t ∧ t.outcome = if told.any speaks then .mountFailed else .general
  /-- A command other than a mount ends as a mount that failed exactly if it can fail undecided, with such a name or
  text that speaks of one. -/
  mounting : ∀ {invocation}, Request.read args = .run invocation → (∀ request, invocation.command ≠ .mount request) →
    ((run env args).MayEnd .mountFailed ↔
      ∃ told t, Stops env invocation t ∧ Undecided told t ∧ ∃ text ∈ told, speaks text)
  /-- Arguments that ask for no command never do. -/
  idle : (∀ invocation, Request.read args ≠ .run invocation) → ¬ (run env args).MayEnd .mountFailed
  /-- All this holds of the runs on a machine in memory. -/
  ran : ∀ (machine : Machine) input, (run env args).MayEnd (machine.run env args input).1

theorem outcome_of_other (other : ∀ request, invocation.command ≠ .mount request) (stops : Stops env invocation t) :
    t.Decided ∧ t.outcome ≠ .mountFailed ∨
      ∃ told, Undecided told t ∧ t.outcome = if told.any speaks then .mountFailed else .general := by
  rcases (Running.accounts_execute env other).of_fails ⟨none, stops⟩ with decided | ⟨told, undecided⟩
  · exact .inl ⟨decided, decided.outcome_ne⟩
  · exact .inr ⟨told, undecided, undecided.outcome_eq⟩

theorem mountFailed_iff (asked : Request.read args = .run invocation)
    (other : ∀ request, invocation.command ≠ .mount request) : (run env args).MayEnd .mountFailed ↔
      ∃ told t, Stops env invocation t ∧ Undecided told t ∧ ∃ text ∈ told, speaks text := by
  constructor
  · intro ends
    obtain h | h | h | ⟨same, t, asked', stops, outcome⟩ := stops_of_mayEnd ends
    · cases h
    · cases h
    · cases h
    cases asked.symm.trans asked'
    rcases outcome_of_other other stops with ⟨_, never⟩ | ⟨told, undecided, words⟩
    · exact absurd outcome.symm never
    refine ⟨told, t, stops, undecided, ?_⟩
    rw [← outcome] at words
    cases spoken : told.any speaks with
    | false =>
      rw [spoken] at words
      cases words
    | true => exact List.any_eq_true.mp spoken
  · rintro ⟨told, t, stops, undecided, spoken⟩
    have ends := mayEnd_of_stops asked stops
    rwa [undecided.outcome_eq, if_pos (List.any_eq_true.mpr spoken)] at ends

theorem outcomeLaws (env : Environment) (args : List String) : OutcomeLaws env args where
  alike := outcome_eq_iff
  other := outcome_of_other
  mounting := mountFailed_iff
  idle unasked ends := by
    obtain h | h | h | ⟨_, _, asked, _⟩ := stops_of_mayEnd ends
    · cases h
    · cases h
    · cases h
    · exact unasked _ asked
  ran _ _ := Script.mayEnd_run Machine.answer Machine.admits_answer (run env args) _

/-- The same failure, of which the outcome is that of the name in it. -/
example : Trouble.outcome [.note "Path component is a file: /mount"] = .mountFailed ∧
    Trouble.outcome [.note "Path component is a file: /file"] = .general := by decide

end Shell
end RecordFs
