import RecordFs.Mount.Failure
import RecordFs.Mount.Request
import RecordFs.Proofs.Mount.Steps

/-! What becomes of the table of numbers when a request is answered, read off the request and its
reply. A request that is refused leaves the table as it is. -/
namespace RecordFs.Mount

namespace NodeTable

def forgetAll (t : NodeTable) (nodes : List (Nat × Nat)) : NodeTable :=
  nodes.foldl (fun t (number, count) => (t.forget number count).2) t

def mentionAll (t : NodeTable) (entries : List (String × EntryKind)) : NodeTable :=
  entries.foldl (fun t (path, kind) => (t.mention path kind).2) t

variable {t : NodeTable} {number : Nat}

theorem Sound.forgetAll (sound : t.Sound) (nodes : List (Nat × Nat)) : (t.forgetAll nodes).Sound := by
  induction nodes generalizing t with
  | nil => exact sound
  | cons entry rest ih => exact ih (sound.step (t.step_forget entry.1 entry.2))

theorem Sound.mentionAll (sound : t.Sound) (entries : List (String × EntryKind)) : (t.mentionAll entries).Sound := by
  induction entries generalizing t with
  | nil => exact sound
  | cons entry rest ih => exact ih (sound.step (t.step_mention entry.1 entry.2))

theorem Sound.lookUp_isSome {path : String} {kind : EntryKind} (sound : t.Sound) (known : (t.node? number).isSome) :
    ((t.lookUp path kind).2.node? number).isSome := by
  by_cases here : number = (t.lookUp path kind).1
  · rcases sound.node?_lookUp path kind with ⟨_, _, after⟩ | ⟨_, after⟩ <;>
    · rw [here, after]
      rfl
  · rwa [node?_lookUp_other here]

theorem forget_isSome (n count : Nat) (known : (t.node? number).isSome) :
    ((t.forget n count).2.node? number).isSome ∨ n = number ∧ (t.forget n count).1 = true := by
  by_cases here : n = number
  · subst here
    obtain ⟨_, same⟩ | ⟨_, _, _, ⟨_, same⟩ | ⟨_, same⟩⟩ := t.forget_cases n count
    · rw [same]
      exact .inl known
    · rw [same]
      exact .inr ⟨rfl, rfl⟩
    · rw [same, node?_update, Option.isSome_map]
      exact .inl known
  · left
    rwa [node?_forget_other (Ne.symm here)]

theorem node?_forgetAll_of_none (nodes : List (Nat × Nat)) (unknown : t.node? number = none) :
    (t.forgetAll nodes).node? number = none := by
  induction nodes generalizing t with
  | nil => exact unknown
  | cons entry rest ih =>
    obtain ⟨n, count⟩ := entry
    refine ih ?_
    change (t.forget n count).2.node? number = none
    by_cases here : number = n
    · rwa [← here, forget_unknown unknown]
    · rwa [node?_forget_other here]

/-- A number leaves when the flag of one of its forgets tells so. -/
theorem node?_forgetAll_eq_none (nodes : List (Nat × Nat)) (known : (t.node? number).isSome) :
    (t.forgetAll nodes).node? number = none ↔
      ∃ front count back, nodes = front ++ (number, count) :: back ∧ ((t.forgetAll front).forget number count).1 = true := by
  constructor
  · intro left
    induction nodes generalizing t with
    | nil =>
      rw [show t.node? number = none from left] at known
      cases known
    | cons entry rest ih =>
      obtain ⟨n, count⟩ := entry
      rcases forget_isSome n count known with known | ⟨rfl, flag⟩
      · obtain ⟨front, count', back, rfl, flag⟩ := ih known left
        exact ⟨(n, count) :: front, count', back, rfl, flag⟩
      · exact ⟨[], count, rest, rfl, flag⟩
  · rintro ⟨front, count, back, rfl, flag⟩
    have split : t.forgetAll (front ++ (number, count) :: back) =
        (((t.forgetAll front).forget number count).2).forgetAll back := List.foldl_append
    rw [split]
    exact node?_forgetAll_of_none back (node?_forget_of_true flag)

/-- What is known of an entry stays when entries are mentioned, and a new one is not counted. -/
theorem Sound.node?_mentionAll (sound : t.Sound) (number : Nat) (entries : List (String × EntryKind)) :
    (t.mentionAll entries).node? number = t.node? number ∨
      t.node? number = none ∧ ∃ node, (t.mentionAll entries).node? number = some node ∧ node.lookups = 0 := by
  induction entries generalizing t with
  | nil => exact .inl rfl
  | cons entry rest ih =>
    obtain ⟨path, kind⟩ := entry
    have later := ih (sound.step (t.step_mention path kind))
    rcases sound.node?_mention path kind number with same | ⟨new, after⟩
    · rwa [same] at later
    · rcases later with still | ⟨unknown, -⟩
      · exact .inr ⟨new, _, still.trans after, rfl⟩
      · exact absurd (after.symm.trans unknown) nofun

end NodeTable

/-- Requests that do not touch the table, however they end. -/
def Request.plain : Request → Bool
  | .attributes _ | .change _ _ | .openNode _ | .read _ _ _ | .write _ _ _ | .flush _ | .release _ => true
  | _ => false

/-- All that can become of the table when a request has this reply. -/
inductive Answers (t : NodeTable) : Request → Except Failure Response → NodeTable → Prop
  | refused (request : Request) (e : Failure) (other : ∀ nodes, request ≠ .forget nodes) : Answers t request (.error e) t
  | plain (request : Request) (response : Response) (plain : request.plain) : Answers t request (.ok response) t
  | forgot (nodes : List (Nat × Nat)) : Answers t (.forget nodes) (.ok .silent) (t.forgetAll nodes)
  | listed (node : Nat) (offset : Int64) (buffer : Buffer) (rows : List Row) (entries : List (String × EntryKind)) :
      Answers t (.list node offset buffer) (.ok (.rows rows)) (t.mentionAll entries)
  | lookedUp (parent : Nat) (name : ByteArray) (path : String) (kind : EntryKind) (told : NodeAttributes)
      (number : told.number = (t.lookUp path kind).1) :
      Answers t (.lookup parent name) (.ok (.entry told)) (t.lookUp path kind).2
  | madeFile (parent : Nat) (name : ByteArray) (mode umask : UInt32) (caller : Caller) (path : String) (told : NodeAttributes)
      (number : told.number = (t.lookUp path .file).1) :
      Answers t (.makeFile parent name mode umask caller) (.ok (.made told)) (t.lookUp path .file).2
  | madeDirectory (parent : Nat) (name : ByteArray) (mode umask : UInt32) (caller : Caller) (path : String) (told : NodeAttributes)
      (number : told.number = (t.lookUp path .directory).1) :
      Answers t (.makeDirectory parent name mode umask caller) (.ok (.entry told)) (t.lookUp path .directory).2
  | removedFile (parent : Nat) (name : ByteArray) (path : String) :
      Answers t (.removeFile parent name) (.ok .done) (t.invalidate path)
  | removedDirectory (parent : Nat) (name : ByteArray) (path : String) :
      Answers t (.removeDirectory parent name) (.ok .done) (t.invalidate path)

/-- Requests that count, or take back, lookups. -/
def Request.counts : Request → Bool
  | .lookup _ _ | .makeFile _ _ _ _ _ | .makeDirectory _ _ _ _ _ | .forget _ => true
  | _ => false

namespace Answers
variable {t u : NodeTable} {number : Nat} {request : Request} {r : Except Failure Response}

theorem sound (h : Answers t request r u) (sound : t.Sound) : u.Sound := by
  cases h with
  | refused | plain => exact sound
  | forgot nodes => exact sound.forgetAll nodes
  | listed _ _ _ _ entries => exact sound.mentionAll entries
  | lookedUp | madeFile | madeDirectory => exact sound.step (t.step_lookUp _ _)
  | removedFile | removedDirectory => exact sound.step (t.step_invalidate _)

theorem refused_eq {e : Failure} (h : Answers t request (.error e) u) : u = t := by
  cases h with
  | refused => rfl

/-- A request that counts nothing leaves the entries that are known, and those it adds are not counted. -/
theorem node?_of_not_counts (h : Answers t request r u) (sound : t.Sound) (idle : request.counts = false) :
    u.node? number = t.node? number ∨ t.node? number = none ∧ ∃ node, u.node? number = some node ∧ node.lookups = 0 := by
  cases h with
  | refused | plain => exact .inl rfl
  | forgot | lookedUp | madeFile | madeDirectory => cases idle
  | listed _ _ _ _ entries => exact sound.node?_mentionAll number entries
  | removedFile | removedDirectory => exact .inl (congrFun (NodeTable.node?_invalidate _ _) number)

/-- A number that is known leaves only when it is forgotten for the last time. -/
theorem node?_eq_none (h : Answers t request r u) (sound : t.Sound) (known : (t.node? number).isSome) :
    u.node? number = none ↔ ∃ front count back, request = .forget (front ++ (number, count) :: back) ∧
      ((t.forgetAll front).forget number count).1 = true := by
  have stays (present : (u.node? number).isSome) (other : ∀ nodes, request ≠ .forget nodes) :
      u.node? number = none ↔ ∃ front count back, request = .forget (front ++ (number, count) :: back) ∧
        ((t.forgetAll front).forget number count).1 = true := by
    constructor
    · intro left
      rw [left] at present
      cases present
    · rintro ⟨_, _, _, same, _⟩
      exact absurd same (other _)
  cases h with
  | forgot nodes =>
    rw [NodeTable.node?_forgetAll_eq_none nodes known]
    simp only [Request.forget.injEq]
  | refused _ _ other => exact stays known other
  | plain _ _ plain =>
    refine stays known ?_
    rintro nodes rfl
    cases plain
  | listed _ _ _ _ entries =>
    refine stays ?_ nofun
    rcases sound.node?_mentionAll number entries with same | ⟨unknown, -⟩
    · rwa [same]
    · rw [unknown] at known
      cases known
  | lookedUp | madeFile | madeDirectory => exact stays (sound.lookUp_isSome known) nofun
  | removedFile | removedDirectory =>
    refine stays ?_ nofun
    rwa [NodeTable.node?_invalidate]

end Answers
end RecordFs.Mount
