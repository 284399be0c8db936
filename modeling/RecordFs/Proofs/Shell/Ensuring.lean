import RecordFs.Proofs.Mount.Displaying
import RecordFs.Proofs.Volume.Chains
import RecordFs.Shell.Edit

/-! Making a directory with those above it: what is there afterwards, and where it stops. -/
namespace RecordFs
open Outline Volume

namespace Shell.Edit
open Session
variable {author : Author} {permissions : UInt32} {depth : Nat} {path : String} {s t u : Session} {r : Except Trouble Unit}
  {place front names : List String} {name : String}

theorem attempt_volume {α : Type} (s : Session) (x : Action α) :
    s.attempt (volume x) = ((s.perform x).1.mapError fun e => [.volume e], (s.perform x).2) := by
  let next (r : Except Failure α) : StateT Cache Access (Except Trouble α) := return r.mapError fun e => [.volume e]
  have is : (volume x).run = x.run >>= next :=
    congrArg (x.run >>= ·) (funext fun r => r.rec (fun _ => rfl) fun _ => rfl)
  simp only [attempt, perform, is, Disk.perform_bind]
  rfl

theorem attempt_volume_cases {α : Type} {x : Action α} {r : Except Trouble α} (ran : s.attempt (volume x) = (r, t)) :
    ∃ r', s.perform x = (r', t) ∧ r = r'.mapError fun e => [.volume e] := by
  rw [attempt_volume] at ran
  cases ran
  exact ⟨_, rfl, rfl⟩

/-- What is told of an entry that may be missing. -/
def look (path : String) : Action (Option Volume.Attributes) :=
  tryCatch (some <$> Volume.attributes path) fun e => if e.isNotFound then return none else throw e

/-- What to do about what was found. -/
def settle (author : Author) (permissions : UInt32) (depth : Nat) (path : String) : Option Volume.Attributes → Edit Unit
  | some a => if a.kind ≠ .directory then throw [.note s!"Path component is a file: {path}"] else return ()
  | none => do
    let _ ← volume (Volume.makeDirectory (author.now (.chaining depth)) path permissions author.uid author.gid)

theorem ensureDirectory_eq :
    ensureDirectory author permissions depth path = volume (look path) >>= settle author permissions depth path := by
  refine congrArg (volume (look path) >>= ·) (funext fun found => ?_)
  cases found <;> rfl

/-- An entry that is missing is no failure. -/
def found? : Except Failure Volume.Attributes → Except Failure (Option Volume.Attributes)
  | .ok a => .ok (some a)
  | .error e => if e.isNotFound then .ok none else .error e

theorem found?_eq_ok {told : Except Failure Volume.Attributes} {found : Option Volume.Attributes} (h : found? told = .ok found) :
    (∃ a, told = .ok a ∧ found = some a) ∨ ∃ e, told = .error e ∧ e.isNotFound = true ∧ found = none := by
  cases told with
  | ok a =>
    cases h
    exact .inl ⟨a, rfl, rfl⟩
  | error e =>
    rw [found?] at h
    split at h
    · rename_i missing
      cases h
      exact .inr ⟨e, rfl, missing, rfl⟩
    · cases h

theorem found?_eq_error {told : Except Failure Volume.Attributes} {e : Failure} (h : found? told = .error e) :
    told = .error e ∧ e.isNotFound = false := by
  cases told with
  | ok a => cases h
  | error f =>
    rw [found?] at h
    split at h
    · cases h
    · rename_i present
      cases h
      exact ⟨rfl, Bool.eq_false_iff.mpr present⟩

theorem perform_look (s : Session) (path : String) :
    s.perform (look path) = (found? (s.perform (Volume.attributes path)).1, (s.perform (Volume.attributes path)).2) := by
  rw [look, ← attempt_eq, attempt_tryCatch, attempt_eq, perform_map]
  obtain ⟨e | a, u⟩ := s.perform (Volume.attributes path)
  · change u.perform (if e.isNotFound then _ else _) = (if e.isNotFound then _ else _, u)
    cases e.isNotFound <;> rfl
  · rfl

/-- Why there is no directory at a path. -/
inductive Stuck (author : Author) (permissions : UInt32) (depth : Nat) (path : String) (t : Session) : Trouble → Prop where
  | file {a : Volume.Attributes} (told : t.observe (Volume.attributes path) = .ok a) (kind : a.kind ≠ .directory) :
      Stuck author permissions depth path t [.note s!"Path component is a file: {path}"]
  | refused {e : Failure} (told : t.observe (Volume.attributes path) = .error e) (present : e.isNotFound = false) :
      Stuck author permissions depth path t [.volume e]
  | unmade {u : Session} {e : Failure} (missing : t.Missing path) (kept : u.Kept t)
      (refused : u.Performs (author.now (.chaining depth)) (.makeDirectory path permissions author.uid author.gid)
        (.error e) t) :
      Stuck author permissions depth path t [.volume e]

/-- What making sure of a directory comes to, where nothing fails. -/
inductive Ensured (author : Author) (permissions : UInt32) (depth : Nat) (path : String) (s : Session) :
    Except Trouble Unit → Session → Prop where
  | there {a : Volume.Attributes} {t : Session} (kept : s.Kept t) (told : s.world.outline.attributes path = .ok a)
      (is : a.kind = .directory) : Ensured author permissions depth path s (.ok ()) t
  | made {a : Volume.Attributes} {s₁ t : Session} (kept : s.Kept s₁) (reachable : s₁.Reachable)
      (performed : s₁.Performs (author.now (.chaining depth)) (.makeDirectory path permissions author.uid author.gid)
        (.ok (.attributes a)) t) :
      Ensured author permissions depth path s (.ok ()) t
  | stuck {trouble : Trouble} {t : Session} (kept : s.Kept t) (stuck : Stuck author permissions depth path t trouble) :
      Ensured author permissions depth path s (.error trouble) t

/-- A directory that is missing is made, or the shell is stuck where it was. -/
theorem ensured_of_missing {e : Failure} (h : u.Reachable) (steady : ¬ u.disk.Faulty)
    (asked : u.world.outline.attributes path = .error e) (missing : e.isNotFound = true)
    (ran : u.attempt (settle author permissions depth path none) = (r, t)) (supplied : t.disk.Supplied) :
    Advances path u t ∧ Ensured author permissions depth path u r t := by
  have performed {r' : Except Failure Volume.Attributes}
      (ran : u.perform (Volume.makeDirectory (author.now (.chaining depth)) path permissions author.uid author.gid) = (r', t)) :=
    performs_of_perform (author.now (.chaining depth)) (.makeDirectory path permissions author.uid author.gid)
      Answer.attributes rfl ran supplied
  obtain ⟨trouble, making, rfl⟩ | ⟨a, t', making, done⟩ := attempt_bind_cases ran
  · obtain ⟨r', called, failed⟩ := attempt_volume_cases making
    cases r' with
    | ok a => cases failed
    | error f =>
      cases failed
      have performed := performed called
      have kept := (performed.kept_of_error h.sound steady rfl).2
      have advances := performed.advances h steady fun _ named => (Option.some.inj named).symm
      have lost := (kept.observe_attributes h.sound advances.reachable.sound path).trans (observe_attributes h.sound path)
      exact ⟨advances, .stuck kept (.unmade ⟨e, lost.trans asked, missing⟩ kept performed)⟩
  · cases done
    obtain ⟨r', called, ok⟩ := attempt_volume_cases making
    cases r' with
    | error f => cases ok
    | ok a =>
      have performed := performed called
      exact ⟨performed.advances h steady fun _ named => (Option.some.inj named).symm, .made (.refl u) h performed⟩

theorem ensured_of_settle {found : Option Volume.Attributes} (h : u.Reachable) (steady : ¬ u.disk.Faulty)
    (told : found? (u.world.outline.attributes path) = .ok found)
    (ran : u.attempt (settle author permissions depth path found) = (r, t))
    (supplied : t.disk.Supplied) : Advances path u t ∧ Ensured author permissions depth path u r t := by
  obtain ⟨a, asked, rfl⟩ | ⟨e, asked, missing, rfl⟩ := found?_eq_ok told
  · rw [settle] at ran
    split at ran
    · rename_i file
      cases ran
      exact ⟨.refl h steady, .stuck (.refl u) (.file ((observe_attributes h.sound path).trans asked) file)⟩
    · rename_i is
      cases ran
      exact ⟨.refl h steady, .there (.refl u) asked (Decidable.not_not.mp is)⟩
  · exact ensured_of_missing h steady asked missing ran supplied

theorem Ensured.of_kept (kept : s.Kept u) (ensured : Ensured author permissions depth path u r t) :
    Ensured author permissions depth path s r t := by
  cases ensured with
  | there kept' told is => exact .there (kept.trans kept') (kept.outline ▸ told) is
  | made kept' reachable performed => exact .made (kept.trans kept') reachable performed
  | stuck kept' stuck => exact .stuck (kept.trans kept') stuck

theorem ensured_of_ensureDirectory (h : s.Reachable) (steady : ¬ s.disk.Faulty)
    (ran : s.attempt (ensureDirectory author permissions depth path) = (r, t)) (supplied : t.disk.Supplied) :
    Advances path s t ∧ Ensured author permissions depth path s r t := by
  rw [ensureDirectory_eq] at ran
  obtain ⟨⟨told, u⟩, asked⟩ : ∃ out, s.perform (Volume.attributes path) = out := ⟨_, rfl⟩
  have looked : s.attempt (volume (look path)) = ((found? told).mapError fun e => [.volume e], u) := by
    rw [attempt_volume, perform_look, asked]
  obtain ⟨trouble, failed, rfl⟩ | ⟨found, u', ok, ran⟩ := attempt_bind_cases ran
  · obtain ⟨failed, rfl⟩ := Prod.mk.inj (looked.symm.trans failed)
    obtain ⟨rfl, kept, advances⟩ := attributes_of_perform h steady asked supplied
    cases outcome : found? (s.world.outline.attributes path) with
    | ok found =>
      rw [outcome] at failed
      cases failed
    | error e =>
      rw [outcome] at failed
      cases failed
      obtain ⟨told, present⟩ := found?_eq_error outcome
      have shown := (kept.observe_attributes h.sound advances.reachable.sound path).trans (observe_attributes h.sound path)
      exact ⟨advances, .stuck kept (.refused (shown.trans told) present)⟩
  · obtain ⟨ok, rfl⟩ := Prod.mk.inj (looked.symm.trans ok)
    have supplied' := supplied_of_attempt ran supplied
    obtain ⟨rfl, kept, first⟩ := attributes_of_perform h steady asked supplied'
    have told : found? (u.world.outline.attributes path) = .ok found := by
      rw [kept.outline]
      cases outcome : found? (s.world.outline.attributes path) with
      | ok a =>
        rw [outcome] at ok
        exact congrArg _ (Except.ok.inj ok)
      | error e =>
        rw [outcome] at ok
        cases ok
    obtain ⟨second, ensured⟩ := ensured_of_settle first.reachable first.steady told ran supplied
    exact ⟨first.trans second, ensured.of_kept kept⟩

/-- The directories along `front` are there, where nothing fails. -/
structure Along (author : Author) (permissions : UInt32) (s : Session) (front : List String) (t : Session) : Prop where
  reachable : t.Reachable
  steady : ¬ t.disk.Faulty
  checked : Path.check (Path.along front) = .ok ()
  chained : Chained (fun depth => author.now (.chaining depth)) (Mode.directory ||| (permissions &&& Mode.permissionMask)) author.uid author.gid
    s.world.outline front t.world.outline

/-- One directory more. -/
theorem Along.ensured (along : Along author permissions s front u) (named : Path.segments path = front ++ [name])
    (is : path = Path.along (front ++ [name])) (advances : Advances path u t)
    (ensured : Ensured author permissions (front.length + 1) path u (.ok ()) t) :
    Along author permissions s (front ++ [name]) t := by
  cases ensured with
  | there kept told directory =>
    obtain ⟨i, found, rfl⟩ := attributes_eq_ok.mp told
    obtain ⟨checked, walked⟩ := resolve_eq_ok.mp found
    have sound := along.reachable.sound.outline
    have directory : i.isDirectory = true := Inode.isDirectory_iff.mpr directory
    obtain ⟨d, table⟩ := sound.directory _ _ (sound.walk_stored walked) directory
    rw [named] at walked
    have holds : u.world.outline.Holds (front ++ [name]) i d := ⟨fun other => walk_congr_path other walked, directory, table⟩
    exact ⟨advances.reachable, advances.steady, is ▸ checked, kept.outline ▸ along.chained.there holds⟩
  | made kept reachable performed =>
    have chained := kept.outline ▸ along.chained
    obtain ⟨place, self, data, opens, new, _, made⟩ :=
      Follows.made reachable.sound.outline (performed.follows reachable.sound).2
    obtain ⟨_, kind, _⟩ := @Facts.of_new _ .directory self data permissions author.uid author.gid
      (author.now (.chaining (front.length + 1))) rfl
    have checked := (lastName_eq_ok.mp opens.last).1
    exact ⟨advances.reachable, advances.steady, is ▸ checked,
      chained.step reachable.sound.outline named opens new made (Inode.isDirectory_iff.mpr kind)⟩

/-- How far the directories along the segments of a path go, and why no further. -/
structure Goes (author : Author) (permissions : UInt32) (whole : List String) (s : Session) (r : Except Trouble Unit)
    (front : List String) (t : Session) : Prop where
  along : Along author permissions s front t
  part : front <+: whole
  done : r = .ok () → front = whole
  stuck : ∀ {trouble}, r = .error trouble → ∃ name, front ++ [name] <+: whole ∧
    Stuck author permissions (front.length + 1) (Path.along (front ++ [name])) t trouble

theorem goes_of_go (each : ∀ name ∈ front ++ names, Path.Segment name) (along : Along author permissions s front u)
    (ran : u.attempt (ensureDirectories.go author permissions front.length (Path.along front) names) = (r, t))
    (supplied : t.disk.Supplied) :
    ∃ far, Goes author permissions (front ++ names) s r far t := by
  -- On the names still to come. What holds along those gone through is the invariant.
  induction names generalizing front u with
  | nil =>
    cases ran
    rw [List.append_nil]
    exact ⟨front, along, List.prefix_rfl, fun _ => rfl, nofun⟩
  | cons name names ih =>
    rw [ensureDirectories.go, ← Path.along_snoc] at ran
    rw [List.append_cons] at each ⊢
    have named : Path.segments (Path.along (front ++ [name])) = front ++ [name] :=
      Path.segments_along fun n member => each n (List.mem_append_left _ member)
    obtain ⟨trouble, making, rfl⟩ | ⟨_, u', making, ran⟩ := attempt_bind_cases ran
    · obtain ⟨advances, ensured⟩ := ensured_of_ensureDirectory along.reachable along.steady making supplied
      cases ensured with
      | stuck kept stuck =>
        refine ⟨front, ⟨advances.reachable, advances.steady, along.checked, kept.outline ▸ along.chained⟩, ?_, nofun, ?_⟩
        · exact (List.prefix_append ..).trans (List.prefix_append ..)
        · rintro _ ⟨⟩
          exact ⟨name, List.prefix_append .., stuck⟩
    · have supplied' := supplied_of_attempt ran supplied
      obtain ⟨advances, ensured⟩ := ensured_of_ensureDirectory along.reachable along.steady making supplied'
      have along := along.ensured named rfl advances ensured
      have length : (front ++ [name]).length = front.length + 1 := List.length_append
      rw [← length] at ran
      exact ih each along ran

/-- Where all the directories are, making sure of them only looks at them. -/
theorem consulted_of_go (front : List String) (sound : u.world.Sound) (steady : ¬ u.disk.Faulty)
    (stands : ∀ place, front <+: place → place <+: front ++ names →
      ∃ a, u.world.outline.attributes (Path.along place) = .ok a ∧ a.kind = .directory) :
    ∃ t, u.attempt (ensureDirectories.go author permissions depth (Path.along front) names) = (.ok (), t) ∧
      u.disk.Consulted t.disk := by
  induction names generalizing front depth u with
  | nil => exact ⟨u, rfl, _, _, rfl⟩
  | cons name names ih =>
    rw [List.append_cons] at stands
    obtain ⟨a, told, directory⟩ := stands (front ++ [name]) (List.prefix_append ..) (List.prefix_append ..)
    have looked := perform_of_yields (sound.yields_attributes (Path.along (front ++ [name]))) (steady : u.disk.Faulty → False)
    have ensured : u.attempt (ensureDirectory author permissions (depth + 1) (Path.along (front ++ [name]))) =
        (.ok (), (u.perform (Volume.attributes (Path.along (front ++ [name])))).2) := by
      have replied := looked.2.2.resolve_right And.left
      rw [ensureDirectory_eq, attempt_bind, attempt_volume, perform_look, replied, told]
      change Session.attempt _ (if a.kind ≠ .directory then _ else _) = _
      rw [if_neg (not_not.mpr directory)]
      rfl
    generalize (u.perform (Volume.attributes (Path.along (front ++ [name])))).2 = u₁ at looked ensured
    obtain ⟨cache, disk⟩ := u₁
    -- Looking leaves the same records, with other counts only, so the rest can go on from there.
    obtain ⟨same, ⟨gets, trace, left⟩, _⟩ := looked
    dsimp only at same left
    subst same left
    obtain ⟨t, ran, gets', trace', left⟩ := ih (u := ⟨u.cache, { u.disk with gets, trace }⟩) _ sound steady
      fun place before part => stands place ((List.prefix_append ..).trans before) part
    refine ⟨t, ?_, gets', trace', left⟩
    rw [ensureDirectories.go, ← Path.along_snoc, attempt_bind, ensured]
    exact ran

/-- What making a directory with those above it comes to. -/
structure ChainLaws (author : Author) (permissions : UInt32) (path : String) (s : Session) (r : Except Trouble Unit)
    (t : Session) : Prop where
  /-- It goes down to the directory at the path, or stops before the first one that is not there and cannot be made. -/
  chain : ∃ front, front <+: Path.segments path ∧
    s.Chain (fun depth => author.now (.chaining depth)) permissions author.uid author.gid front t ∧
    (r = .ok () → front = Path.segments path) ∧
    ∀ {trouble}, r = .error trouble → ∃ name, front ++ [name] <+: Path.segments path ∧
      Stuck author permissions (front.length + 1) (Path.along (front ++ [name])) t.calm trouble
  /-- Once the directory is there, making it again only looks. -/
  again : r = .ok () → ∀ author permissions, ∃ u,
    t.calm.attempt (ensureDirectories author permissions path) = (.ok (), u) ∧ t.calm.disk.Consulted u.disk

/-- A directory is made, with those above it, while the store answers. -/
theorem chainLaws_of_attempt (h : s.Reachable) (ran : s.attempt (ensureDirectories author permissions path) = (r, t))
    (supplied : t.disk.Supplied) (quiet : s.disk.Quiet t.disk) : ChainLaws author permissions path s r t := by
  have each (name : String) (member : name ∈ Path.segments path) : Path.Segment name := Path.of_mem_segments member
  obtain ⟨sound, root⟩ := h.sound_root
  have start : Along author permissions s.calm [] s.calm := by
    obtain ⟨i, found⟩ := Option.isSome_iff_exists.mp root
    obtain ⟨stored, is⟩ := sound.outline.root i found
    obtain ⟨d, table⟩ := sound.outline.directory _ _ stored is
    have walk (other : String) : s.world.outline.walk other [] = .ok i := by
      rw [walk_nil, Outline.start, found]
    exact ⟨h.failing _ _ _, s.not_faulty_calm, rfl, .nil ⟨walk, is, table⟩⟩
  have supplied' : t.calm.disk.Supplied := ⟨supplied.distinct, supplied.ne_zero, supplied.ne_rootPointer⟩
  obtain ⟨front, along, part, done, stuck⟩ := goes_of_go each start (attempt_calm ran quiet) supplied'
  have sound' : t.world.Sound := along.reachable.sound
  have chain : s.Chain (fun depth => author.now (.chaining depth)) permissions author.uid author.gid front t :=
    .of_chained sound sound' (fun name member => each name (part.subset member)) along.checked along.chained
  refine ⟨⟨front, part, chain, done, stuck⟩, fun ok author permissions => ?_⟩
  apply consulted_of_go [] along.reachable.sound along.steady
  intro place _ before
  obtain ⟨checked, segments⟩ := chain.spelled (done ok ▸ before)
  obtain ⟨a, told, is⟩ := chain.stands checked (segments.symm ▸ done ok ▸ before)
  rw [observe_attributes sound'] at told
  exact ⟨a, told, is⟩

section frugal
variable {α β : Type} {m n : Nat}

theorem frugal_volume {x : Action α} (h : Asks n x) (cache : Cache) : ((volume x).run.run cache).Frugal n := by
  refine (h cache).bind (n := 0) ?_
  rintro ⟨_ | _, _⟩ <;> trivial

theorem frugal_bind {x : Edit α} {f : α → Edit β} (h : ∀ cache, (x.run.run cache).Frugal m)
    (next : ∀ a cache, ((f a).run.run cache).Frugal n) (cache : Cache) : ((x >>= f).run.run cache).Frugal (m + n) := by
  refine (h cache).bind ?_
  rintro ⟨_ | a, cache⟩
  · trivial
  · exact next a cache

theorem frugal_ensureDirectory (cache : Cache) : ((ensureDirectory author permissions depth path).run.run cache).Frugal 2 := by
  have asks : Asks 0 (look path) := .tryCatch (.map some (.attributes path)) fun e => .ite (.pure none) (.throw e)
  rw [ensureDirectory_eq, ← Nat.zero_add 2]
  refine frugal_bind (frugal_volume asks) (fun found cache => ?_) cache
  cases found with
  | some a =>
    rw [settle]
    split <;> trivial
  | none =>
    have made : Asks 2 (Volume.makeDirectory (author.now (.chaining depth)) path permissions author.uid author.gid) :=
      Asks.make (author.now (.chaining depth)) path _ author.uid author.gid
    rw [settle]
    exact frugal_bind (n := 0) (f := fun _ => pure ()) (frugal_volume made) (fun _ _ => trivial) cache

/-- Each directory that is made takes two identifiers. -/
theorem frugal_go (above : String) (cache : Cache) :
    ((ensureDirectories.go author permissions depth above names).run.run cache).Frugal (2 * names.length) := by
  induction names generalizing depth above cache with
  | nil => trivial
  | cons name names ih =>
    rw [ensureDirectories.go, List.length_cons, Nat.mul_succ, Nat.add_comm (2 * _)]
    exact frugal_bind frugal_ensureDirectory (fun _ => ih _) cache

end frugal

section shows
variable {tree : Tree} (shows : s.Shows tree)
  (ran : s.attempt (ensureDirectory author permissions depth path) = (r, t))
include shows ran

/-- What to do about a path hangs on what the tree tells of it. -/
theorem settles_of_shows : ∃ told u, u.Shows tree ∧ told.map Volume.Attributes.plain = tree.told path ∧
    (match found? told with
      | .ok found => u.attempt (settle author permissions depth path found)
      | .error e => (.error [.volume e], u)) = (r, t) := by
  obtain ⟨⟨told, u⟩, asked⟩ : ∃ out, s.perform (Volume.attributes path) = out := ⟨_, rfl⟩
  obtain ⟨cache, consulted, reply⟩ :=
    perform_of_yields (shows.sound.yields_attributes path) (shows.steady : s.disk.Faulty → False)
  rw [asked] at cache consulted reply
  obtain rfl : told = s.world.outline.attributes path := reply.resolve_right And.left
  refine ⟨_, u, ?_, (shows.outline.told shows.sound.outline path).symm, ?_⟩
  · obtain ⟨cache', disk⟩ := u
    obtain ⟨gets, trace, left⟩ := consulted
    dsimp only at cache left
    subst cache left
    exact ⟨shows.sound, shows.steady, shows.outline⟩
  · rw [ensureDirectory_eq, attempt_bind, attempt_volume, perform_look, asked] at ran
    rw [← ran]
    cases found? (s.world.outline.attributes path) <;> rfl

/-- An entry that a tree has is let be; it has to be a directory. -/
theorem found_of_shows (kind : EntryKind) (is : (tree.told path).map (·.kind) = .ok kind) :
    r = (if kind ≠ .directory then .error [.note s!"Path component is a file: {path}"] else .ok ()) ∧ t.Shows tree := by
  obtain ⟨told, u, shows, same, settles⟩ := settles_of_shows shows ran
  rw [← same] at is
  cases told with
  | error e => cases is
  | ok a =>
    obtain rfl : a.kind = kind := Except.ok.inj is
    change u.attempt (if a.kind ≠ .directory then _ else _) = (r, t) at settles
    split at settles <;> cases settles
    · rename_i file
      exact ⟨(if_pos file).symm, shows⟩
    · rename_i directory
      exact ⟨(if_neg directory).symm, shows⟩

/-- A directory that a tree lacks and allows is made. -/
theorem made_of_shows (supplied : t.disk.Supplied) (missing : tree.told path = .error (.notFound path))
    (allowed : (tree.step (author.now (.chaining depth)) (.makeDirectory path permissions author.uid author.gid)).toBool) :
    r = .ok () ∧ t.Shows (tree.after (author.now (.chaining depth)) (.makeDirectory path permissions author.uid author.gid)) := by
  obtain ⟨told, u, shows, same, settles⟩ := settles_of_shows shows ran
  cases told with
  | ok a => cases same.trans missing
  | error e =>
    cases same.trans missing
    change u.attempt (settle author permissions depth path none) = (r, t) at settles
    rw [settle, attempt_bind, attempt_volume] at settles
    obtain ⟨⟨told, v⟩, making⟩ : ∃ out,
      u.perform (Volume.makeDirectory (author.now (.chaining depth)) path permissions author.uid author.gid) = out := ⟨_, rfl⟩
    rw [making] at settles
    have is : (Call.makeDirectory path permissions author.uid author.gid).perform (author.now (.chaining depth)) =
      .attributes <$> Volume.makeDirectory (author.now (.chaining depth)) path permissions author.uid author.gid := rfl
    have supplied : v.disk.Supplied := by
      cases told <;> cases settles <;> exact supplied
    obtain ⟨a, v', made, shows, _⟩ := shows.succeeds is allowed (making ▸ supplied)
    cases making.symm.trans made
    cases settles
    exact ⟨rfl, shows⟩

end shows

/-- Where the first directory is there or can be made, the rest goes on from it. -/
theorem go_of_shows {tree : Tree} {above : String}
    (ran : s.attempt (ensureDirectories.go author permissions depth above (name :: names)) = (r, t))
    (supplied : t.disk.Supplied)
    (first : ∀ {r' u}, s.attempt (ensureDirectory author permissions (depth + 1) (above ++ "/" ++ name)) = (r', u) →
      u.disk.Supplied → r' = .ok () ∧ u.Shows tree) :
    ∃ u : Session, u.Shows tree ∧
      u.attempt (ensureDirectories.go author permissions (depth + 1) (above ++ "/" ++ name) names) = (r, t) := by
  obtain ⟨_, making, rfl⟩ | ⟨_, u, making, rest⟩ := attempt_bind_cases ran
  · cases (first making supplied).1
  · exact ⟨u, (first making (supplied_of_attempt rest supplied)).2, rest⟩

/-- An author whose clock goes on from one directory of a chain to the next. -/
def mason : Author where
  uid := 0
  gid := 0
  now := ⟨fun
    | .chaining depth => .ofNat depth
    | _ => 0⟩

/-- Two directories are made in one that is there; where a file stands in the way, none is. -/
theorem chainLaws_nested : Reachable nested ∧
    (∃ t, nested.attempt (ensureDirectories mason 0o755 "/d/a/b") = (.ok (), t) ∧ t.disk.Supplied ∧ nested.disk.Quiet t.disk ∧
      ChainLaws mason 0o755 "/d/a/b" nested (.ok ()) t) ∧
    ∃ t, nested.attempt (ensureDirectories mason 0o755 "/d/f/b") = (.error [.note "Path component is a file: /d/f"], t) ∧
      t.disk.Supplied ∧ nested.disk.Quiet t.disk ∧
      ChainLaws mason 0o755 "/d/f/b" nested (.error [.note "Path component is a file: /d/f"]) t := by
  have displays := displays_nested
  have shows := displays.shows
  have quiet (disk : Disk) : nested.disk.Quiet disk := Disk.quiet_of_steady shows.steady
  refine ⟨displays.reachable, ?_, ?_⟩
  · obtain ⟨⟨r, t⟩, ran⟩ : ∃ out, nested.attempt (ensureDirectories mason 0o755 "/d/a/b") = out := ⟨_, rfl⟩
    have segments : Path.segments "/d/a/b" = ["d", "a", "b"] := by decide +kernel
    have steps : nested.attempt (ensureDirectories.go mason 0o755 0 "" ["d", "a", "b"]) = (r, t) := segments ▸ ran
    have supplied := supplied_of_frugal (frugal_go "" nested.cache) steps displays.supply displays.issued (by decide)
    obtain rfl : r = .ok () := by
      obtain ⟨u, shows, steps⟩ := go_of_shows steps supplied fun making _ =>
        found_of_shows shows making .directory (by decide +kernel)
      obtain ⟨u, shows, steps⟩ := go_of_shows steps supplied fun making supplied =>
        made_of_shows shows making supplied (by decide +kernel) (by decide +kernel)
      obtain ⟨u, shows, steps⟩ := go_of_shows steps supplied fun making supplied =>
        made_of_shows shows making supplied (by decide +kernel) (by decide +kernel)
      cases steps
      rfl
    exact ⟨t, ran, supplied, quiet _, chainLaws_of_attempt displays.reachable ran supplied (quiet _)⟩
  · obtain ⟨⟨r, t⟩, ran⟩ : ∃ out, nested.attempt (ensureDirectories mason 0o755 "/d/f/b") = out := ⟨_, rfl⟩
    have segments : Path.segments "/d/f/b" = ["d", "f", "b"] := by decide +kernel
    have steps : nested.attempt (ensureDirectories.go mason 0o755 0 "" ["d", "f", "b"]) = (r, t) := segments ▸ ran
    have supplied := supplied_of_frugal (frugal_go "" nested.cache) steps displays.supply displays.issued (by decide)
    obtain rfl : r = .error [.note "Path component is a file: /d/f"] := by
      obtain ⟨u, shows, steps⟩ := go_of_shows steps supplied fun making _ =>
        found_of_shows shows making .directory (by decide +kernel)
      obtain ⟨_, making, rfl⟩ | ⟨_, u, making, rest⟩ := attempt_bind_cases steps
      · exact (found_of_shows shows making .file (by decide +kernel)).1
      · cases (found_of_shows shows making .file (by decide +kernel)).1
    exact ⟨t, ran, supplied, quiet _, chainLaws_of_attempt displays.reachable ran supplied (quiet _)⟩

end Shell.Edit
end RecordFs
