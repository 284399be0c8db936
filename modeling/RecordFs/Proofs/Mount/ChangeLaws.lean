import RecordFs.Proofs.Mount.Altering
import RecordFs.Proofs.Mount.Displaying
import RecordFs.Proofs.Volume.OpenLaws

/-! A change does what it is asked for and nothing else: what is given is what the kernel is told afterwards,
and what is not given stays, but for the times that a new length and the change itself bring. -/
namespace RecordFs
open Volume

namespace Mount

/-- Whole seconds are exchanged without loss, before the epoch as well. -/
theorem Instant.toSeconds_ofSeconds (seconds : Int64) : (ofSeconds seconds).toSeconds = seconds := by
  have low : Int64.minValue.toInt ≤ seconds.toInt := seconds.minValue_le_toInt
  have high : seconds.toInt ≤ Int64.maxValue.toInt := seconds.toInt_le
  rw [toSeconds, ofSeconds, Int.mul_tdiv_cancel _ (by decide), min_eq_right high, max_eq_right low, Int64.ofInt_toInt]

/-- What the kernel is told after a change of an entry of which it was told `old`. -/
def Changes.told (c : Changes) (now : Clock Reading) (old : NodeAttributes) : NodeAttributes :=
  { old with
    permissions := c.mode.elim old.permissions (· &&& Mode.permissionMask)
    uid := c.uid.getD old.uid
    gid := c.gid.getD old.gid
    size := c.size.getD old.size
    blocks := ((c.size.getD old.size).toNat + 511) / 512
    atime := c.atime.elim old.atime fun time => .ofSeconds (time.seconds (now .atime))
    mtime := c.mtime.elim (if c.size.isSome then .ofSeconds (now .size) else old.mtime) fun time =>
      .ofSeconds (time.seconds (now .mtime))
    ctime := c.last?.elim old.ctime fun reading => .ofSeconds (now reading) }

namespace Changes
variable (c : Changes) (now : Clock Reading) {i : Inode}

/-- The kind never changes: the bits of a mode that are its type are not those of the permissions. -/
theorem kind_inode (typed : i.Typed) : (c.inode now i).kind = i.kind := by
  cases given : c.mode with
  | none => rw [Inode.kind, inode, given, Option.elim_none, Inode.kind]
  | some mode =>
    apply Inode.kind_of_mode (m := mode)
    rw [inode, given, Option.elim_some, typed.type]

theorem permissions_inode (typed : i.Typed) :
    (c.inode now i).permissions = c.mode.elim i.permissions (· &&& Mode.permissionMask) := by
  cases given : c.mode with
  | none => rw [Inode.permissions, inode, given, Option.elim_none, Option.elim_none, Inode.permissions]
  | some mode =>
    apply Inode.permissions_of_mode (k := i.kind)
    rw [inode, given, Option.elim_some, typed.type]

theorem told_of (node : Nat) (typed : i.Typed) :
    NodeAttributes.of node (.ofInode (c.inode now i)) = c.told now (.of node (.ofInode i)) := by
  simp only [told, NodeAttributes.of, Attributes.ofInode, c.kind_inode now typed, c.permissions_inode now typed]
  rw [inode]
  congr 1
  · cases c.atime <;> rfl
  · cases c.mtime with
    | none => exact apply_ite Instant.ofSeconds _ _ _
    | some time => rfl
  · cases c.last? <;> rfl

end Changes

namespace Mounted
open Serving
variable {m m' m₀ : Mounted} {now now₀ : Clock Reading} {node : Nat} {path : String} {old told : NodeAttributes} {c : Changes}

/-- What is told of the entry at the path of a number, or a call of the store failed. -/
theorem run_attributes {r : Except Failure NodeAttributes} (sound : m.session.world.Sound)
    (known : m.table.path? node = some path) (ran : m.run (Serving.attributes node) = (r, m')) :
    m.session.disk.Consulted m'.session.disk ∧ m'.session.cache = m.session.cache ∧ m'.table = m.table ∧
      (r = ((m.session.world.outline.attributes path).mapError .volume).map (.of node) ∨
        m.session.disk.Faulty ∧ ∃ f, r = .error (.volume (.ofFault f))) := by
  obtain ⟨cache, consulted, reply⟩ := Session.perform_of_yields (sound.yields_attributes path) (id : m.session.disk.Faulty → _)
  rw [Serving.attributes, run_bind, run_pathOf, known] at ran
  simp only [Option.elim_some, run_bind, run_volume] at ran
  generalize m.session.perform (Volume.attributes path) = out at cache consulted reply ran
  obtain ⟨v, t⟩ := out
  cases v with
  | ok a =>
    cases ran
    refine ⟨consulted, cache, rfl, .inl ?_⟩
    rcases reply with told | ⟨_, f, failed⟩
    · rw [← told]
      rfl
    · cases failed
  | error e =>
    cases ran
    refine ⟨consulted, cache, rfl, ?_⟩
    rcases reply with told | ⟨faulty, f, failed⟩
    · rw [← told]
      exact .inl rfl
    · cases failed
      exact .inr ⟨faulty, f, rfl⟩

section told
variable (h : m.Reachable) (before : m.Serves now₀ (.attributes node) (.ok (.attributes old)) m₀)
include h before

/-- The entry that is told of stands at the path of its number. -/
theorem resolved_of_attributes : ∃ path i, m.table.path? node = some path ∧
    m.session.world.outline.resolve path = .ok i ∧ i.Typed ∧ old = .of node (.ofInode i) := by
  obtain ⟨_, ran, same⟩ := run_map_ok.mp before.run
  cases same
  obtain ⟨path, _, known, _, _, _⟩ := run_attributes_ok ran
  obtain ⟨_, _, _, reply⟩ := run_attributes h.session.sound known ran
  rcases reply with reply | ⟨_, f, failed⟩
  · cases told : m.session.world.outline.attributes path with
    | error e =>
      rw [told] at reply
      cases reply
    | ok a =>
      rw [told] at reply
      obtain ⟨i, found, rfl⟩ := Outline.attributes_eq_ok.mp told
      have stored := h.session.sound.outline.resolve_stored found
      exact ⟨path, i, known, found, (h.session.sound.inode _ _ stored).mode, Except.ok.inj reply⟩
  · cases failed

/-- What a change does that succeeded. -/
theorem altered_of_served (served : m.Serves now (.change node c) (.ok (.attributes told)) m') :
    ∃ path i, m.table.path? node = some path ∧ i.Typed ∧ old = .of node (.ofInode i) ∧
      told = .of node (.ofInode (c.inode now i)) ∧ m'.table = m.table ∧
      m.session.Altered path i (c.inode now i) c.bytes m'.session := by
  obtain ⟨path, i, known, found, typed, rfl⟩ := resolved_of_attributes h before
  obtain ⟨_, ran, same⟩ := run_map_ok.mp served.run
  cases same
  rw [change_eq] at ran
  obtain ⟨path', _, found', ran⟩ := run_bind_ok.mp ran
  obtain ⟨known', rfl⟩ := run_pathOf_ok.mp found'
  cases known.symm.trans known'
  obtain ⟨_, m₁, changed, ran⟩ := run_bind_ok.mp ran
  have like := like_run m₁ (Serving.attributes node)
  rw [ran] at like
  obtain ⟨altered, table, reached⟩ :=
    (alters_steps now path c).effect h.session found changed (like.supplied served.supplied)
  -- The reply is read only after all the steps, and reading it changes nothing.
  obtain ⟨consulted, cache, table', reply⟩ := run_attributes reached.sound (table ▸ known) ran
  have same := Session.outline_eq (Session.find?_of_consulted consulted) cache
  have sound := (h.runs (.served (.refl m) served)).session.sound
  rw [Outline.attributes_eq_ok.mpr ⟨_, altered.resolved, rfl⟩] at reply
  refine ⟨path, i, known, typed, rfl, ?_, table'.trans table, altered.of_outline same reached.sound sound⟩
  exact Except.ok.inj (reply.resolve_right fun ⟨_, _, failed⟩ => nomatch failed)

end told

/-- What holds of the changes of an entry of which the kernel was told. -/
structure ChangeLaws (m : Mounted) (node : Nat) (old : NodeAttributes) : Prop where
  /-- After a change that succeeded the kernel is told just what was asked for. Times of whole seconds come back
  as they were given. -/
  told : ∀ {now c told m'}, m.Serves now (.change node c) (.ok (.attributes told)) m' → told = c.told now old ∧
    (∀ seconds, c.atime = some (.given (.ofSeconds seconds)) → told.atime = .ofSeconds seconds) ∧
    (∀ seconds, c.mtime = some (.given (.ofSeconds seconds)) → told.mtime = .ofSeconds seconds)
  /-- The same is told again when asked right after. -/
  again : ∀ {now now' c told m' r m''}, m.Serves now (.change node c) (.ok (.attributes told)) m' →
    m'.Serves now' (.attributes node) r m'' →
      r = .ok (.attributes told) ∨ m'.session.disk.Faulty ∧ ∃ f, r = .error (.volume (.ofFault f))
  /-- The file has its old bytes as far as the length goes, and zeros after them. No other file has changed. -/
  content : ∀ {now c told m' path}, m.Serves now (.change node c) (.ok (.attributes told)) m' →
    m.table.path? node = some path →
      (∀ bytes, m.session.content path = .ok bytes → m'.session.content path = .ok (c.bytes bytes)) ∧
      ∀ other bytes, Path.segments other ≠ Path.segments path →
        (m'.session.content other = .ok bytes ↔ m.session.content other = .ok bytes)
  /-- A change of nothing stores nothing. -/
  nothing : ∀ {now r m'}, m.Serves now (.change node {}) r m' →
    m.session.disk.Consulted m'.session.disk ∧ m'.session.cache = m.session.cache ∧ m'.table = m.table
  /-- A change succeeds where no call of the store can fail, unless a length is given that cannot be set. -/
  succeeds : ∀ {now c r m'}, ¬ m.session.disk.Faulty → c.Allowed old.kind → m.Serves now (.change node c) r m' →
    ∃ told, r = .ok (.attributes told)

section laws
variable {r : Except Failure Response} {m'' : Mounted} {now' : Clock Reading}

theorem answered_of_map {x : Serving NodeAttributes} (ran : m.run (Response.attributes <$> x) = (r, m'')) :
    ∃ told, m.run x = (told, m'') ∧ r = told.map .attributes := by
  rw [run_map] at ran
  obtain ⟨rfl, rfl⟩ := Prod.mk.inj ran
  exact ⟨_, rfl, rfl⟩

theorem run_change (known : m.table.path? node = some path) (now : Clock Reading) (c : Changes) :
    m.run (change now node c) = m.run (do steps now path c; Serving.attributes node) := by
  rw [change_eq, run_bind, run_pathOf, known]
  rfl

theorem consulted_of_nothing (sound : m.session.world.Sound) (served : m.Serves now (.change node {}) r m') :
    m.session.disk.Consulted m'.session.disk ∧ m'.session.cache = m.session.cache ∧ m'.table = m.table := by
  obtain ⟨_, ran, _⟩ := answered_of_map served.run
  cases known : m.table.path? node with
  | none =>
    rw [change_eq, run_bind, run_pathOf, known] at ran
    cases ran
    exact ⟨⟨_, _, rfl⟩, rfl, rfl⟩
  | some path =>
    have nothing : (do steps now path {}; Serving.attributes node) = Serving.attributes node := pure_bind ..
    rw [run_change known, nothing] at ran
    obtain ⟨consulted, cache, table, _⟩ := run_attributes sound known ran
    exact ⟨consulted, cache, table⟩

theorem told_again (h : m.Reachable) (before : m.Serves now₀ (.attributes node) (.ok (.attributes old)) m₀)
    (served : m.Serves now (.change node c) (.ok (.attributes told)) m') (asked : m'.Serves now' (.attributes node) r m'') :
    r = .ok (.attributes told) ∨ m'.session.disk.Faulty ∧ ∃ f, r = .error (.volume (.ofFault f)) := by
  obtain ⟨path, i, known, _, _, rfl, table, altered⟩ := altered_of_served h before served
  have sound := (h.runs (.served (.refl m) served)).session.sound
  obtain ⟨_, ran, rfl⟩ := answered_of_map asked.run
  obtain ⟨_, _, _, reply⟩ := run_attributes sound (table ▸ known) ran
  rw [Outline.attributes_eq_ok.mpr ⟨_, altered.resolved, rfl⟩] at reply
  rcases reply with rfl | ⟨faulty, f, rfl⟩
  · exact .inl rfl
  · exact .inr ⟨faulty, f, rfl⟩

theorem changed_of_allowed (h : m.Reachable) (before : m.Serves now₀ (.attributes node) (.ok (.attributes old)) m₀)
    (steady : ¬ m.session.disk.Faulty) (allowed : c.Allowed old.kind) (served : m.Serves now (.change node c) r m') :
    ∃ told, r = .ok (.attributes told) := by
  obtain ⟨path, i, known, found, typed, rfl⟩ := resolved_of_attributes h before
  obtain ⟨_, ran, rfl⟩ := answered_of_map served.run
  rw [run_change known, run_bind] at ran
  have alters := alters_steps now path c
  have like := like_run m (steps now path c)
  generalize stepped : m.run (steps now path c) = out at ran like
  obtain ⟨r₁, m₁⟩ := out
  have last : m₁.session.disk.Like m'.session.disk := by
    cases r₁ with
    | ok _ =>
      have ran : m₁.run (Serving.attributes node) = _ := ran
      have like := like_run m₁ (Serving.attributes node)
      rwa [ran] at like
    | error e =>
      cases ran
      exact .rfl
  have supplied := last.supplied served.supplied
  have done := alters.succeeds (m := m) h.session found steady allowed
  rw [stepped] at done
  obtain rfl : r₁ = .ok () := done supplied
  obtain ⟨altered, table, reached⟩ := alters.effect h.session found stepped supplied
  obtain ⟨_, _, _, reply⟩ := run_attributes reached.sound (table ▸ known) ran
  rw [Outline.attributes_eq_ok.mpr ⟨_, altered.resolved, rfl⟩] at reply
  rcases reply with rfl | ⟨faulty, _⟩
  · exact ⟨_, rfl⟩
  · exact absurd (like.faulty.mp faulty) steady

end laws

theorem changeLaws_of_served (h : m.Reachable) (before : m.Serves now₀ (.attributes node) (.ok (.attributes old)) m₀) :
    m.ChangeLaws node old where
  told {now c told m'} served := by
    obtain ⟨path, i, known, typed, rfl, rfl, _, _⟩ := altered_of_served h before served
    refine ⟨c.told_of now node typed, fun seconds given => ?_, fun seconds given => ?_⟩
    · rw [c.told_of now node typed, Changes.told, given, Option.elim_some, TimeChange.seconds, Instant.toSeconds_ofSeconds]
    · rw [c.told_of now node typed, Changes.told, given, Option.elim_some, TimeChange.seconds, Instant.toSeconds_ofSeconds]
  again served asked := told_again h before served asked
  content served known := by
    obtain ⟨path, i, known', _, _, _, _, altered⟩ := altered_of_served h before served
    cases known.symm.trans known'
    exact ⟨altered.content, altered.elsewhere⟩
  nothing served := consulted_of_nothing h.session.sound served
  succeeds steady allowed served := changed_of_allowed h before steady allowed served

end Mounted

namespace Serving
variable {α β : Type}

/-- The program asks for no identifier, wherever it is run. -/
def AsksNone (x : Serving α) : Prop := ∀ m : Mounted, (m.run x).2.session.disk.issued ≤ m.session.disk.issued

namespace AsksNone

theorem pure (a : α) : AsksNone (pure a) := fun _ => Nat.le_refl _

theorem bind {x : Serving α} {f : α → Serving β} (h : AsksNone x) (next : ∀ a, AsksNone (f a)) : AsksNone (x >>= f) := by
  intro m
  have first := h m
  rw [Mounted.run_bind]
  generalize m.run x = out at first ⊢
  obtain ⟨r, m₁⟩ := out
  cases r with
  | ok a => exact Nat.le_trans (next a m₁) first
  | error e => exact first

theorem volume {x : Action α} (asks : Asks 0 x) : AsksNone (volume x) := by
  intro m
  rw [Mounted.run_volume]
  exact Disk.issued_run_le (asks m.session.cache) m.session.disk

theorem ite {p : Prop} [Decidable p] {x y : Serving α} (h : AsksNone x) (k : AsksNone y) : AsksNone (if p then x else y) := by
  split
  · exact h
  · exact k

theorem optional {o : Option α} {f : α → Serving PUnit} (each : ∀ a ∈ o, AsksNone (f a)) : AsksNone (o.forM f) := by
  cases o with
  | some a => exact each a rfl
  | none => exact .pure _

theorem pathOf (node : Nat) : AsksNone (pathOf node) := by
  intro m
  rw [Mounted.run_pathOf]

theorem attributes (node : Nat) : AsksNone (attributes node) :=
  (pathOf node).bind fun path => (volume (.attributes path)).bind fun _ => .pure _

theorem change_of_each (now : Clock Reading) (node : Nat) {c : Changes}
    (each : ∀ path, ∀ size ∈ c.size, Asks 0 (Volume.resize (now .size) path size)) : AsksNone (change now node c) := by
  rw [change_eq]
  apply (pathOf node).bind
  intro path
  apply AsksNone.bind (x := steps now path c) _ fun _ => attributes node
  rw [steps]
  apply (optional fun mode _ => volume (.change (now .mode) path _)).bind
  intro _
  apply (AsksNone.ite (volume (.change (now .owner) path _)) (.pure _)).bind
  intro _
  apply AsksNone.bind _ fun _ => AsksNone.ite (volume (.change (now .times) path _)) (.pure _)
  exact optional fun size given => volume (each path size given)

/-- A change gives no identifiers away unless a file has to grow. -/
theorem change (now : Clock Reading) (node : Nat) {c : Changes} (short : ∀ size ∈ c.size, size = 0) : AsksNone (change now node c) := by
  apply change_of_each
  intro path size given
  rw [short size given]
  exact .resize_zero (now .size) path

end AsksNone
end Serving

namespace Mounted
open Serving

namespace Displays
variable {m : Mounted} {tree : Tree} {n node : Nat} {path : String} (h : m.Displays tree n) (few : n < UInt64.size - 1)
include h few

theorem attributes {plain : Attributes} (known : m.table.path? node = some path)
    (told : (tree.step 0 (.attributes path)).map (·.1) = .ok (.attributes plain)) :
    ∃ a m', a.plain = plain ∧ m.Serves (.still 0) (.attributes node) (.ok (.attributes (.of node a))) m' := by
  have allowed : (tree.step 0 (.attributes path)).toBool = true := by
    cases stepped : tree.step 0 (.attributes path) with
    | ok _ => rfl
    | error e =>
      rw [stepped] at told
      cases told
  obtain ⟨a, t, ran, stepped, supplied, _⟩ := h.perform (f := .attributes) rfl (Asks.attributes path) few allowed
  rw [stepped] at told
  refine ⟨a, ⟨m.table, t⟩, Answer.attributes.inj (Except.ok.inj told), run_map_ok.mpr ⟨_, ?_, rfl⟩, supplied⟩
  simp only [Serving.attributes, run_bind_ok, run_pathOf_ok, run_volume_ok]
  exact ⟨path, m, ⟨known, rfl⟩, a, ⟨m.table, t⟩, ⟨ran, rfl⟩, rfl⟩

theorem change {old : NodeAttributes} {c : Changes} (laws : m.ChangeLaws node old) (allowed : c.Allowed old.kind)
    (short : ∀ size ∈ c.size, size = 0) (now : Clock Reading) :
    ∃ told m', m.Serves now (.change node c) (.ok (.attributes told)) m' := by
  have like := like_run m (Response.attributes <$> Serving.change now node c)
  have issued := Nat.le_trans (AsksNone.change now node short m) h.issued
  rw [run_map] at like
  have supplied := Disk.supplied_of_counting (like.supply.trans h.supply) (Nat.lt_of_le_of_lt issued few)
  have served : m.Serves now (.change node c) _ (m.run (Serving.change now node c)).2 := ⟨run_map .., supplied⟩
  obtain ⟨told, ok⟩ := laws.succeeds h.shows.steady allowed served
  exact ⟨told, _, ok ▸ served⟩

end Displays

/-- All that can be asked for, with a time before the epoch and the present. -/
def allAtOnce : Changes where
  mode := some 0o1777
  uid := some 7
  gid := some 8
  size := some 0
  atime := some (.given (.ofSeconds (-1)))
  mtime := some .now

/-- A clock that goes on from one reading to the next. -/
def ticking : Clock Reading where
  shows
    | .call => 0
    | .mode => 1
    | .owner => 2
    | .size => 3
    | .atime => 4
    | .mtime => 5
    | .times => 6

theorem changeLaws_oneFile : ∃ node old now₀ m₀, oneFile.Reachable ∧
    oneFile.Serves now₀ (.attributes node) (.ok (.attributes old)) m₀ ∧ oneFile.ChangeLaws node old ∧
    ∃ told m', oneFile.Serves ticking (.change node allAtOnce) (.ok (.attributes told)) m' ∧
      told.permissions = 0o1777 ∧ told.kind = old.kind ∧ told.uid = 7 ∧ told.gid = 8 ∧ told.size = 0 ∧
      told.atime = .ofSeconds (-1) ∧ told.mtime = .ofSeconds 5 ∧ told.ctime = .ofSeconds 6 := by
  have shown := displays_oneFile
  have empty : (oneFileTree.step 0 (.attributes "/a")).map (·.1) =
      .ok (.attributes ⟨.zero, .file, 0o100644, 0o644, 0, 0, 0, 0, 0, 0, 1⟩) := by decide +kernel
  obtain ⟨a, m₀, plain, before⟩ := shown.attributes (by decide) path?_oneFile empty
  have laws := changeLaws_of_served shown.mounted before
  have kind : a.kind = .file := congrArg Attributes.kind plain
  have allowed : allAtOnce.Allowed a.kind := fun size given => ⟨kind, Option.some.inj given ▸ Nat.zero_le _⟩
  obtain ⟨told, m', served⟩ := shown.change (by decide) laws allowed (fun size given => (Option.some.inj given).symm) ticking
  obtain ⟨rfl, _⟩ := laws.told served
  exact ⟨2, _, _, m₀, shown.mounted, before, laws, _, m', served, rfl, rfl, rfl, rfl, rfl, rfl, rfl, rfl⟩

end Mounted
end Mount
end RecordFs
