import RecordFs.Proofs.Mount.ChangeLaws
import RecordFs.Proofs.Volume.Relabelling

/-! Changes that are refused. The mode and the owner are set before a length is looked at, so a length that cannot
be set comes too late for them. -/
namespace RecordFs
open Outline Volume

/-- Why a length cannot be set. -/
def Failure.ofLength (path : String) (size : Nat) : Failure :=
  if maxFileSize < size then .fileTooLarge size maxFileSize else .isADirectory path

namespace Outline
variable {o : Outline} {path : String} {i : Inode} {size : Nat}

theorem planResize_of_not_allowed (found : o.resolve path = .ok i) (refused : ¬ (i.kind = .file ∧ size ≤ maxFileSize))
    (now : Int64) : o.planResize now path size = .error (.ofLength path size) := by
  rw [planResize, Failure.ofLength]
  split
  · rfl
  · rename_i fits
    have is : i.isDirectory = true := by
      cases is : i.isDirectory with
      | true => rfl
      | false => exact absurd ⟨Inode.kind_of_not_isDirectory is, Nat.not_lt.mp fits⟩ refused
    rw [resolveFile, found, ok_bind, is]
    rfl

end Outline

namespace Session
variable {s t u : Session} {path : String} {i j : Inode}

theorem Kept.sameTree (kept : s.Kept t) (sound : s.world.Sound) (sound' : t.world.Sound) : s.SameTree t :=
  .of_outline sound sound' (kept.outline ▸ ⟨fun _ _ => rfl, fun _ => rfl⟩)

theorem Relabelled.kept (h : s.Relabelled path i j t) (kept : t.Kept u) (sound : t.world.Sound) (sound' : u.world.Sound) :
    s.Relabelled path i j u where
  resolved := kept.outline ▸ h.resolved
  tree := h.tree.trans (kept.sameTree sound sound')
  elsewhere other apart := (kept.observe_attributes sound sound' other).trans (h.elsewhere other apart)

end Session

namespace Mount

/-- What of a change is made before a length is looked at. -/
def Changes.labels (c : Changes) : Changes := { mode := c.mode, uid := c.uid, gid := c.gid }

theorem Changes.inode_labels (c : Changes) (now : Clock Reading) : c.labels.inode now = c.withOwner now ∘ c.withMode now := by
  funext i
  rw [inode_eq]
  rfl

namespace Serving
variable {α : Type} {path : String} {x y : Serving Unit} {F G : Inode → Inode} {now : Int64} {call : Call}
  {action : Action Unit}

/-- Whatever entry stands at the path, the program relabels it so, where no call of the store can fail. -/
structure Relabels (path : String) (x : Serving Unit) (F : Inode → Inode) : Prop where
  run : ∀ {m : Mounted} {i : Inode}, m.session.Reachable → m.session.world.outline.resolve path = .ok i →
    ¬ m.session.disk.Faulty → (m.run x).2.session.disk.Supplied → ∃ m', m.run x = (.ok (), m') ∧ m'.table = m.table ∧
      m'.session.Reachable ∧ m.session.Relabelled path i (F i) m'.session

namespace Relabels

theorem pure : Relabels path (pure ()) id where
  run {m _} reachable found _ _ := ⟨m, rfl, rfl, reachable, .refl found⟩

theorem bind (h : Relabels path x F) (k : Relabels path y G) : Relabels path (do x; y) (G ∘ F) where
  run {m i} reachable found steady supplied := by
    have like := like_run m x
    have first := h.run reachable found steady
    rw [Mounted.run_bind] at supplied ⊢
    generalize m.run x = out at like first supplied
    obtain ⟨r, m₁⟩ := out
    cases r with
    | error e =>
      obtain ⟨_, ran, _⟩ := first supplied
      cases ran
    | ok _ =>
      obtain ⟨_, ran, table, reached, relabelled⟩ := first ((like_run m₁ y).supplied supplied)
      cases ran
      obtain ⟨m₂, ran, table', reached', relabelled'⟩ :=
        k.run reached relabelled.resolved (mt like.faulty.mp steady) supplied
      exact ⟨m₂, ran, table'.trans table, reached', relabelled.trans relabelled'⟩

theorem optional {o : Option α} {step : α → Serving Unit} {F : α → Inode → Inode}
    (each : ∀ a ∈ o, Relabels path (step a) (F a)) : Relabels path (o.forM step) (o.elim id F) := by
  cases o with
  | none => exact .pure
  | some a => exact each a rfl

theorem ite {p : Prop} [Decidable p] (h : Relabels path x F) :
    Relabels path (if p then x else Pure.pure ()) (if p then F else id) := by
  split
  · exact h
  · exact .pure

theorem change (call : Call) (is : call.perform now = (fun _ => .done) <$> action)
    (planned : ∀ o : Outline, o.plan now call = Outline.Plan.map (fun _ => .done) <$> o.planChange now path F)
    (alike : ∀ i : Inode, i.Typed → i.Alike (F i)) :
    Relabels path (volume action) fun i => { F i with ctime := now } where
  run {m i} reachable found steady supplied := by
    rw [Mounted.run_volume] at supplied ⊢
    have ran : m.session.perform action = ((m.session.perform action).1, (m.session.perform action).2) := rfl
    have performed := Session.performs_of_perform now call (fun _ => Answer.done) is ran supplied
    obtain ⟨done, relabelled⟩ := Session.relabelled_of_change reachable.sound found planned (alike i) steady performed
    refine ⟨⟨m.table, (m.session.perform action).2⟩, ?_, rfl, reachable.called performed, relabelled⟩
    cases replied : (m.session.perform action).1 with
    | ok a => rfl
    | error e =>
      rw [replied] at done
      cases done

end Relabels

/-- The steps before the length. -/
def labelling (now : Clock Reading) (path : String) (c : Changes) : Serving Unit := do
  c.mode.forM fun mode => volume (Volume.setMode (now .mode) path mode)
  (if c.uid.isSome || c.gid.isSome then volume (Volume.setOwner (now .owner) path c.uid c.gid) else pure ())

/-- The step after the length. -/
def timing (now : Clock Reading) (path : String) (c : Changes) : Serving Unit :=
  if c.atime.isSome || c.mtime.isSome then
    volume (Volume.setTimes (now .times) path (c.atime.map (·.seconds (now .atime))) (c.mtime.map (·.seconds (now .mtime))))
  else pure ()

theorem steps_of_size {c : Changes} {size : UInt64} (given : c.size = some size) (now : Clock Reading) (path : String) :
    steps now path c = (do labelling now path c; volume (Volume.resize (now .size) path size); timing now path c) := by
  rw [steps, labelling, bind_assoc, given]
  rfl

theorem labelling_of_nothing {c : Changes} (nothing : c.labels = {}) (now : Clock Reading) (path : String) :
    labelling now path c = pure () := by
  have mode : c.mode = none := congrArg Changes.mode nothing
  have uid : c.uid = none := congrArg Changes.uid nothing
  have gid : c.gid = none := congrArg Changes.gid nothing
  rw [labelling, mode, uid, gid]
  rfl

theorem relabels_labelling (now : Clock Reading) (path : String) (c : Changes) :
    Relabels path (labelling now path c) (c.labels.inode now) := by
  rw [c.inode_labels now]
  apply Relabels.bind
  · exact .optional fun mode _ => .change (.setMode path mode) rfl (fun _ => rfl) fun _ => Inode.alike_mode mode
  · have owner : Relabels path (volume (setOwner (now .owner) path c.uid c.gid)) _ :=
      .change (.setOwner path c.uid c.gid) rfl (fun _ => rfl) fun _ => Inode.alike_owner _ _
    exact owner.ite (p := c.uid.isSome || c.gid.isSome)

/-- A call that cannot be planned is refused, and stores nothing. -/
theorem run_volume_refused {m : Mounted} {action : Action α} {g : α → Answer} {e : RecordFs.Failure} (call : Call)
    (is : call.perform now = g <$> action) (reachable : m.session.Reachable) (steady : ¬ m.session.disk.Faulty)
    (planned : m.session.world.outline.plan now call = .error e)
    (supplied : (m.run (volume action)).2.session.disk.Supplied) : ∃ m', m.run (volume action) = (.error (.volume e), m') ∧
      m.session.Kept m'.session ∧ m'.table = m.table ∧ m'.session.Reachable := by
  rw [Mounted.run_volume] at supplied ⊢
  have ran : m.session.perform action = ((m.session.perform action).1, (m.session.perform action).2) := rfl
  have performed := Session.performs_of_perform now call g is ran supplied
  obtain ⟨refused, kept⟩ := performed.kept_of_plan reachable.sound steady planned
  refine ⟨⟨m.table, (m.session.perform action).2⟩, ?_, kept, rfl, reachable.called performed⟩
  cases replied : (m.session.perform action).1 with
  | ok a =>
    rw [replied] at refused
    cases refused
  | error e' =>
    rw [replied] at refused
    cases refused
    rfl

/-- What runs first has left no more behind than the whole. -/
theorem like_bind {β : Type} (m : Mounted) (x : Serving α) (f : α → Serving β) :
    (m.run x).2.session.disk.Like (m.run (x >>= f)).2.session.disk := by
  rw [Mounted.run_bind]
  generalize m.run x = out
  obtain ⟨r, m₁⟩ := out
  cases r with
  | ok a => exact like_run m₁ (f a)
  | error e => exact .rfl

/-- Where there is no entry the program stores nothing, if no call of the store can fail. -/
structure Idles (path : String) (x : Serving α) : Prop where
  run : ∀ {m : Mounted}, m.session.Reachable → (∀ i, m.session.world.outline.resolve path ≠ .ok i) →
    ¬ m.session.disk.Faulty → (m.run x).2.session.disk.Supplied →
      m.session.Kept (m.run x).2.session ∧ (m.run x).2.table = m.table ∧ (m.run x).2.session.Reachable

namespace Idles
variable {β : Type} {x : Serving α} {f : α → Serving β}

theorem pure (a : α) : Idles path (pure a : Serving α) where
  run {m} reachable _ _ _ := ⟨.refl m.session, rfl, reachable⟩

theorem bind (h : Idles path x) (next : ∀ a, Idles path (f a)) : Idles path (x >>= f) where
  run {m} reachable missing steady supplied := by
    have like := like_run m x
    have first := h.run reachable missing steady
    rw [Mounted.run_bind] at supplied ⊢
    generalize m.run x = out at like first supplied
    obtain ⟨r, m₁⟩ := out
    cases r with
    | error e => exact first supplied
    | ok a =>
      obtain ⟨kept, table, reached⟩ := first ((like_run m₁ (f a)).supplied supplied)
      obtain ⟨kept', table', reached'⟩ := (next a).run reached (fun i => kept.outline ▸ missing i)
        (mt like.faulty.mp steady) supplied
      exact ⟨kept.trans kept', table'.trans table, reached'⟩

theorem optional {o : Option α} {step : α → Serving PUnit} (each : ∀ a ∈ o, Idles path (step a)) :
    Idles path (o.forM step) := by
  cases o with
  | none => exact .pure _
  | some a => exact each a rfl

theorem ite {p : Prop} [Decidable p] {y : Serving α} (h : Idles path x) (k : Idles path y) :
    Idles path (if p then x else y) := by
  split
  · exact h
  · exact k

theorem volume {action : Action α} {g : α → Answer} (now : Int64) (call : Call) (is : call.perform now = g <$> action)
    (planned : ∀ o : Outline, (∀ i, o.resolve path ≠ .ok i) → ∃ e, o.plan now call = .error e) :
    Idles path (volume action) where
  run {m} reachable missing steady supplied := by
    obtain ⟨e, planned⟩ := planned _ missing
    obtain ⟨m', ran, kept⟩ := run_volume_refused call is reachable steady planned supplied
    rw [ran]
    exact kept

theorem change {action : Action Unit} {F : Inode → Inode} (call : Call) (is : call.perform now = (fun _ => .done) <$> action)
    (planned : ∀ o : Outline, o.plan now call = Outline.Plan.map (fun _ => .done) <$> o.planChange now path F) :
    Idles path (Serving.volume action) := by
  apply volume now call is
  intro o missing
  rw [planned, planChange]
  cases found : o.resolve path with
  | ok i => exact absurd found (missing i)
  | error e => exact ⟨e, rfl⟩

end Idles

theorem idles_steps (now : Clock Reading) (path : String) (c : Changes) : Idles path (steps now path c) := by
  have resize (size : UInt64) : Idles path (volume (Volume.resize (now .size) path size)) := by
    apply Idles.volume (now .size) (.resize path size) rfl
    intro o missing
    rw [plan, planResize, Outline.resolveFile]
    split
    · exact ⟨_, rfl⟩
    · cases found : o.resolve path with
      | ok i => exact absurd found (missing i)
      | error e => exact ⟨e, rfl⟩
  apply Idles.bind (.optional fun mode _ => .change (.setMode path mode) rfl fun _ => rfl)
  intro _
  apply Idles.bind (.ite (.change (.setOwner path c.uid c.gid) rfl fun _ => rfl) (.pure _))
  intro _
  apply Idles.bind (.optional fun size _ => resize size)
  intro _
  exact .ite (.change (.setTimes path _ _) rfl fun _ => rfl) (.pure _)

end Serving

namespace Mounted
open Serving
variable {m m' : Mounted} {now : Clock Reading} {node : Nat} {path : String} {c : Changes} {e : Failure} {i : Inode}

/-- The same state with a store that does not fail. -/
def calm (m : Mounted) : Mounted := ⟨m.table, m.session.calm⟩

theorem run_calm {α : Type} {x : Serving α} {r : Except Failure α} (ran : m.run x = (r, m'))
    (quiet : m.session.disk.Quiet m'.session.disk) : m.calm.run x = (r, m'.calm) := by
  obtain ⟨table, c, disk⟩ := m
  have same := Disk.run_calm ((x.run.run table).run c) disk
  simp only [run, Prod.mk.injEq] at ran
  obtain ⟨rfl, rfl⟩ := ran
  exact congrArg (fun p => (p.1.1.1, (⟨p.1.1.2, p.1.2, p.2⟩ : Mounted))) (same quiet)

/-- What is left of a change that was refused. -/
structure RefusedChange (m : Mounted) (now : Clock Reading) (node : Nat) (c : Changes) (e : Failure) (m' : Mounted) : Prop where
  /-- An unknown number is refused as such. -/
  unknown : m.table.path? node = none → e = .unknownNode node
  /-- A change of an entry is refused for its length alone: there is none to be set, or it is too great. -/
  length : ∀ {path a}, m.table.path? node = some path → m.session.observe (attributes path) = .ok a →
    ∃ size ∈ c.size, ¬ (a.kind = .file ∧ size.toNat ≤ maxFileSize) ∧ e = .volume (.ofLength path size.toNat)
  table : m'.table = m.table
  /-- Nothing is stored if there is no entry, or if neither the mode nor the owner was to change. -/
  kept : (∀ path a, m.table.path? node = some path → m.session.observe (attributes path) ≠ .ok a) ∨ c.labels = {} →
    m.session.Kept m'.session
  /-- The mode and the owner of the entry are those asked for all the same. -/
  entry : ∀ {path}, m.table.path? node = some path → (m'.session.observe (attributes path)).map (NodeAttributes.of node) =
    (m.session.observe (attributes path)).map fun a => c.labels.told now (.of node a)
  /-- No other entry shows anything else. -/
  elsewhere : ∀ {other}, (∀ path, m.table.path? node = some path → Path.segments other ≠ Path.segments path) →
    m'.session.observe (attributes other) = m.session.observe (attributes other)
  /-- There are the same entries, with the same content. -/
  tree : m.session.SameTree m'.session

section refused
variable (h : m.Reachable) (steady : ¬ m.session.disk.Faulty)
include h steady

/-- A change of an entry with a length that cannot be set stops there. -/
theorem run_steps_refused (now : Clock Reading) (found : m.session.world.outline.resolve path = .ok i) (not : ¬ c.Allowed i.kind)
    {x : Serving NodeAttributes} (supplied : (m.run (do steps now path c; x)).2.session.disk.Supplied) :
    ∃ size ∈ c.size, ¬ (i.kind = .file ∧ size.toNat ≤ maxFileSize) ∧ ∃ m',
      m.run (do steps now path c; x) = (.error (.volume (.ofLength path size.toNat)), m') ∧ m'.table = m.table ∧
        m.session.Relabelled path i (c.labels.inode now i) m'.session ∧ (c.labels = {} → m.session.Kept m'.session) := by
  obtain ⟨size, given, no⟩ : ∃ size ∈ c.size, ¬ (i.kind = .file ∧ size.toNat ≤ maxFileSize) := by
    simpa only [Changes.Allowed, not_forall, exists_prop] using not
  simp only [steps_of_size (Option.mem_def.mp given), bind_assoc] at supplied ⊢
  have labels := (relabels_labelling now path c).run h.session found steady
  obtain ⟨m₁, labelled, table, reached, relabelled⟩ := labels ((like_bind ..).supplied supplied)
  have steady₁ : ¬ m₁.session.disk.Faulty := by
    have like := like_run m (labelling now path c)
    rw [labelled] at like
    exact mt like.faulty.mp steady
  rw [run_bind, labelled] at supplied ⊢
  dsimp only at supplied ⊢
  have typed := (h.session.sound.inode _ _ (h.session.sound.outline.resolve_stored found)).mode
  -- The length is looked at on the relabelled entry, which is of the same kind.
  have kind := c.labels.kind_inode now typed
  have planned : m₁.session.world.outline.plan (now .size) (.resize path size) = .error (.ofLength path size.toNat) := by
    rw [plan, planResize_of_not_allowed relabelled.resolved (by rwa [kind])]
    rfl
  obtain ⟨m', sized, kept, table', reached'⟩ :=
    run_volume_refused (.resize path size) (g := fun _ => .done) rfl reached steady₁ planned ((like_bind ..).supplied supplied)
  refine ⟨size, given, no, m', ?_, table'.trans table, relabelled.kept kept reached.sound reached'.sound, ?_⟩
  · rw [run_bind, sized]
  · intro nothing
    rw [labelling_of_nothing nothing] at labelled
    cases labelled
    exact kept

/-- Nothing is stored where there is no entry. -/
theorem kept_of_missing (known : m.table.path? node = some path)
    (missing : ∀ i, m.session.world.outline.resolve path ≠ .ok i)
    {r : Except Failure NodeAttributes} (ran : m.run (do steps now path c; Serving.attributes node) = (r, m'))
    (supplied : m'.session.disk.Supplied) : m.session.Kept m'.session ∧ m'.table = m.table := by
  have idle := (idles_steps now path c).run h.session missing steady
  have like := like_bind m (steps now path c) fun _ => Serving.attributes node
  rw [ran] at like
  rw [run_bind] at ran
  generalize m.run (steps now path c) = out at idle like ran
  obtain ⟨r₁, m₁⟩ := out
  obtain ⟨kept, table, reached⟩ := idle (like.supplied supplied)
  cases r₁ with
  | error e =>
    cases ran
    exact ⟨kept, table⟩
  | ok _ =>
    obtain ⟨consulted, cache, table', _⟩ := run_attributes reached.sound (table ▸ known) ran
    exact ⟨kept.trans ⟨Session.find?_of_consulted consulted, cache⟩, table'.trans table⟩

omit h in
/-- What stands at the path of a number is told when asked. -/
theorem serves_attributes (now : Clock Reading) (sound : m.session.world.Sound) (known : m.table.path? node = some path)
    (found : m.session.world.outline.resolve path = .ok i) (supplied : m.session.disk.Supplied) :
    ∃ m₀, m.Serves now (.attributes node) (.ok (.attributes (.of node (.ofInode i)))) m₀ := by
  obtain ⟨⟨r, m₀⟩, ran⟩ : ∃ out, m.run (Serving.attributes node) = out := ⟨_, rfl⟩
  obtain ⟨consulted, _, _, reply⟩ := run_attributes sound known ran
  rw [Outline.attributes_eq_ok.mpr ⟨i, found, rfl⟩] at reply
  obtain rfl := reply.resolve_right fun failed => steady failed.1
  exact ⟨m₀, run_map_ok.mpr ⟨_, ran, rfl⟩, consulted.supplied supplied⟩

omit h steady in
/-- An unknown number stops a change before anything is asked of the store. -/
theorem refusedChange_of_unknown (unknown : m.table.path? node = none)
    (ran : m.run (Serving.change now node c) = (.error e, m')) : m.RefusedChange now node c e m' := by
  have never {path : String} (known : m.table.path? node = some path) : False := by
    cases unknown.symm.trans known
  rw [change_eq, run_bind, run_pathOf, unknown] at ran
  cases ran
  exact {
    unknown := fun _ => rfl
    length := fun known _ => (never known).elim
    table := rfl
    kept := fun _ => .refl _
    entry := fun known => (never known).elim
    elsewhere := fun _ => rfl
    tree := .refl _ }

/-- Where there is no entry, a change leaves nothing behind. -/
theorem refusedChange_of_missing {f : RecordFs.Failure} (known : m.table.path? node = some path)
    (lost : m.session.world.outline.resolve path = .error f)
    (ran : m.run (do steps now path c; Serving.attributes node) = (.error e, m')) (supplied : m'.session.disk.Supplied)
    (sound' : m'.session.world.Sound) : m.RefusedChange now node c e m' := by
  have sound := h.session.sound
  have missing (i : Inode) : m.session.world.outline.resolve path ≠ .ok i := by
    rw [lost]
    exact nofun
  have untold : m.session.observe (attributes path) = .error f := by
    rw [Session.observe_attributes sound, Outline.attributes, lost]
    rfl
  obtain ⟨kept, table⟩ := kept_of_missing h steady known missing ran supplied
  refine {
    unknown := fun unknown => ?_
    length := fun known' shown => ?_
    table
    kept := fun _ => kept
    entry := fun known' => ?_
    elsewhere := fun _ => kept.observe_attributes sound sound' _
    tree := kept.sameTree sound sound' }
  · cases unknown.symm.trans known
  · cases known.symm.trans known'
    cases shown.symm.trans untold
  · cases known.symm.trans known'
    rw [kept.observe_attributes sound sound', untold]
    rfl

/-- A change of an entry is refused for its length, when the mode and the owner are set already. -/
theorem refusedChange_of_found (known : m.table.path? node = some path)
    (found : m.session.world.outline.resolve path = .ok i)
    (ran : m.run (do steps now path c; Serving.attributes node) = (.error e, m'))
    (served : m.Serves now (.change node c) (.error e) m') : m.RefusedChange now node c e m' := by
  have sound := h.session.sound
  have sound' := (h.runs (.served (.refl m) served)).session.sound
  have typed := (sound.inode _ _ (sound.outline.resolve_stored found)).mode
  have told : m.session.observe (attributes path) = .ok (.ofInode i) := by
    rw [Session.observe_attributes sound, Outline.attributes, found]
    rfl
  -- A length that can be set would have been set, and the reply would not be a failure.
  have not : ¬ c.Allowed i.kind := by
    intro allowed
    have like := like_run m (do steps now path c; Serving.attributes node)
    rw [ran] at like
    obtain ⟨_, before⟩ := serves_attributes steady now sound known found (like.supplied served.supplied)
    obtain ⟨_, ok⟩ := changed_of_allowed h before steady allowed served
    cases ok
  have stopped := run_steps_refused h steady now found not (x := Serving.attributes node)
  rw [ran] at stopped
  obtain ⟨size, given, no, _, same, table, relabelled, kept⟩ := stopped served.supplied
  cases same
  refine {
    unknown := fun unknown => ?_
    length := fun known' shown => ?_
    table
    kept := fun idle => kept (idle.resolve_left fun untold => untold path _ known told)
    entry := fun known' => ?_
    elsewhere := fun apart => relabelled.elsewhere _ (apart _ known)
    tree := relabelled.tree }
  · cases unknown.symm.trans known
  · cases known.symm.trans known'
    cases told.symm.trans shown
    exact ⟨size, given, no, rfl⟩
  · cases known.symm.trans known'
    rw [Session.observe_attributes sound', told, Outline.attributes, relabelled.resolved]
    exact congrArg Except.ok (c.labels.told_of now node typed)

theorem refusedChange_of_steady (served : m.Serves now (.change node c) (.error e) m') : m.RefusedChange now node c e m' := by
  obtain ⟨told, ran, failed⟩ := answered_of_map served.run
  obtain rfl : told = .error e := by
    cases told with
    | ok a => cases failed
    | error e' => exact congrArg _ (Except.error.inj failed.symm)
  cases known : m.table.path? node with
  | none => exact refusedChange_of_unknown known ran
  | some path =>
    rw [run_change known] at ran
    cases found : m.session.world.outline.resolve path with
    | error f =>
      have sound' := (h.runs (.served (.refl m) served)).session.sound
      exact refusedChange_of_missing h steady known found ran served.supplied sound'
    | ok i => exact refusedChange_of_found h steady known found ran served

end refused

/-- A change that is refused while the store answers. -/
theorem Reachable.refusedChange (h : m.Reachable) (served : m.Serves now (.change node c) (.error e) m')
    (quiet : m.session.disk.Quiet m'.session.disk) : m.RefusedChange now node c e m' := by
  have reached : m.calm.Reachable := h.runs (.failing (.refl m) (fun _ => false) (fun _ => false) m.session.disk.fault)
  have supplied : m'.calm.session.disk.Supplied :=
    ⟨served.supplied.distinct, served.supplied.ne_zero, served.supplied.ne_rootPointer⟩
  have refused := refusedChange_of_steady reached m.session.not_faulty_calm ⟨run_calm served.run quiet, supplied⟩
  exact ⟨refused.unknown, refused.length, refused.table, fun idle => ⟨(refused.kept idle).find, (refused.kept idle).cache⟩,
    refused.entry, refused.elsewhere, ⟨refused.tree.kind, refused.tree.names, refused.tree.content⟩⟩

/-- A length that is too great is refused. -/
theorem Displays.refuses {tree : Tree} {n : Nat} {size : UInt64} (h : m.Displays tree n) (few : n < UInt64.size - 1)
    (known : m.table.path? node = some path) (found : m.session.world.outline.resolve path = .ok i)
    (given : c.size = some size) (beyond : maxFileSize < size.toNat) (now : Clock Reading) :
    ∃ m', m.Serves now (.change node c) (.error (.volume (.fileTooLarge size.toNat maxFileSize))) m' := by
  have asks : AsksNone (Serving.change now node c) := by
    apply AsksNone.change_of_each
    intro path size' given'
    cases given.symm.trans (Option.mem_def.mp given')
    rw [Volume.resize, if_pos beyond]
    exact .throw _
  have not : ¬ c.Allowed i.kind := fun allowed => Nat.not_le.mpr beyond (allowed size given).2
  have supply := (like_run m (Serving.change now node c)).supply.trans h.supply
  have supplied := Disk.supplied_of_counting supply (Nat.lt_of_le_of_lt (Nat.le_trans (asks m) h.issued) few)
  have ran := run_change known now c
  rw [ran] at supplied
  obtain ⟨size', given', _, m', stopped, _⟩ := run_steps_refused h.mounted h.shows.steady now found not supplied
  cases given.symm.trans (Option.mem_def.mp given')
  rw [stopped] at ran supplied
  rw [Failure.ofLength, if_pos beyond] at ran
  refine ⟨m', ?_, supplied⟩
  change m.run (Response.attributes <$> Serving.change now node c) = _
  rw [run_map, ran]
  rfl

/-- Permissions, and a length that is too great by one. -/
def lateLength : Changes where
  mode := some 0o600
  size := some (UInt64.ofNat (maxFileSize + 1))

theorem refusedChange_oneFile : ∃ e m', oneFile.Reachable ∧ oneFile.Serves ticking (.change 2 lateLength) (.error e) m' ∧
    oneFile.session.disk.Quiet m'.session.disk ∧ oneFile.RefusedChange ticking 2 lateLength e m' ∧
    ∃ a, m'.session.observe (attributes "/a") = .ok a ∧ (NodeAttributes.of 2 a).permissions = 0o600 := by
  have shown := displays_oneFile
  have empty : (oneFileTree.step 0 (.attributes "/a")).map (·.1) =
      .ok (.attributes ⟨.zero, .file, 0o100644, 0o644, 0, 0, 0, 0, 0, 0, 1⟩) := by decide +kernel
  obtain ⟨_, _, _, before⟩ := shown.attributes (by decide) path?_oneFile empty
  obtain ⟨path, i, known', found, _, _⟩ := resolved_of_attributes shown.mounted before
  cases path?_oneFile.symm.trans known'
  have given : lateLength.size = some (UInt64.ofNat (maxFileSize + 1)) := rfl
  have beyond : maxFileSize < (UInt64.ofNat (maxFileSize + 1)).toNat := by decide +kernel
  obtain ⟨m', served⟩ := shown.refuses (by decide) path?_oneFile found given beyond ticking
  have quiet : oneFile.session.disk.Quiet m'.session.disk := Disk.quiet_of_steady shown.shows.steady
  have refused := Reachable.refusedChange shown.mounted served quiet
  refine ⟨_, m', shown.mounted, served, quiet, refused, ?_⟩
  have entry := refused.entry path?_oneFile
  have whole := (Session.observe_attributes shown.mounted.session.sound "/a").trans
    (Outline.attributes_eq_ok.mpr ⟨i, found, rfl⟩)
  rw [whole] at entry
  cases last : m'.session.observe (attributes "/a") with
  | error e =>
    rw [last] at entry
    cases entry
  | ok a =>
    rw [last] at entry
    exact ⟨a, rfl, congrArg NodeAttributes.permissions (Except.ok.inj entry)⟩

end Mounted
end Mount
end RecordFs
