import RecordFs.Proofs.Mount.Serving
import RecordFs.Proofs.Volume.Altering

/-! What the steps of a change do to the entry that it is about, one after another. What a step refuses
depends on the kind of the entry alone, which none of them changes. -/
namespace RecordFs
open Volume

namespace Mount

namespace Changes
variable (c : Changes)

/-- The last call that is made for the change. What it reads from the clock is the time of the change itself. -/
def last? : Option Reading :=
  if c.atime.isSome || c.mtime.isSome then some .times
  else if c.size.isSome then some .size
  else if c.uid.isSome || c.gid.isSome then some .owner
  else if c.mode.isSome then some .mode
  else none

/-- A length can be set of files only, and only so far. -/
def Allowed (kind : EntryKind) : Prop := ∀ size ∈ c.size, kind = .file ∧ size.toNat ≤ maxFileSize

/-- The inode after the change. -/
def inode (now : Clock Reading) (i : Inode) : Inode :=
  { i with
    mode := c.mode.elim i.mode fun mode => (i.mode &&& Mode.typeMask) ||| (mode &&& Mode.permissionMask)
    uid := c.uid.getD i.uid
    gid := c.gid.getD i.gid
    size := c.size.getD i.size
    atime := c.atime.elim i.atime (·.seconds (now .atime))
    mtime := c.mtime.elim (if c.size.isSome then now .size else i.mtime) (·.seconds (now .mtime))
    ctime := c.last?.elim i.ctime fun reading => now reading }

section steps
variable (now : Clock Reading) (i : Inode)

def withMode : Inode → Inode := c.mode.elim id fun mode i =>
  { i with mode := (i.mode &&& Mode.typeMask) ||| (mode &&& Mode.permissionMask), ctime := now .mode }

def withOwner : Inode → Inode := if c.uid.isSome || c.gid.isSome then fun i =>
  { i with uid := c.uid.getD i.uid, gid := c.gid.getD i.gid, ctime := now .owner } else id

def withSize : Inode → Inode := c.size.elim id fun size i => touched (now .size) i size.toNat

def withTimes : Inode → Inode := if c.atime.isSome || c.mtime.isSome then fun i =>
  { i with
    atime := (c.atime.map (·.seconds (now .atime))).getD i.atime
    mtime := (c.mtime.map (·.seconds (now .mtime))).getD i.mtime
    ctime := now .times } else id

theorem withMode_eq : c.withMode now i = { i with
    mode := c.mode.elim i.mode fun mode => (i.mode &&& Mode.typeMask) ||| (mode &&& Mode.permissionMask)
    ctime := if c.mode.isSome then now .mode else i.ctime } := by
  rw [withMode]
  cases c.mode <;> rfl

theorem withOwner_eq : c.withOwner now i = { i with
    uid := c.uid.getD i.uid
    gid := c.gid.getD i.gid
    ctime := if c.uid.isSome || c.gid.isSome then now .owner else i.ctime } := by
  rw [withOwner]
  cases c.uid <;> cases c.gid <;> rfl

theorem withSize_eq : c.withSize now i = { i with
    size := c.size.getD i.size
    mtime := if c.size.isSome then now .size else i.mtime
    ctime := if c.size.isSome then now .size else i.ctime } := by
  rw [withSize]
  cases c.size with
  | none => rfl
  | some size => exact congrArg (fun n => { i with size := n, mtime := now .size, ctime := now .size }) UInt64.ofNat_toNat

theorem withTimes_eq : c.withTimes now i = { i with
    atime := c.atime.elim i.atime (·.seconds (now .atime))
    mtime := c.mtime.elim i.mtime (·.seconds (now .mtime))
    ctime := if c.atime.isSome || c.mtime.isSome then now .times else i.ctime } := by
  rw [withTimes]
  cases c.atime <;> cases c.mtime <;> rfl

/-- Step after step, the later ones over the earlier ones. -/
theorem inode_eq : c.inode now i = (((c.withTimes now ∘ c.withSize now) ∘ c.withOwner now) ∘ c.withMode now) i := by
  simp only [Function.comp_apply, withMode_eq, withOwner_eq, withSize_eq, withTimes_eq, inode, last?]
  congr 1
  grind

end steps

/-- The bytes of a file after the change. -/
def bytes : ByteArray → ByteArray := c.size.elim id fun size content => resized content size.toNat

end Changes

namespace Serving
variable {α : Type} {allowed : EntryKind → Prop} {path : String} {x y : Serving Unit} {F G : Inode → Inode}
  {f g : ByteArray → ByteArray}

/-- Whatever entry stands at the path, the program, if it succeeds, alters it in this way, and it does succeed for
the kinds allowed if no call of the store can fail. -/
structure Alters (allowed : EntryKind → Prop) (path : String) (x : Serving Unit) (F : Inode → Inode)
    (f : ByteArray → ByteArray) : Prop where
  effect : ∀ {m m' : Mounted} {i : Inode}, m.session.Reachable → m.session.world.outline.resolve path = .ok i →
    m.run x = (.ok (), m') → m'.session.disk.Supplied →
    m.session.Altered path i (F i) f m'.session ∧ m'.table = m.table ∧ m'.session.Reachable
  succeeds : ∀ {m : Mounted} {i : Inode}, m.session.Reachable → m.session.world.outline.resolve path = .ok i →
    ¬ m.session.disk.Faulty → allowed i.kind → (m.run x).2.session.disk.Supplied → (m.run x).1 = .ok ()

theorem like_run (m : Mounted) (x : Serving α) : m.session.disk.Like (m.run x).2.session.disk := Disk.like_run _ _

namespace Alters

theorem pure : Alters allowed path (pure ()) id id where
  effect reachable found ran _ := by
    cases ran
    exact ⟨.refl found, rfl, reachable⟩
  succeeds _ _ _ _ _ := rfl

theorem bind (h : Alters allowed path x F f) (k : Alters allowed path y G g) :
    Alters allowed path (do x; y) (G ∘ F) (g ∘ f) where
  effect {m m' i} reachable found ran supplied := by
    obtain ⟨_, m₁, first, second⟩ := Mounted.run_bind_ok.mp ran
    have like := like_run m₁ y
    rw [second] at like
    obtain ⟨altered, table, reached⟩ := h.effect reachable found first (like.supplied supplied)
    obtain ⟨altered', table', reached'⟩ := k.effect reached altered.resolved second supplied
    exact ⟨altered.trans altered', table'.trans table, reached'⟩
  succeeds {m i} reachable found steady kind supplied := by
    have like := like_run m x
    have done := h.succeeds reachable found steady kind
    rw [Mounted.run_bind] at supplied ⊢
    obtain ⟨⟨r, m₁⟩, ran⟩ : ∃ out, m.run x = out := ⟨_, rfl⟩
    rw [ran] at like done supplied ⊢
    cases r with
    | error e => cases done supplied
    | ok _ =>
      obtain ⟨altered, _, reached⟩ := h.effect reachable found ran ((like_run m₁ y).supplied supplied)
      exact k.succeeds reached altered.resolved (mt like.faulty.mp steady) (altered.kind ▸ kind) supplied

theorem optional {o : Option α} {step : α → Serving Unit} {F : α → Inode → Inode} {f : α → ByteArray → ByteArray}
    (each : ∀ a ∈ o, Alters allowed path (step a) (F a) (f a)) :
    Alters allowed path (o.forM step) (o.elim id F) (o.elim id f) := by
  cases o with
  | none => exact .pure
  | some a => exact each a rfl

theorem ite {p : Prop} [Decidable p] (h : Alters allowed path x F id) :
    Alters allowed path (if p then x else Pure.pure ()) (if p then F else id) id := by
  split
  · exact h
  · exact .pure

end Alters

section volume
variable {action : Action Unit} (now : Int64) (call : Call)

/-- A call that answers nothing. -/
theorem alters_volume (is : call.perform now = (fun _ => .done) <$> action)
    (effect : ∀ {s t : Session} {i : Inode}, s.world.Sound → s.world.outline.resolve path = .ok i →
      s.Performs now call (.ok .done) t → s.Altered path i (F i) f t)
    (succeeds : ∀ {s t : Session} {i : Inode} {r : Except RecordFs.Failure Answer}, s.world.Sound →
      s.world.outline.resolve path = .ok i → ¬ s.disk.Faulty → allowed i.kind → s.Performs now call r t → r = .ok .done) :
    Alters allowed path (volume action) F f where
  effect reachable found ran supplied := by
    obtain ⟨ran, table⟩ := Mounted.run_volume_ok.mp ran
    have performed := Session.performs_of_perform now call (fun _ => Answer.done) is ran supplied
    exact ⟨effect reachable.sound found performed, table, reachable.called performed⟩
  succeeds {m i} reachable found steady kind supplied := by
    rw [Mounted.run_volume] at supplied ⊢
    have ran : m.session.perform action = ((m.session.perform action).1, (m.session.perform action).2) := rfl
    have performed := Session.performs_of_perform now call (fun _ => Answer.done) is ran supplied
    have done := succeeds reachable.sound found steady kind performed
    cases replied : (m.session.perform action).1 with
    | ok a => rfl
    | error e =>
      rw [replied] at done
      cases done

/-- A call that changes metadata. -/
theorem alters_change (is : call.perform now = (fun _ => .done) <$> action)
    (planned : ∀ o : Outline, o.plan now call = Outline.Plan.map (fun _ => .done) <$> o.planChange now path F)
    (alike : ∀ i : Inode, i.Typed → i.Alike (F i)) (no : call.place? = none) :
    Alters allowed path (volume action) (fun i => { F i with ctime := now }) id :=
  alters_volume now call is (fun sound found performed => Session.altered_of_change sound found (planned _) alike no performed)
    fun sound found steady _ performed => Session.done_of_change sound found (planned _) steady performed

end volume

/-- The steps together are the change, and they succeed if the length may be set. -/
theorem alters_steps (now : Clock Reading) (path : String) (c : Changes) :
    Alters c.Allowed path (steps now path c) (c.inode now) c.bytes := by
  have mode : Alters c.Allowed path (c.mode.forM fun mode => volume (setMode (now .mode) path mode)) (c.withMode now)
      (c.mode.elim id fun _ => id) :=
    .optional fun mode _ => alters_change (now .mode) (.setMode path mode) rfl (fun _ => rfl) (fun _ => Inode.alike_mode mode) rfl
  have owner : Alters c.Allowed path (volume (setOwner (now .owner) path c.uid c.gid)) _ _ :=
    alters_change (now .owner) (.setOwner path c.uid c.gid) rfl (fun _ => rfl) (fun _ => Inode.alike_owner _ _) rfl
  have size : Alters c.Allowed path (c.size.forM fun size => volume (resize (now .size) path size)) (c.withSize now)
      c.bytes :=
    .optional fun size given => alters_volume (now .size) (.resize path size) rfl Session.altered_of_resize
      fun sound found steady kind => Session.done_of_resize sound found steady (kind size given).1 (kind size given).2
  have times : Alters c.Allowed path
      (volume (setTimes (now .times) path (c.atime.map (·.seconds (now .atime))) (c.mtime.map (·.seconds (now .mtime))))) _ _ :=
    alters_change (now .times) (.setTimes path _ _) rfl (fun _ => rfl) (fun _ => Inode.alike_times _ _) rfl
  have owner : Alters c.Allowed path _ (c.withOwner now) _ := owner.ite (p := c.uid.isSome || c.gid.isSome)
  have times : Alters c.Allowed path _ (c.withTimes now) _ := times.ite (p := c.atime.isSome || c.mtime.isSome)
  have untouched : (c.mode.elim id fun _ => id) = (id : ByteArray → ByteArray) := by cases c.mode <;> rfl
  have inode : c.inode now = _ := funext (c.inode_eq now)
  rw [untouched] at mode
  rw [inode]
  exact mode.bind (owner.bind (size.bind times))

end Serving
end Mount
end RecordFs
