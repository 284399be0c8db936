import RecordFs.Proofs.Store.QuietRuns
import RecordFs.Proofs.Tree.Running
import RecordFs.Proofs.Volume.Judging
import RecordFs.Proofs.Volume.Reachable

/-! Calls that are refused. All that a call asks is judged before its first record is stored, so a
refused call leaves the store and the root in memory as they were. -/
namespace RecordFs
open Outline Volume

/-- What is not planned is refused with the same error, and nothing is stored. -/
def Declines {α β : Type} (x : Action α) (w : World) (plan : Except Failure β) : Prop :=
  ∀ e, plan = .error e → Ensures False x w fun r w' => r = .error e ∧ w'.find = w.find ∧ w'.cache = w.cache

namespace Declines
variable {α β γ : Type} {w : World} {x : Action α}

theorem planned (plan : β) : Declines x w (.ok plan) := nofun

theorem throw (e : Failure) : Declines (throw e : Action α) w (.error e : Except Failure β) := by
  rintro _ ⟨⟩
  exact ⟨rfl, rfl, rfl⟩

theorem bind {f : α → Action β} {v : Except Failure α} {plan : α → Except Failure γ} (hx : Yields False x w v)
    (hf : ∀ a, v = .ok a → Declines (f a) w (plan a)) : Declines (x >>= f) w (v >>= plan) := by
  intro e refused
  apply hx.andThen nofun
  · rintro _ rfl
    cases refused
    exact ⟨rfl, rfl, rfl⟩
  · rintro a rfl
    exact hf a rfl e refused

theorem map {plan : Except Failure (Plan α)} (g : α → β) (hx : Declines x w plan) :
    Declines (g <$> x) w (Plan.map g <$> plan) := by
  intro e refused
  cases plan with
  | ok allowed => cases refused
  | error e =>
    cases refused
    rw [ensures_map]
    apply (hx e rfl).mono
    rintro r w' ⟨rfl, same⟩
    exact ⟨rfl, same⟩

theorem query {v : Except Failure α} (hx : Yields False x w v) : Declines x w (planQuery v) := by
  intro e refused
  cases v with
  | ok a => cases refused
  | error e =>
    cases refused
    exact hx.ensures nofun ⟨rfl, rfl, rfl⟩

end Declines

namespace World.Sound
variable {w : World} (h : w.Sound) {parent : Inode} {d : Directory} (now : Int64) (path : String)
include h

theorem declines_change (f : Inode → Inode) : Declines (change path now f) w (w.outline.planChange now path f) :=
  .bind (h.yields_resolve path) fun _ _ => .planned _

/-- Identifiers may have been taken before a full table is noticed. -/
theorem declines_make (mode uid gid : UInt32) :
    Declines (make now path mode uid gid) w (w.outline.planMake now path mode uid gid) := by
  simp only [planMake, opening, bind_assoc]
  apply Declines.bind (h.yields_resolveParent path)
  rintro ⟨parent, name⟩ found
  obtain ⟨_, walked, _⟩ := resolveParent_eq_ok.mp found
  apply Declines.bind (h.yields_directory (h.outline.walk_stored walked))
  intro d _ e refused
  simp only at refused ⊢
  split at refused
  · rename_i taken
    cases refused
    rw [if_pos taken]
    exact ⟨rfl, rfl, rfl⟩
  · rename_i new
    rw [if_neg new, ensures_bind]
    apply Store.ensures_freshId
    intro self _
    simp only
    rw [ensures_bind]
    apply Store.ensures_freshId
    intro data _
    cases free : d.slots.findFinIdx? (·.isFree) with
    | some k =>
      rw [free] at refused
      cases refused
    | none =>
      rw [free] at refused
      cases refused
      have full : d.insert? name self = none := Directory.insert?_eq_none.mpr (Directory.findFinIdx?_eq_none.mp free)
      simp only [full]
      exact ⟨rfl, rfl, rfl⟩

omit h in
theorem declines_detach (w : World) (parent : Inode) (d : Directory) (name : String) :
    Declines (detach now parent d name) w (planDetach now parent d name) := by
  rw [detach, planDetach]
  cases d.remove? name with
  | none => exact .throw _
  | some found => exact .planned _

theorem declines_removeFile : Declines (removeFile now path) w (w.outline.planRemoveFile now path) := by
  apply Declines.bind (h.yields_resolveParent path)
  rintro ⟨parent, name⟩ found
  obtain ⟨_, walked, _⟩ := resolveParent_eq_ok.mp found
  apply Declines.bind (h.yields_directory (h.outline.walk_stored walked))
  intro d listed
  cases there : d.find? name with
  | none => exact .throw _
  | some id =>
    obtain ⟨i, inode⟩ := h.outline.child_of_find? (directory_eq_ok.mp listed).2 there
    have loads : Yields False (Store.load Inode id) w (load (w.outline.inode id) id) := by
      rw [inode]
      exact Store.yields_load inode
    apply Declines.bind loads
    intro j _
    split
    · exact .throw _
    · exact declines_detach now w parent d name

theorem declines_removeDirectory :
    Declines (removeDirectory now path) w (w.outline.planRemoveDirectory now path) := by
  apply Declines.bind (h.yields_resolve path)
  intro target found
  have stored := h.outline.resolve_stored found
  cases is : target.isDirectory with
  | false =>
    rw [directory, is]
    exact .throw _
  | true =>
    apply Declines.bind (h.yields_directory stored)
    intro d _
    split
    · apply Declines.bind (h.yields_resolveParent path)
      rintro ⟨parent, name⟩ found
      obtain ⟨_, walked, _⟩ := resolveParent_eq_ok.mp found
      apply Declines.bind (h.yields_directory (h.outline.walk_stored walked))
      intro d _
      exact declines_detach now w parent d name
    · exact .throw _

/-- Zeros are only written after the size was found to be possible. -/
theorem declines_write (data : ByteArray) (offset : UInt64) :
    Declines (write now path data offset) w (w.outline.planWrite now path data offset.toNat) := by
  apply Declines.bind (.ofExcept _)
  intro _ _
  apply Declines.bind (h.yields_resolveFile path)
  intro i found
  split
  · exact .planned _
  · obtain ⟨plan, planned⟩ := h.outline.planStore_of_resolveFile now path found data.size
    rw [planned]
    exact .planned plan

theorem declines_resize (size : UInt64) : Declines (resize now path size) w (w.outline.planResize now path size.toNat) := by
  rw [resize, planResize]
  split
  · exact .throw _
  · apply Declines.bind (h.yields_resolveFile path)
    intro i found
    simp only [UInt64.lt_iff_toNat_lt]
    split
    · obtain ⟨plan, planned⟩ := h.outline.planStore_of_resolveFile now path found ()
      rw [planned]
      exact .planned plan
    · exact .planned _

theorem declines_perform (call : Call) : Declines (call.perform now) w (w.outline.plan now call) := by
  cases call with
  | attributes path => exact (Declines.query (h.yields_attributes path)).map _
  | names path => exact (Declines.query (h.yields_names path)).map _
  | entries path => exact (Declines.query (h.yields_entries path)).map _
  | setMode path mode => exact (h.declines_change now path _).map _
  | setOwner path uid gid => exact (h.declines_change now path _).map _
  | setTimes path atime mtime => exact (h.declines_change now path _).map _
  | makeFile path mode uid gid => exact (h.declines_make now path _ uid gid).map _
  | makeDirectory path mode uid gid => exact (h.declines_make now path _ uid gid).map _
  | removeFile path => exact (h.declines_removeFile now path).map _
  | removeDirectory path => exact (h.declines_removeDirectory now path).map _
  | read path offset length => exact (Declines.query (h.yields_read path offset length)).map _
  | write path data offset => exact (h.declines_write now path data offset).map _
  | resize path size => exact (h.declines_resize now path size).map _
  | settle path => exact .planned _

end World.Sound

/-- Where nothing can fail, an error was planned. -/
theorem Outline.Follows.planned_of_not_faulty {α : Type} {faulty : Prop} {plan : Except Failure (Plan α)}
    {o o' : Outline} {e : Failure} (calm : ¬ faulty) (h : Follows faulty plan o (.error e) o') : plan = .error e := by
  rcases h with ⟨fails, _⟩ | followed
  · exact absurd fails calm
  · cases plan with
    | error e' =>
      cases followed.1
      rfl
    | ok allowed =>
      obtain ⟨_, _, _, carried⟩ := followed
      rcases carried.result with ok | ⟨fails, _⟩
      · cases ok
      · exact absurd fails calm

namespace Session
variable {s t : Session} {now : Int64} {call : Call} {r : Except Failure Answer} {e : Failure}

/-- A call in which nothing failed would have gone the same way on a store that cannot fail. -/
theorem Performs.calm (performed : s.Performs now call r t) (quiet : s.disk.Quiet t.disk) :
    s.calm.Performs now call r t.calm := by
  obtain ⟨run, supplied⟩ := performed
  obtain ⟨c, disk⟩ := s
  have same := Disk.run_calm ((call.perform now).run.run c) disk
  simp only [perform, Disk.perform, Prod.mk.injEq] at run
  obtain ⟨rfl, rfl⟩ := run
  refine ⟨?_, supplied.distinct, supplied.ne_zero, supplied.ne_rootPointer⟩
  exact congrArg (fun p => (p.1.1, (⟨p.1.2, p.2⟩ : Session))) (same quiet)

/-- Without a failing get or put only a call that cannot be planned is refused, and it stores nothing. -/
theorem Performs.refused (h : s.world.Sound) (performed : s.calm.Performs now call (.error e) t) :
    s.world.outline.plan now call = .error e ∧ t.world.find = s.world.find ∧ t.world.cache = s.world.cache := by
  have calm := s.disk.not_faulty_calm
  have planned := Follows.planned_of_not_faulty calm (performed.follows h).2
  have kept := perform_of_ensures (s := s.calm) (h.declines_perform now call e planned)
    (by rw [performed.run]; exact performed.supplied) calm
  rw [performed.run] at kept
  exact ⟨planned, kept.2⟩

/-- A call that is refused while the store answers leaves every record and the root in memory, and it is
never refused because of a record. -/
theorem Reachable.unchanged_of_refused (h : Reachable s) (performed : s.Performs now call (.error e) t)
    (quiet : s.disk.Quiet t.disk) : t.disk.find? = s.disk.find? ∧ t.cache = s.cache ∧ e.Refusal := by
  obtain ⟨planned, find, cache⟩ := (performed.calm quiet).refused h.sound
  exact ⟨find, cache, h.sound.outline.refuses_plan now call e planned⟩

/-- A directory that is not empty is not removed, and nothing is written that no file could hold. -/
theorem refused_nested : nested.Reachable ∧
    (∃ t, nested.Performs 3 (.removeDirectory "/d") (.error (.directoryNotEmpty "/d")) t ∧ nested.disk.Quiet t.disk ∧
      t.disk.find? = nested.disk.find? ∧ t.cache = nested.cache ∧ (Failure.directoryNotEmpty "/d").Refusal) ∧
    ∃ t, nested.Performs 3 (.write "/d/f" "old".toUTF8 4243456) (.error (.fileTooLarge 4243459 4243456)) t ∧
      nested.disk.Quiet t.disk ∧ t.disk.find? = nested.disk.find? ∧ t.cache = nested.cache ∧
      (Failure.fileTooLarge 4243459 4243456).Refusal := by
  have quiet (t : Session) : nested.disk.Quiet t.disk := Disk.quiet_of_steady displays_nested.shows.steady
  have kept := displays_nested.refused (by decide) 3 (.removeDirectory "/d") rfl
  have whole := displays_nested.refused (by decide) 3 (.write "/d/f" "old".toUTF8 4243456) rfl
  exact ⟨displays_nested.reachable,
    ⟨_, kept, quiet _, Reachable.unchanged_of_refused displays_nested.reachable kept (quiet _)⟩,
    ⟨_, whole, quiet _, Reachable.unchanged_of_refused displays_nested.reachable whole (quiet _)⟩⟩

end Session
end RecordFs
