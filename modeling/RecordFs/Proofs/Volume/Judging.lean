import RecordFs.Proofs.Volume.Effects

/-! Why calls are refused. On a sound store every record that a call asks for is there and can be
read, so a call is only refused for what it asks. -/
namespace RecordFs
open Outline Volume

/-- A failure that is about what was asked, not about the store or what it holds. -/
structure Failure.Refusal (e : Failure) : Prop where
  not_malformed : ∀ record, e ≠ .malformed record
  not_store : ∀ failure, e ≠ .store failure

instance : DecidablePred Failure.Refusal
  | .malformed record => isFalse fun refusal => refusal.not_malformed record rfl
  | .store failure => isFalse fun refusal => refusal.not_store failure rfl
  | .notFound _ | .nameTooLong .. | .fileTooLarge .. | .directoryNotEmpty _ | .directoryFull _ | .alreadyExists _
  | .notADirectory _ | .isADirectory _ | .invalidPath _ => isTrue ⟨by simp, by simp⟩

namespace Outline

/-- Any error is a refusal. -/
def Refuses {α : Type} (v : Except Failure α) : Prop := ∀ e, v = .error e → e.Refusal

namespace Refuses
variable {α β : Type} {v : Except Failure α}

theorem ok (a : α) : Refuses (.ok a) := nofun

theorem error {e : Failure} (refusal : e.Refusal) : Refuses (.error e : Except Failure α) := by
  rintro _ ⟨⟩
  exact refusal

theorem bind {f : α → Except Failure β} (hv : Refuses v) (hf : ∀ a, v = .ok a → Refuses (f a)) : Refuses (v >>= f) := by
  cases v with
  | ok a => exact hf a rfl
  | error e => exact .error (hv e rfl)

theorem map (f : α → β) (hv : Refuses v) : Refuses (f <$> v) := by
  cases v with
  | ok a => exact .ok _
  | error e => exact .error (hv e rfl)

theorem mapM {f : α → Except Failure β} (l : List α) (h : ∀ a ∈ l, Refuses (f a)) : Refuses (l.mapM f) := by
  induction l with
  | nil => exact .ok _
  | cons a l ih =>
    rw [List.mapM_cons]
    apply bind (h a List.mem_cons_self)
    intro b _
    apply bind (ih fun c member => h c (List.mem_cons_of_mem _ member))
    intro bs _
    exact .ok _

theorem load {ρ : Type} {found : Option ρ} {r : ρ} (stored : found = some r) (id : Id) : Refuses (load found id) := by
  rw [load_eq_ok.mpr stored]
  exact .ok r

end Refuses

theorem refuses_check (path : String) : Refuses (Path.check path) := by
  rw [Path.check]
  split
  · exact .error (of_decide_eq_true rfl)
  · exact .ok ()

theorem refuses_checkName (name : String) : Refuses (Path.checkName name) := by
  rw [Path.checkName]
  split
  · exact .error (of_decide_eq_true rfl)
  · exact .ok ()

theorem refuses_checkExtent (offset length : Nat) : Refuses (Content.checkExtent offset length) := by
  rw [Content.checkExtent]
  split
  · exact .ok _
  · exact .error (of_decide_eq_true rfl)

theorem refuses_lastName (path : String) : Refuses (lastName path) := by
  apply (refuses_check path).bind
  intro _ _
  split
  · exact .error (of_decide_eq_true rfl)
  · apply (refuses_checkName _).bind
    intro _ _
    split
    · exact .error (of_decide_eq_true rfl)
    · exact .ok _

namespace Sound
variable {o : Outline} (h : o.Sound) {i dir parent : Inode} {d : Directory} (now : Int64) (path : String)
include h

theorem refuses_directory (stored : o.inode dir.self = some dir) : Refuses (o.directory dir path) := by
  rw [Outline.directory]
  split
  · rename_i is
    obtain ⟨d, table⟩ := h.directory _ _ stored is
    exact .load table _
  · exact .error (of_decide_eq_true rfl)

theorem refuses_child (stored : o.inode dir.self = some dir) (name : String) : Refuses (o.child path dir name) := by
  apply (h.refuses_directory path stored).bind
  intro d listed
  split
  · rename_i id found
    obtain ⟨i, inode⟩ := h.child_of_find? (directory_eq_ok.mp listed).2 found
    exact .load inode _
  · exact .error (of_decide_eq_true rfl)

theorem refuses_foldlM (stored : o.inode dir.self = some dir) (segments : List String) :
    Refuses (segments.foldlM (o.child path) dir) := by
  induction segments generalizing dir with
  | nil => exact .ok dir
  | cons name rest ih =>
    rw [List.foldlM_cons]
    apply (h.refuses_child path stored name).bind
    intro i found
    exact ih (h.child_stored found)

theorem refuses_walk (segments : List String) : Refuses (o.walk path segments) := by
  have start : Refuses (o.start path) := by
    rw [start]
    split
    · exact .ok _
    · exact .error (of_decide_eq_true rfl)
  apply start.bind
  intro root found
  exact h.refuses_foldlM path (h.root root (start_eq_ok.mp found)).1 segments

theorem refuses_resolve : Refuses (o.resolve path) :=
  (refuses_check path).bind fun _ _ => h.refuses_walk path _

theorem refuses_resolveParent : Refuses (o.resolveParent path) := by
  apply (refuses_lastName path).bind
  intro name _
  apply (h.refuses_walk path _).bind
  intro parent _
  split
  · exact .ok _
  · exact .error (of_decide_eq_true rfl)

theorem refuses_listing : Refuses (o.listing path) :=
  (h.refuses_resolve path).bind fun _ found => h.refuses_directory path (h.resolve_stored found)

theorem refuses_attributes : Refuses (o.attributes path) := (h.refuses_resolve path).bind fun _ _ => .ok _

theorem refuses_names : Refuses (o.names path) := (h.refuses_listing path).bind fun _ _ => .ok _

theorem refuses_entries : Refuses (o.entries path) := by
  apply (h.refuses_listing path).bind
  intro d listed
  obtain ⟨_, _, _, table⟩ := listing_eq_ok.mp listed
  apply Refuses.mapM
  intro slot member
  obtain ⟨i, inode⟩ := occupied_stored h table member
  exact (Refuses.load inode _).bind fun _ _ => .ok _

theorem refuses_resolveFile : Refuses (o.resolveFile path) := by
  apply (h.refuses_resolve path).bind
  intro i _
  split
  · exact .error (of_decide_eq_true rfl)
  · exact .ok i

/-- The bytes of a file that was found are there. -/
theorem content_of_resolveFile (found : o.resolveFile path = .ok i) : ∃ view, o.content i.data = some view := by
  obtain ⟨resolved, file⟩ := resolveFile_eq_ok.mp found
  exact h.file _ _ (h.resolve_stored resolved) file

theorem refuses_read (offset length : Nat) : Refuses (o.read path offset length) := by
  apply (h.refuses_resolveFile path).bind
  intro i found
  obtain ⟨view, content⟩ := h.content_of_resolveFile path found
  exact (Refuses.load content _).bind fun _ _ => .ok _

theorem refuses_opening : Refuses (o.opening path) := by
  apply (h.refuses_resolveParent path).bind
  rintro ⟨parent, name⟩ found
  obtain ⟨_, walked, _⟩ := resolveParent_eq_ok.mp found
  apply (h.refuses_directory path (h.walk_stored walked)).bind
  intro d _
  split
  · exact .error (of_decide_eq_true rfl)
  · split
    · exact .error (of_decide_eq_true rfl)
    · exact .ok _

omit h in
theorem refuses_planDetach (name : String) : Refuses (planDetach now parent d name) := by
  rw [planDetach]
  split
  · exact .error (of_decide_eq_true rfl)
  · exact .ok _

theorem refuses_planRemoveFile : Refuses (o.planRemoveFile now path) := by
  apply (h.refuses_resolveParent path).bind
  rintro ⟨parent, name⟩ found
  obtain ⟨_, walked, _⟩ := resolveParent_eq_ok.mp found
  apply (h.refuses_directory path (h.walk_stored walked)).bind
  intro d listed
  split
  · exact .error (of_decide_eq_true rfl)
  · rename_i id there
    obtain ⟨i, inode⟩ := h.child_of_find? (directory_eq_ok.mp listed).2 there
    apply (Refuses.load inode id).bind
    intro j _
    split
    · exact .error (of_decide_eq_true rfl)
    · exact refuses_planDetach now name

theorem refuses_planRemoveDirectory : Refuses (o.planRemoveDirectory now path) := by
  apply (h.refuses_resolve path).bind
  intro target found
  apply (h.refuses_directory path (h.resolve_stored found)).bind
  intro d _
  split
  · apply (h.refuses_resolveParent path).bind
    rintro ⟨parent, name⟩ found
    obtain ⟨_, walked, _⟩ := resolveParent_eq_ok.mp found
    apply (h.refuses_directory path (h.walk_stored walked)).bind
    intro d _
    exact refuses_planDetach now name
  · exact .error (of_decide_eq_true rfl)

variable {α : Type} {data : ByteArray} {offset size : Nat}

theorem planStore_of_resolveFile (found : o.resolveFile path = .ok i) (answer : α) :
    ∃ plan, o.planStore now i data offset size answer = .ok plan := by
  obtain ⟨view, content⟩ := h.content_of_resolveFile path found
  exact ⟨_, planStore_of_content content answer⟩

theorem refuses_planWrite (data : ByteArray) (offset : Nat) : Refuses (o.planWrite now path data offset) := by
  apply (refuses_checkExtent offset data.size).bind
  intro _ _
  apply (h.refuses_resolveFile path).bind
  intro i found
  split
  · exact .ok _
  · obtain ⟨plan, planned⟩ := h.planStore_of_resolveFile now path found data.size
    rw [planned]
    exact .ok plan

theorem refuses_planResize (size : Nat) : Refuses (o.planResize now path size) := by
  rw [planResize]
  split
  · exact .error (of_decide_eq_true rfl)
  · apply (h.refuses_resolveFile path).bind
    intro i found
    split
    · obtain ⟨plan, planned⟩ := h.planStore_of_resolveFile now path found ()
      rw [planned]
      exact .ok plan
    · exact .ok _

/-- No plan of a sound store fails because of what the store holds. -/
theorem refuses_plan (call : Call) : Refuses (o.plan now call) := by
  have change (path : String) (f : Inode → Inode) : Refuses (o.planChange now path f) :=
    (h.refuses_resolve path).bind fun _ _ => .ok _
  have make (path : String) (mode uid gid : UInt32) : Refuses (o.planMake now path mode uid gid) :=
    (h.refuses_opening path).bind fun _ _ => .ok _
  have query {α : Type} {v : Except Failure α} (hv : Refuses v) : Refuses (planQuery v) := hv.bind fun _ _ => .ok _
  cases call with
  | attributes path => exact (query (h.refuses_attributes path)).map _
  | names path => exact (query (h.refuses_names path)).map _
  | entries path => exact (query (h.refuses_entries path)).map _
  | setMode path mode => exact (change path _).map _
  | setOwner path uid gid => exact (change path _).map _
  | setTimes path atime mtime => exact (change path _).map _
  | makeFile path mode uid gid => exact (make path _ uid gid).map _
  | makeDirectory path mode uid gid => exact (make path _ uid gid).map _
  | removeFile path => exact (h.refuses_planRemoveFile now path).map _
  | removeDirectory path => exact (h.refuses_planRemoveDirectory now path).map _
  | read path offset length => exact (query (h.refuses_read path _ length)).map _
  | write path data offset => exact (h.refuses_planWrite now path data _).map _
  | resize path size => exact (h.refuses_planResize now path _).map _
  | settle path => exact .ok _

end Sound
end Outline
end RecordFs
