import RecordFs.Proofs.Mount.Displaying

/-! What a number stands for. A number keeps its path until it is forgotten, and a request reaches what
stands at the path. As long as an entry is there, this is the same entry; when it has been removed,
the number leads to whatever is made at the path next. -/
namespace RecordFs
open Volume

namespace Session
variable {s t : Session} {now : Int64} {path : String} {a : Attributes} {mode uid gid : UInt32}

/-- An entry stands at the path, and these are its attributes. -/
def Stands (s : Session) (path : String) (a : Attributes) : Prop :=
  ∃ i, s.world.outline.walk path (Path.segments path) = .ok i ∧ a = .ofInode i

theorem stands_of_attributes (h : s.world.Sound) (ran : s.perform (attributes path) = (.ok a, t))
    (supplied : t.disk.Supplied) : t.Stands path a := by
  have performed := performs_of_perform 0 (.attributes path) .attributes rfl ran supplied
  obtain ⟨_, follows⟩ := performed.follows h
  obtain ⟨_, looked, same⟩ := follows.answer_of_query
  cases same
  obtain ⟨i, found, rfl⟩ := Outline.attributes_eq_ok.mp looked
  rw [Stands, follows.eq_of_query]
  exact ⟨i, (Outline.resolve_eq_ok.mp found).2, rfl⟩

/-- An entry is made by the call for its kind. -/
theorem follows_of_make (kind : EntryKind) (h : s.world.Sound) (ran : s.perform (match kind with
      | .directory => makeDirectory now path mode uid gid
      | .file => makeFile now path mode uid gid) = (.ok a, t)) (supplied : t.disk.Supplied) :
    ∃ bits, Outline.Follows s.disk.Faulty (Outline.Plan.map Answer.attributes <$> s.world.outline.planMake now path bits uid gid)
      s.world.outline (.ok (.attributes a)) t.world.outline := by
  cases kind with
  | directory =>
    have performed := performs_of_perform now (.makeDirectory path mode uid gid) .attributes rfl ran supplied
    exact ⟨_, (performed.follows h).2⟩
  | file =>
    have performed := performs_of_perform now (.makeFile path mode uid gid) .attributes rfl ran supplied
    exact ⟨_, (performed.follows h).2⟩

/-- An entry is removed by the call for its kind, and its slot is freed. -/
theorem follows_of_remove (kind : EntryKind) (h : s.world.Sound) (ran : s.perform (match kind with
      | .directory => removeDirectory now path
      | .file => removeFile now path) = (.ok (), t)) (supplied : t.disk.Supplied) :
    ∃ plan : Except Failure (Outline.Plan Unit), (∀ {allowed}, plan = .ok allowed →
      ∃ parent d k, Outline.Removal s.world.outline path parent d k ∧
        allowed = .just [.table (d.put k {}), .inode (touched now parent (d.put k {}).count)] ()) ∧
      Outline.Follows s.disk.Faulty (Outline.Plan.map (fun _ => Answer.done) <$> plan) s.world.outline (.ok .done)
        t.world.outline := by
  cases kind with
  | directory =>
    have performed := performs_of_perform now (.removeDirectory path) (fun _ => .done) rfl ran supplied
    exact ⟨_, Outline.removal_of_removeDirectory, (performed.follows h).2⟩
  | file =>
    have performed := performs_of_perform now (.removeFile path) (fun _ => .done) rfl ran supplied
    exact ⟨_, Outline.removal_of_removeFile, (performed.follows h).2⟩

/-- A new entry stands at its path, and no entry had its identifier. -/
theorem stands_of_make (kind : EntryKind) (h : s.world.Sound) (ran : s.perform (match kind with
      | .directory => makeDirectory now path mode uid gid
      | .file => makeFile now path mode uid gid) = (.ok a, t)) (supplied : t.disk.Supplied) :
    t.Stands path a ∧ ∃ id, t.world.outline.occupant? (Path.segments path) = some id ∧ s.world.outline.inode id = none := by
  obtain ⟨bits, follows⟩ := follows_of_make kind h ran supplied
  obtain ⟨place, self, data, opens, new, same, made⟩ := follows.made h.outline
  cases same
  have found := made.walk_entry opens path
  exact ⟨⟨_, found, rfl⟩, self, Outline.occupant?_of_walk found, new.self.inode⟩

/-- The root is never removed. -/
theorem ne_root_of_removeFile (h : s.world.Sound) (ran : s.perform (removeFile now path) = (.ok (), t))
    (supplied : t.disk.Supplied) : path ≠ "/" := by
  rintro rfl
  obtain ⟨plan, removes, follows⟩ := follows_of_remove .file h ran supplied
  obtain ⟨_, _, _, planned, _⟩ := follows.succeeded
  obtain ⟨parent, d, k, removal, _⟩ := removes planned
  obtain ⟨_, last, _⟩ := Outline.lastName_eq_ok.mp removal.last
  have none : (Path.segments "/").getLast? = none := rfl
  cases none.symm.trans last

end Session

namespace Mount
namespace Mounted
open Serving
variable {α β : Type} {m m' m₁ m₂ : Mounted} {now : Int64} {parent node number : Nat} {name : ByteArray} {path : String}
  {told : NodeAttributes}

/-- The entry that a number leads to. -/
def occupant? (m : Mounted) (number : Nat) : Option Id :=
  (m.table.path? number).bind fun path => m.session.world.outline.occupant? (Path.segments path)

/-- An entry stands at the path that the number has, and the kernel is told its attributes. -/
def Tells (m : Mounted) (path : String) (told : NodeAttributes) : Prop :=
  m.table.path? told.number = some path ∧ ∃ a, m.session.Stands path a ∧ told = .of told.number a

section tells
variable (sound : m.session.world.Sound) (supplied : m'.session.disk.Supplied)
include sound supplied

theorem tells_attributes (ran : m.run (attributes node) = (.ok told, m')) :
    ∃ path, m.table.path? node = some path ∧ m'.Tells path told := by
  obtain ⟨path, a, known, performed, rfl, same⟩ := run_attributes_ok ran
  refine ⟨path, known, ?_, a, Session.stands_of_attributes sound performed supplied, rfl⟩
  rw [same]
  exact known

variable (proper : m.table.Proper)
include proper

theorem tells_lookup (ran : m.run (lookup parent name) = (.ok told, m')) :
    ∃ path, m.table.child? parent name = some path ∧ m'.Tells path told := by
  obtain ⟨path, a, known, performed, rfl, same⟩ := run_lookup_ok ran
  refine ⟨path, known, ?_, a, Session.stands_of_attributes sound performed supplied, rfl⟩
  rw [same]
  exact proper.path?_lookUp path a.kind

theorem tells_make {kind : EntryKind} {mode umask : UInt32} {caller : Caller}
    (ran : m.run (make kind now parent name mode umask caller) = (.ok told, m')) :
    ∃ path, m.table.child? parent name = some path ∧ m'.Tells path told := by
  obtain ⟨path, a, known, performed, rfl, same⟩ := run_make_ok ran
  refine ⟨path, known, ?_, a, (Session.stands_of_make kind sound performed supplied).1, rfl⟩
  rw [same]
  exact proper.path?_lookUp path kind

end tells

theorem tells_change {now : Clock Reading} {c : Changes} (h : m.session.Reachable) (proper : m.table.Proper)
    (ran : m.run (change now node c) = (.ok told, m')) (supplied : m'.session.disk.Supplied) :
    ∃ path, m.table.path? node = some path ∧ m'.Tells path told := by
  rw [change_eq] at ran
  obtain ⟨path, _, found, ran⟩ := run_bind_ok.mp ran
  obtain ⟨known, rfl⟩ := run_pathOf_ok.mp found
  obtain ⟨_, m₁, changed, ran⟩ := run_bind_ok.mp ran
  have leads := keeps_steps path now c m (.refl _)
  rw [changed] at leads
  have last := m₁.leads_attributes node
  rw [ran] at last
  have reached := (leads.calls (last.like.supplied supplied)).reachable h
  obtain ⟨path', known', tells⟩ := tells_attributes reached.sound supplied ran
  exact ⟨path', leads.table.path node (proper.known node path known) path' known', tells⟩

end Mounted

/-- What the kernel is told of an entry. -/
def Response.attributes? : Response → Option NodeAttributes
  | .entry a | .made a | .attributes a => some a
  | _ => none

namespace Serving
variable {α β : Type}

/-- Every reply of the program, when it succeeds, is such. -/
def Replies (P : α → Prop) (x : Serving α) : Prop := ∀ ⦃m m' : Mounted⦄ ⦃a : α⦄, m.run x = (.ok a, m') → P a

namespace Replies
variable {P : α → Prop} {x : Serving β} {f : β → Serving α}

theorem pure {a : α} (h : P a) : Replies P (pure a) := by
  intro _ _ _ ran
  cases ran
  exact h

theorem bind (h : ∀ b, Replies P (f b)) : Replies P (x >>= f) := by
  intro _ _ _ ran
  obtain ⟨b, _, _, ran⟩ := Mounted.run_bind_ok.mp ran
  exact h b ran

end Replies
end Serving

namespace Mounted
open Serving
variable {m m' m₁ m₂ : Mounted} {now now' : Clock Reading} {request : Request} {number : Nat} {path : String} {told : NodeAttributes}

theorem tells_answer {response : Response} (h : m.Reachable) (served : m.Serves now request (.ok response) m')
    (answered : response.attributes? = some told) : ∃ path, request.path? m.table = some path ∧ m'.Tells path told := by
  obtain ⟨ran, supplied⟩ := served
  have silent (replies : Replies (fun response => response.attributes? = none) (answer now request)) :
      ∃ path, request.path? m.table = some path ∧ m'.Tells path told := by
    rw [replies ran] at answered
    cases answered
  cases request with
  | lookup parent name =>
    obtain ⟨a, inner, rfl⟩ := run_map_ok.mp ran
    cases answered
    exact tells_lookup h.session.sound supplied h.proper inner
  | attributes node =>
    obtain ⟨a, inner, rfl⟩ := run_map_ok.mp ran
    cases answered
    exact tells_attributes h.session.sound supplied inner
  | change node c =>
    obtain ⟨a, inner, rfl⟩ := run_map_ok.mp ran
    cases answered
    exact tells_change h.session h.proper inner supplied
  | makeFile parent name mode umask caller | makeDirectory parent name mode umask caller =>
    obtain ⟨a, inner, rfl⟩ := run_map_ok.mp ran
    cases answered
    exact tells_make h.session.sound supplied h.proper inner
  | forget nodes => exact silent (Replies.bind fun _ => .pure rfl)
  | openNode node => exact silent (Replies.bind fun _ => .bind fun _ => .pure rfl)
  | flush node | release node => exact silent (Replies.bind fun _ => .pure rfl)
  | read node offset length | write node offset data => exact silent (Replies.bind fun _ => .bind fun _ => .bind fun _ => .pure rfl)
  | list node offset buffer => exact silent (Replies.bind fun _ => .pure rfl)
  | removeFile parent name | removeDirectory parent name => exact silent (Replies.bind fun _ => .pure rfl)

/-- Where an entry is removed and another is made, the number of the one removed leads to the one made. -/
theorem occupant?_of_remade {mode umask : UInt32} {caller : Caller} {parent : Nat} {name : ByteArray} {id : Id} (h : m.Reachable)
    (removed : m.Serves now (.removeFile parent name) (.ok .done) m₁)
    (remade : m₁.Serves now' (.makeFile parent name mode umask caller) (.ok (.made told)) m₂)
    (here : m.table.child? parent name = some path) (known : m.table.path? number = some path)
    (leads : m.occupant? number = some id) : told.number ≠ number ∧ m₂.occupant? number = m₂.occupant? told.number ∧
      ∃ new, m₂.occupant? number = some new ∧ new ≠ id := by
  have aged := (removed.calls h.proper).ages h.session
  have h₁ := h.runs (.served (.refl m) removed)
  obtain ⟨_, m', ran, last⟩ := run_bind_ok.mp removed.run
  have same : m₁ = m' := (Prod.mk.inj last).2.symm
  subst same
  obtain ⟨_, here', performed, table₁⟩ := run_remove_ok ran
  cases here.symm.trans here'
  have other := Session.ne_root_of_removeFile h.session.sound performed removed.supplied
  obtain ⟨told', made, same⟩ := run_map_ok.mp remade.run
  cases same
  obtain ⟨path', a, here₁, performed', rfl, table₂⟩ := run_make_ok made
  rw [table₁, NodeTable.child?_invalidate, here] at here₁
  cases here₁
  -- The removal took the path from its number, so the new entry gets another number. The old one
  -- is still known, with this path.
  obtain ⟨differs, kept⟩ := h.proper.lookUp_invalidate .file known other
  have given := h₁.proper.path?_lookUp path .file
  rw [← table₁, ← table₂] at kept
  rw [← table₂] at given
  rw [← table₁] at differs
  obtain ⟨_, new, found, unused⟩ := Session.stands_of_make .file h₁.session.sound performed' remade.supplied
  have reached : m₂.occupant? number = some new := by
    rw [occupant?, kept]
    exact found
  refine ⟨differs, ?_, new, reached, ?_⟩
  · rw [reached, occupant?]
    change _ = (m₂.table.path? (m₁.table.lookUp path .file).1).bind _
    rw [given]
    exact found.symm
  · rintro rfl
    rw [occupant?, known] at leads
    -- The identifier of the removed entry stays in use.
    have stored := aged.stored new (h.session.sound.outline.occupant_stored leads)
    rw [unused] at stored
    cases stored

/-- What holds of the numbers of a mounted volume. -/
structure NumberLaws (m : Mounted) : Prop where
  /-- What the kernel is told of an entry is about an entry that stands at the path of the number it is told. -/
  told : ∀ {now request response m' told}, m.Serves now request (.ok response) m' → response.attributes? = some told →
    ∃ path, request.path? m.table = some path ∧ m'.Tells path told
  /-- A request makes calls about one path: that of the number it names, or of a name in the directory with this number. -/
  about : ∀ {now request r m'}, m.Serves now request r m' → m.session.Calls (request.path? m.table) m'.session
  /-- As long as a number is known, it has its path, and the entry at this path stands there or at no path any more. -/
  kept : ∀ {m' number path id}, m.Runs m' → m.table.path? number = some path → m.occupant? number = some id →
    (m'.table.path? number).isSome → m'.table.path? number = some path ∧
      (m'.occupant? number = some id ∨ ∀ segments, m'.session.world.outline.occupant? segments ≠ some id)
  /-- An entry that is at no path comes back to none. -/
  gone : ∀ {m' id}, m.Runs m' → (m.session.world.outline.inode id).isSome →
    (∀ segments, m.session.world.outline.occupant? segments ≠ some id) →
      ∀ segments, m'.session.world.outline.occupant? segments ≠ some id
  /-- A number that is known no longer stays unknown. -/
  forgotten : ∀ {m' number}, m.Runs m' → number < m.table.next → m.table.path? number = none →
    m'.table.path? number = none
  /-- When an entry has been removed and another made at its path, the number of the one leads to the other. -/
  remade : ∀ {now now' parent name mode umask caller m₁ m₂ told path number id},
    m.Serves now (.removeFile parent name) (.ok .done) m₁ →
    m₁.Serves now' (.makeFile parent name mode umask caller) (.ok (.made told)) m₂ →
    m.table.child? parent name = some path → m.table.path? number = some path → m.occupant? number = some id →
    told.number ≠ number ∧ m₂.occupant? number = m₂.occupant? told.number ∧ ∃ new, m₂.occupant? number = some new ∧ new ≠ id

theorem Reachable.numberLaws (h : m.Reachable) : m.NumberLaws where
  told served answered := tells_answer h served answered
  about served := served.calls h.proper
  kept {m' number path id} runs known leads stays := by
    obtain ⟨_, later, ages⟩ := runs.invariant h.session h.proper
    obtain ⟨path', known'⟩ := Option.isSome_iff_exists.mp stays
    have same := later.path number (h.proper.known number path known) path' known'
    cases known.symm.trans same
    refine ⟨known', ?_⟩
    rw [occupant?, known] at leads
    rw [occupant?, known']
    exact ages.kept_or_gone h.session.sound.outline leads
  gone runs stored lost := (runs.invariant h.session h.proper).2.2.gone stored lost
  forgotten {m' number} runs given unknown := by
    obtain ⟨_, later, _⟩ := runs.invariant h.session h.proper
    cases known : m'.table.path? number with
    | none => rfl
    | some path => exact (later.path number given path known).symm.trans unknown
  remade removed made here known leads := occupant?_of_remade h removed made here known leads

/-- A number leads to the entry that the tree has at its path. -/
theorem Displays.occupied {tree : Tree} {n : Nat} (h : m.Displays tree n) (known : m.table.path? number = some path)
    (there : (tree.told path).toBool = true) : ∃ id, m.occupant? number = some id := by
  rw [h.shows.outline.told h.shows.sound.outline path] at there
  rw [occupant?, known]
  cases found : m.session.world.outline.attributes path with
  | error e =>
    rw [found] at there
    cases there
  | ok a =>
    obtain ⟨i, resolved, _⟩ := Outline.attributes_eq_ok.mp found
    exact ⟨i.self, Outline.occupant?_of_walk (Outline.resolve_eq_ok.mp resolved).2⟩

/-- The file of the root is removed and made again. -/
theorem numberLaws_oneFile : oneFile.Reachable ∧ oneFile.NumberLaws ∧ ∃ m₁ m₂ told id,
    oneFile.Serves (.still 0) (lostFile "a") (.ok .done) m₁ ∧ m₁.Serves (.still 0) (newFile "a") (.ok (.made told)) m₂ ∧
      oneFile.table.path? 2 = some "/a" ∧ oneFile.occupant? 2 = some id ∧ told.number ≠ 2 ∧
      m₂.occupant? 2 = m₂.occupant? told.number ∧ ∃ new, m₂.occupant? 2 = some new ∧ new ≠ id := by
  have shown := displays_oneFile
  have laws := Reachable.numberLaws shown.mounted
  obtain ⟨removed, gone⟩ := shown.lostFile (by decide) child_a (by decide +kernel)
  obtain ⟨told, made, _⟩ := gone.newFile (by decide) child_a (by decide +kernel)
  obtain ⟨id, leads⟩ := shown.occupied path?_oneFile (by decide +kernel)
  obtain ⟨other, same, differs⟩ := laws.remade removed made (shown.child?_root child_a) path?_oneFile leads
  exact ⟨shown.mounted, laws, _, _, told, id, removed, made, path?_oneFile, leads, other, same, differs⟩

end Mounted
end Mount
end RecordFs
