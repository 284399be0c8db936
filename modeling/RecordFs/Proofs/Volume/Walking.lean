import RecordFs.Lookup
import RecordFs.Proofs.Volume.Outline

/-! Paths through the outline of a store. Finding an entry on a sound store is walking through its
outline, and what a walk comes to is stored. -/
namespace RecordFs
namespace Outline

/-- What has to be there. -/
def load {ρ : Type} (found : Option ρ) (id : Id) : Except Failure ρ :=
  match found with
  | some r => .ok r
  | none => .error (.store (.absent id))

def directory (o : Outline) (dir : Inode) (path : String) : Except Failure Directory :=
  if dir.isDirectory then load (o.table dir.data) dir.data else .error (.notADirectory path)

def child (o : Outline) (path : String) (dir : Inode) (name : String) : Except Failure Inode := do
  match (← o.directory dir path).find? name with
  | some id => load (o.inode id) id
  | none => .error (.notFound path)

def start (o : Outline) (path : String) : Except Failure Inode :=
  match o.root with
  | some root => .ok root
  | none => .error (.notFound path)

/-- From the root along the segments. -/
def walk (o : Outline) (path : String) (segments : List String) : Except Failure Inode := do
  segments.foldlM (o.child path) (← o.start path)

def resolve (o : Outline) (path : String) : Except Failure Inode := do
  Path.check path
  o.walk path (Path.segments path)

/-- The name of the entry at a path. -/
def lastName (path : String) : Except Failure String := do
  Path.check path
  match (Path.segments path).getLast? with
  | none => .error (.invalidPath path)
  | some name => do
    Path.checkName name
    if name = "." ∨ name = ".." then .error (.invalidPath path) else .ok name

def resolveParent (o : Outline) (path : String) : Except Failure (Inode × String) := do
  let name ← lastName path
  let parent ← o.walk path (Path.segments path).dropLast
  if parent.isDirectory then return (parent, name) else .error (.notADirectory path)

end Outline

namespace Outline
variable {o : Outline} {path name : String} {i dir : Inode} {d : Directory}

@[simp] theorem ok_bind {α β : Type} (a : α) (f : α → Except Failure β) : (Except.ok a >>= f) = f a := rfl

theorem bind_eq_ok {α β : Type} {x : Except Failure α} {f : α → Except Failure β} {b : β} :
    (x >>= f) = .ok b ↔ ∃ a, x = .ok a ∧ f a = .ok b := by
  cases x with
  | error e => exact ⟨nofun, fun ⟨_, h, _⟩ => nomatch h⟩
  | ok a => exact ⟨fun h => ⟨a, rfl, h⟩, fun ⟨_, h, k⟩ => by cases h; exact k⟩

/-- What is refused in one case is fine in the other. -/
theorem ite_error_eq_ok {α : Type} {p : Prop} [Decidable p] {e : Failure} {x : Except Failure α} {a : α} :
    (if p then .error e else x) = .ok a ↔ ¬ p ∧ x = .ok a := by
  split <;> simp_all

theorem ite_eq_ok {α : Type} {p : Prop} [Decidable p] {e : Failure} {x : Except Failure α} {a : α} :
    (if p then x else .error e) = .ok a ↔ p ∧ x = .ok a := by
  split <;> simp_all

theorem load_eq_ok {ρ : Type} {found : Option ρ} {id : Id} {r : ρ} : load found id = .ok r ↔ found = some r := by
  cases found <;> simp [load]

theorem directory_eq_ok : o.directory dir path = .ok d ↔ dir.isDirectory = true ∧ o.table dir.data = some d := by
  rw [directory, ite_eq_ok, load_eq_ok]

theorem start_eq_ok : o.start path = .ok i ↔ o.root = some i := by
  rw [start]
  split <;> simp_all

theorem walk_eq_ok {segments : List String} :
    o.walk path segments = .ok i ↔ ∃ r, o.root = some r ∧ segments.foldlM (o.child path) r = .ok i := by
  simp only [walk, bind_eq_ok, start_eq_ok]

theorem lastName_eq_ok : lastName path = .ok name ↔ Path.check path = .ok () ∧
    (Path.segments path).getLast? = some name ∧ Path.checkName name = .ok () ∧ ¬ (name = "." ∨ name = "..") := by
  rw [lastName, bind_eq_ok]
  cases (Path.segments path).getLast? with
  | none => exact ⟨fun ⟨_, _, h⟩ => (nomatch h), fun h => (nomatch h.2.1)⟩
  | some n =>
    simp only [bind_eq_ok, ite_error_eq_ok, Except.ok.injEq, Option.some.injEq]
    constructor
    · rintro ⟨_, checked, _, short, ordinary, rfl⟩
      exact ⟨checked, rfl, short, ordinary⟩
    · rintro ⟨checked, rfl, short, ordinary⟩
      exact ⟨(), checked, (), short, ordinary, rfl⟩

theorem entry_of_lastName (ok : lastName path = .ok name) : Path.Entry name := by
  obtain ⟨_, last, short, ordinary⟩ := lastName_eq_ok.mp ok
  obtain ⟨nonempty, segment⟩ := Path.of_mem_segments (List.mem_of_getLast? last)
  exact ⟨nonempty, Path.checkName_eq_ok.mp short, segment, fun h => ordinary (.inl h), fun h => ordinary (.inr h)⟩

theorem resolveParent_eq_ok {parent : Inode} : o.resolveParent path = .ok (parent, name) ↔
    lastName path = .ok name ∧ o.walk path (Path.segments path).dropLast = .ok parent ∧ parent.isDirectory = true := by
  simp only [resolveParent, bind_eq_ok, ite_eq_ok]
  constructor
  · rintro ⟨_, last, _, walked, is, same⟩
    cases same
    exact ⟨last, walked, is⟩
  · rintro ⟨last, walked, is⟩
    exact ⟨name, last, parent, walked, is, rfl⟩

theorem child_eq_ok : o.child path dir name = .ok i ↔
    ∃ d id, o.directory dir path = .ok d ∧ d.find? name = some id ∧ o.inode id = some i := by
  rw [child, bind_eq_ok]
  refine exists_congr fun d => ?_
  cases d.find? name with
  | none => simp
  | some id => simp [load_eq_ok]

namespace Sound
variable (h : o.Sound)
include h

theorem child_of_find? {id x : Id} (table : o.table id = some d) (found : d.find? name = some x) :
    ∃ i, o.inode x = some i := by
  obtain ⟨k, used, _, here⟩ := Directory.exists_of_find? found
  exact h.child id d k x table (Directory.named?_eq_some.mpr ⟨used, here⟩)

/-- What a step comes to is stored under its own key. -/
theorem child_stored (ok : o.child path dir name = .ok i) : o.inode i.self = some i := by
  obtain ⟨d, id, _, _, stored⟩ := child_eq_ok.mp ok
  rwa [(h.inode _ _ stored).self]

theorem foldlM_stored {segments : List String} (stored : o.inode dir.self = some dir)
    (ok : segments.foldlM (o.child path) dir = .ok i) : o.inode i.self = some i := by
  induction segments generalizing dir with
  | nil =>
    cases ok
    exact stored
  | cons name rest ih =>
    rw [List.foldlM_cons] at ok
    obtain ⟨j, step, ok⟩ := bind_eq_ok.mp ok
    exact ih (h.child_stored step) ok

theorem walk_stored {segments : List String} (ok : o.walk path segments = .ok i) : o.inode i.self = some i := by
  obtain ⟨r, root, ok⟩ := walk_eq_ok.mp ok
  exact h.foldlM_stored (h.root r root).1 ok

end Sound
end Outline

namespace World.Sound
variable {faulty : Prop} {w : World} {path name : String} {i dir : Inode}

theorem yields_directory (h : w.Sound) (stored : w.get Inode i.self = some i) :
    Yields faulty (Lookup.directory i path) w (w.outline.directory i path) := by
  rw [Lookup.directory, Outline.directory]
  split
  · rename_i is
    obtain ⟨d, table⟩ := h.outline.directory _ _ stored is
    rw [table]
    exact Store.yields_load table
  · exact .throw _

theorem yields_child (h : w.Sound) (stored : w.get Inode dir.self = some dir) :
    Yields faulty (Lookup.child path dir name) w (w.outline.child path dir name) := by
  refine .bind (h.yields_directory stored) fun d found => ?_
  obtain ⟨_, table⟩ := Outline.directory_eq_ok.mp found
  cases child : d.find? name with
  | none => exact .throw _
  | some id =>
    obtain ⟨i, inode⟩ := h.outline.child_of_find? table child
    simp only [inode]
    exact Store.yields_load inode

theorem yields_foldlM (h : w.Sound) (segments : List String) (stored : w.get Inode dir.self = some dir) :
    Yields faulty (segments.foldlM (Lookup.child path) dir) w (segments.foldlM (w.outline.child path) dir) := by
  induction segments generalizing dir with
  | nil => exact .pure dir
  | cons name rest ih =>
    rw [List.foldlM_cons, List.foldlM_cons]
    exact .bind (h.yields_child stored) fun i ok => ih (h.outline.child_stored ok)

theorem yields_root (w : World) (path : String) : Yields faulty (Lookup.root path) w (w.outline.start path) := by
  obtain ⟨s, cache⟩ := w
  cases cache with
  | none => exact .throw _
  | some r => exact .pure _

/-- Finding an entry from the root on is walking. -/
theorem yields_walk (h : w.Sound) (path : String) (segments : List String) :
    Yields faulty (do segments.foldlM (Lookup.child path) (← Lookup.root path)) w
      (w.outline.walk path segments) :=
  .bind (yields_root w path) fun r root =>
    h.yields_foldlM segments (h.outline.root r (Outline.start_eq_ok.mp root)).1

theorem yields_resolve (h : w.Sound) (path : String) :
    Yields faulty (Lookup.resolve path) w (w.outline.resolve path) :=
  .bind (.ofExcept _) fun _ _ => h.yields_walk path _

theorem yields_resolveParent (h : w.Sound) (path : String) :
    Yields faulty (Lookup.resolveParent path) w (w.outline.resolveParent path) := by
  rw [Lookup.resolveParent, Outline.resolveParent, Outline.lastName, bind_assoc]
  refine .bind (.ofExcept _) fun _ _ => ?_
  cases (Path.segments path).getLast? with
  | none => exact .throw _
  | some name =>
    simp only [bind_assoc]
    refine .bind (.ofExcept _) fun _ _ => ?_
    split
    · exact .throw _
    · change Yields faulty _ w (w.outline.walk path _ >>= _)
      rw [Outline.walk, bind_assoc]
      refine .bind (yields_root w path) fun r root => .bind ?_ fun parent _ => ?_
      · exact h.yields_foldlM _ (h.outline.root r (Outline.start_eq_ok.mp root)).1
      · split
        · exact .pure _
        · exact .throw _

end World.Sound
end RecordFs
