import RecordFs.Proofs.Tree.Matching

/-! What is found by path in an outline and in a tree that match. -/
namespace RecordFs
open Volume

/-- Pieces are those of the standard library. -/
theorem Text.pieces_eq_splitOn (separator : Char) (cs : List Char) : pieces separator cs = cs.splitOn separator := by
  induction cs with
  | nil => rfl
  | cons c cs ih =>
    rw [pieces, ih, List.splitOn, List.splitOn, List.splitOnP_cons_eq_if_modifyHead]
    by_cases same : c = separator
    · rw [if_pos same, if_pos (beq_iff_eq.mpr same)]
    · rw [if_neg same, if_neg (mt beq_iff_eq.mp same)]
      cases cut : cs.splitOnP (· == separator) with
      | nil => exact absurd cut (List.splitOnP_ne_nil _ _)
      | cons piece rest => rfl

namespace Tree

theorem segments_eq (path : String) : segments path = Path.segments path := by
  rw [segments, Path.segments, Text.pieces_eq_splitOn]

theorem resolve_eq (tree : Tree) (path : String) :
    tree.resolve path = (Path.check path >>= fun _ => tree.walk path (Path.segments path)) := by
  rw [resolve, Path.check, segments_eq]
  split <;> rfl

theorem target_eq (path : String) :
    target path = (Outline.lastName path).map fun name => ((Path.segments path).dropLast, name) := by
  rw [target, Outline.lastName, Path.check, segments_eq]
  by_cases long : maxPathLength < path.utf8ByteSize
  · rw [if_pos long, if_pos long]
    rfl
  · rw [if_neg long, if_neg long]
    cases (Path.segments path).getLast? with
    | none => rfl
    | some name =>
      simp only [Outline.ok_bind, Path.checkName]
      by_cases longName : maxNameLength < name.utf8ByteSize
      · simp only [if_pos longName]
        rfl
      · simp only [if_neg longName, Outline.ok_bind]
        split <;> rfl

end Tree

namespace Outline.Matches
open Outline

variable {o : Outline} {tree : Tree} (m : o.Matches tree)
include m

theorem walk_cases (path : String) (segments : List String) :
    (∃ e, o.walk path segments = .error e ∧ tree.walk path segments = .error e) ∨ ∃ i node,
      o.walk path segments = .ok i ∧ tree.walk path segments = .ok node ∧ o.glance i = node.glance :=
  map_eq_map (m path segments)

theorem resolve_cases (path : String) : (∃ e, o.resolve path = .error e ∧ tree.resolve path = .error e) ∨
    ∃ i node, o.resolve path = .ok i ∧ tree.resolve path = .ok node ∧ o.glance i = node.glance := by
  rw [Tree.resolve_eq, resolve]
  cases Path.check path with
  | error e => exact .inl ⟨e, rfl, rfl⟩
  | ok _ => exact m.walk_cases path _

variable (h : o.Sound)
include h

/-- A file is found in both with the same facts, or in neither. -/
theorem map_resolveFile (path : String) : (o.resolveFile path).map Facts.of = tree.fileAt path := by
  rw [resolveFile, Tree.fileAt]
  rcases m.resolve_cases path with ⟨e, lost, lost'⟩ | ⟨i, node, found, found', same⟩
  · rw [lost, lost']
    rfl
  · rw [found, found']
    cases node with
    | file facts =>
      obtain ⟨file, rfl⟩ := h.glance_eq_file (h.resolve_stored found) same
      rw [ok_bind, file]
      rfl
    | directory facts slots =>
      obtain ⟨is, _⟩ := h.glance_eq_directory (h.resolve_stored found) same
      rw [ok_bind, is]
      rfl

/-- What both show at the path of a directory. -/
structure Listed (o : Outline) (tree : Tree) (path : String) (i : Inode) (d : Directory) (slots : Slots) : Prop where
  resolved : o.resolve path = .ok i
  walked : ∃ facts, tree.walk path (Path.segments path) = .ok (.directory facts slots)
  is : i.isDirectory = true
  table : o.table i.data = some d
  names : slots.names = d.names

theorem listing_cases (path : String) : (∃ e, o.listing path = .error e ∧ tree.slotsAt path = .error e) ∨
    ∃ i d slots, o.listing path = .ok d ∧ tree.slotsAt path = .ok slots ∧ Listed o tree path i d slots := by
  rw [listing, Tree.slotsAt]
  rcases m.resolve_cases path with ⟨e, lost, lost'⟩ | ⟨i, node, found, found', same⟩
  · rw [lost, lost']
    exact .inl ⟨e, rfl, rfl⟩
  · rw [found, found']
    cases node with
    | file facts =>
      obtain ⟨file, _⟩ := h.glance_eq_file (h.resolve_stored found) same
      refine .inl ⟨.notADirectory path, ?_, rfl⟩
      rw [ok_bind, Outline.directory, file]
      rfl
    | directory facts slots =>
      obtain ⟨is, _, d, table, names⟩ := h.glance_eq_directory (h.resolve_stored found) same
      rw [Tree.resolve_eq] at found'
      obtain ⟨_, _, walked⟩ := bind_eq_ok.mp found'
      exact .inr ⟨i, d, slots, directory_eq_ok.mpr ⟨is, table⟩, rfl, found, ⟨facts, walked⟩, is, table, names⟩

/-- What both show of the directory in which the entry at a path stands or is to stand. -/
structure Paired (o : Outline) (tree : Tree) (path : String) (i : Inode) (d : Directory) (p : Tree.Parent) : Prop where
  last : lastName path = .ok p.name
  place : p.place = (Path.segments path).dropLast
  walked : o.walk path p.place = .ok i
  found : tree.walk path p.place = .ok (.directory p.facts p.slots)
  is : i.isDirectory = true
  facts : p.facts = .of i
  table : o.table i.data = some d
  names : p.slots.names = d.names

theorem parent_cases (path : String) : (∃ e, o.resolveParent path = .error e ∧ tree.parent path = .error e) ∨
    ∃ i d p, o.resolveParent path = .ok (i, p.name) ∧ o.directory i path = .ok d ∧ tree.parent path = .ok p ∧
      Paired o tree path i d p := by
  rw [resolveParent, Tree.parent, Tree.target_eq]
  cases last : lastName path with
  | error e => exact .inl ⟨e, rfl, rfl⟩
  | ok name =>
    simp only [Except.map, ok_bind]
    rcases m.walk_cases path (Path.segments path).dropLast with ⟨e, lost, lost'⟩ | ⟨i, node, walked, found, same⟩
    · rw [lost, lost']
      exact .inl ⟨e, rfl, rfl⟩
    · cases node with
      | file facts =>
        obtain ⟨file, _⟩ := h.glance_eq_file (h.walk_stored walked) same
        refine .inl ⟨.notADirectory path, ?_, ?_⟩
        · rw [walked, ok_bind, file]
          rfl
        · rw [found]
          rfl
      | directory facts slots =>
        obtain ⟨is, same, d, table, names⟩ := h.glance_eq_directory (h.walk_stored walked) same
        refine .inr ⟨i, d, ⟨(Path.segments path).dropLast, name, facts, slots⟩, ?_, directory_eq_ok.mpr ⟨is, table⟩, ?_, ?_⟩
        · rw [walked, ok_bind, is]
          rfl
        · rw [found]
          rfl
        · exact ⟨last, rfl, walked, found, is, same, table, names⟩

end Outline.Matches
end RecordFs
