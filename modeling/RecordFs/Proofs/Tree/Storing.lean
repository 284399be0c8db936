import RecordFs.Proofs.Tree.Removing

/-! Writes and resizes, of which a tree only sees the new size and the times. -/
namespace RecordFs.Outline
open Volume

variable {o o' : Outline} {tree : Tree} {i : Inode} {size : Nat} {path : String}

theorem Sound.size_le_of_file (h : o.Sound) (found : o.resolveFile path = .ok i) : i.size.toNat ≤ maxFileSize := by
  obtain ⟨resolved, file⟩ := resolveFile_eq_ok.mp found
  exact (h.inode _ _ (h.resolve_stored resolved)).size file

section agrees
variable (m : o.Matches tree) (h : o.Sound) (now : Int64)
include m h

/-- The file at a path was changed just now and has another size. -/
theorem Matches.touched (found : o.resolveFile path = .ok i) (fits : size ≤ maxFileSize)
    (walk : ∀ other segments, o'.walk other segments =
      if segments = Path.segments path then .ok (touched now i size) else o.walk other segments)
    (table : o'.table = o.table) :
    o'.Matches (tree.set (Tree.segments path) (.file ((Facts.of i).touched now size))) := by
  obtain ⟨resolved, file⟩ := resolveFile_eq_ok.mp found
  have walked := walk_of_resolveFile found
  rcases m.walk_cases path (Path.segments path) with ⟨e, lost, _⟩ | ⟨j, node, walked', there, same⟩
  · rw [walked] at lost
    cases lost
  rw [walked] at walked'
  cases walked'
  have leaf (facts : Facts) : node.withFacts facts = .file facts := by
    cases node with
    | file _ => rfl
    | directory _ _ => exact absurd (file.symm.trans (h.glance_eq_directory (h.walk_stored walked) same).1) Bool.noConfusion
  rw [← leaf, Tree.segments_eq]
  refine m.withFacts there (fun other => by rw [walk, if_pos rfl]) ?_ fun other segments apart => ?_
  · have small : size < UInt64.size := Nat.lt_of_le_of_lt fits (by decide)
    rw [leaf, glance_of_file (i := Volume.touched now i size) file, Facts.of_touched now i small]
    rfl
  · exact map_glance_congr (by rw [walk, if_neg apart]) fun _ _ => by rw [table]

theorem Matches.agrees_storing {α : Type} {old : Nat → UInt8} {data : ByteArray} {offset : Nat} {g : α → Answer} {answer : α}
    {told : Answer} (found : o.resolveFile path = .ok i) (fits : size ≤ maxFileSize) (same : (g answer).plain = told) :
    o.Agrees (Plan.map g <$> .ok (storing now i old data offset size answer))
      (.ok (told, tree.set (Tree.segments path) (.file ((Facts.of i).touched now size)))) := by
  refine agrees_allowed fun changes a r o' planned carried => ?_
  obtain ⟨rfl, rfl, view, _, laid⟩ := laid_of_carried (walk_of_resolveFile found) planned carried
  exact ⟨same, m.touched h now found fits laid.walk laid.table⟩

theorem Matches.agrees_write (path : String) (data : ByteArray) (offset : Nat) :
    o.Agrees (Plan.map .count <$> o.planWrite now path data offset) (tree.write now path data.size offset) := by
  have countMax : Content.countMax = UInt64.size - 1 := rfl
  have small : maxFileSize < UInt64.size - 1 := by decide
  rw [planWrite, Tree.write, Content.checkExtent]
  by_cases large : maxFileSize < offset + data.size
  · rw [if_pos large, dif_neg (by omega)]
    exact agrees_refused o _
  rw [if_neg large, dif_pos (by omega)]
  change o.Agrees (Plan.map .count <$> (o.resolveFile path >>= _)) _
  have same := m.map_resolveFile h path
  cases found : o.resolveFile path with
  | error e =>
    rw [← same, found]
    exact agrees_refused o e
  | ok i =>
    rw [← same, found]
    change o.Agrees (Plan.map .count <$> (if data.isEmpty then _ else _)) (if data.size = 0 then _ else _)
    by_cases empty : data.size = 0
    · have isEmpty : data.isEmpty = true := by rw [ByteArray.isEmpty, empty]; rfl
      rw [if_pos empty, if_pos isEmpty]
      exact m.agrees_unchanged rfl
    · have isEmpty : ¬ data.isEmpty = true := by rw [ByteArray.isEmpty, beq_iff_eq]; exact empty
      obtain ⟨resolved, file⟩ := resolveFile_eq_ok.mp found
      obtain ⟨old, content⟩ := h.file _ _ (h.resolve_stored resolved) file
      have fits := h.size_le_of_file found
      rw [if_neg empty, if_neg isEmpty, planStore_of_content content]
      exact m.agrees_storing h now found (by omega) rfl

theorem Matches.agrees_resize (path : String) (size : Nat) :
    o.Agrees (Plan.map (fun _ => .done) <$> o.planResize now path size) (tree.resize now path size) := by
  rw [planResize, Tree.resize]
  by_cases large : maxFileSize < size
  · rw [if_pos large, if_pos large]
    exact agrees_refused o _
  rw [if_neg large, if_neg large]
  have fits := Nat.not_lt.mp large
  have same := m.map_resolveFile h path
  cases found : o.resolveFile path with
  | error e =>
    rw [← same, found]
    exact agrees_refused o e
  | ok i =>
    rw [← same, found]
    change o.Agrees (Plan.map (fun _ => .done) <$> (if i.size.toNat < size then _ else _)) (.ok _)
    obtain ⟨resolved, file⟩ := resolveFile_eq_ok.mp found
    split
    · obtain ⟨old, content⟩ := h.file _ _ (h.resolve_stored resolved) file
      rw [planStore_of_content content]
      exact m.agrees_storing h now found fits rfl
    · refine agrees_just rfl fun r o' carried => ?_
      obtain ⟨_, rest⟩ := carried.cons_ok
      obtain ⟨rfl, rfl⟩ := rest.nil_ok
      refine ⟨rfl, m.touched h now found fits (fun other segments => ?_) rfl⟩
      exact h.walk_setInode (j := Volume.touched now i size) (walk_congr_path other (walk_of_resolveFile found)) rfl rfl rfl segments

end agrees
end RecordFs.Outline
