import Mathlib.Data.List.Induction
import RecordFs.Path

/-! Names that entries can have, and the segments of a path, which are such names but for their
length and the two special ones. A path with one slash before each segment is made longer and
shorter at its end. -/
namespace RecordFs

namespace Text
variable {separator : Char}

theorem not_mem_of_mem_pieces {cs piece : List Char} (h : piece ∈ pieces separator cs) :
    separator ∉ piece := by
  induction cs generalizing piece with
  | nil =>
    rw [List.mem_singleton.mp h]
    exact List.not_mem_nil
  | cons c cs ih =>
    rw [pieces] at h
    split at h
    · rcases List.mem_cons.mp h with rfl | later
      · exact List.not_mem_nil
      · exact ih later
    · rename_i other
      split at h
      · rename_i first rest cut
        rcases List.mem_cons.mp h with rfl | later
        · rw [List.mem_cons, not_or]
          exact ⟨fun same => other same.symm, ih (cut ▸ List.mem_cons_self)⟩
        · exact ih (cut ▸ List.mem_cons_of_mem _ later)
      · rename_i none
        exact absurd none (pieces_ne_nil separator cs)

theorem pieces_of_not_mem {cs : List Char} (whole : separator ∉ cs) : pieces separator cs = [cs] := by
  induction cs with
  | nil => rfl
  | cons c cs ih =>
    rw [List.mem_cons, not_or] at whole
    rw [pieces, if_neg (Ne.symm whole.1), ih whole.2]

theorem pieces_append (front back : List Char) :
    pieces separator (front ++ separator :: back) = pieces separator front ++ pieces separator back := by
  induction front with
  | nil => exact if_pos rfl
  | cons c front ih =>
    rw [List.cons_append, pieces, pieces, ih]
    split
    · rfl
    · cases cut : pieces separator front with
      | nil => exact absurd cut (pieces_ne_nil separator front)
      | cons piece rest => rfl

end Text

namespace Path
variable {place front : List String} {name : String}

/-- A name that an entry can have. -/
structure Entry (name : String) : Prop where
  nonempty : name ≠ ""
  short : name.utf8ByteSize ≤ maxNameLength
  segment : '/' ∉ name.toList
  not_self : name ≠ "."
  not_parent : name ≠ ".."

theorem of_mem_segments {path name : String} (h : name ∈ segments path) : name ≠ "" ∧ '/' ∉ name.toList := by
  obtain ⟨piece, member, rfl⟩ := List.mem_map.mp h
  obtain ⟨cut, nonempty⟩ := List.mem_filter.mp member
  refine ⟨fun empty => ?_, ?_⟩
  · have := congrArg String.toList empty
    simp_all
  · rw [String.toList_ofList]
    exact Text.not_mem_of_mem_pieces cut

theorem checkName_eq_ok {name : String} : checkName name = .ok () ↔ name.utf8ByteSize ≤ maxNameLength := by
  rw [checkName]
  split
  · rename_i long
    exact ⟨nofun, fun short => absurd long (Nat.not_lt.mpr short)⟩
  · rename_i short
    exact ⟨fun _ => Nat.not_lt.mp short, fun _ => rfl⟩

/-- The path with these segments. -/
def along (place : List String) : String := place.foldl (fun above name => above ++ "/" ++ name) ""

theorem along_snoc (place : List String) (name : String) : along (place ++ [name]) = along place ++ "/" ++ name := by
  rw [along, List.foldl_append]
  rfl

/-- What can be a segment of a path. -/
abbrev Segment (name : String) : Prop := name ≠ "" ∧ '/' ∉ name.toList

theorem segments_child (above : String) (segment : Segment name) :
    segments (above ++ "/" ++ name) = segments above ++ [name] := by
  have cut : (above ++ "/" ++ name).toList = above.toList ++ '/' :: name.toList := by simp
  have some : name.toList ≠ [] := fun none => segment.1 (String.toList_eq_nil_iff.mp none)
  rw [segments, cut, Text.pieces_append, Text.pieces_of_not_mem segment.2, List.filter_append, List.map_append, ← segments,
    List.filter_cons_of_pos (by simpa using some), List.filter_nil, List.map_singleton, String.ofList_toList]

theorem segments_along (each : ∀ name ∈ place, Segment name) : segments (along place) = place := by
  -- From the end, where a path grows: its last segment is cut off first.
  induction place using List.reverseRecOn with
  | nil => rfl
  | append_singleton place name ih =>
    rw [along_snoc, segments_child _ (each name (by simp)), ih fun name member => each name (List.mem_append_left _ member)]

theorem size_along_le (place rest : List String) : (along place).utf8ByteSize ≤ (along (place ++ rest)).utf8ByteSize := by
  induction rest using List.reverseRecOn with
  | nil => exact Nat.le_of_eq (by rw [List.append_nil])
  | append_singleton rest name ih =>
    rw [← List.append_assoc, along_snoc, String.utf8ByteSize_append, String.utf8ByteSize_append]
    omega

/-- The path of a directory is no longer than that of what is in it. -/
theorem check_along (before : place <+: front) (checked : check (along front) = .ok ()) : check (along place) = .ok () := by
  obtain ⟨rest, rfl⟩ := before
  have le := size_along_le place rest
  rw [check] at checked ⊢
  split at checked
  · cases checked
  · rename_i short
    exact if_neg (by omega)

/-- One slash before each segment; the root is a slash. -/
def canonical (place : List String) : String := "/" ++ "/".intercalate place

theorem foldl_eq_canonical (above : String) (some : place ≠ []) :
    place.foldl (fun above name => above ++ "/" ++ name) above = above ++ canonical place := by
  induction place generalizing above with
  | nil => exact absurd rfl some
  | cons name rest ih =>
    cases rest with
    | nil => rw [List.foldl_cons, List.foldl_nil, canonical, String.intercalate_singleton, String.append_assoc]
    | cons next rest =>
      rw [List.foldl_cons, ih _ (List.cons_ne_nil _ _), canonical, canonical, String.intercalate_cons_cons]
      simp only [String.append_assoc]

theorem canonical_eq_along (some : place ≠ []) : canonical place = along place := by
  rw [along, foldl_eq_canonical "" some, String.empty_append]

/-- A list of segments is the segments of the path they make. -/
theorem segments_canonical (each : ∀ name ∈ place, Segment name) : segments (canonical place) = place := by
  by_cases root : place = []
  · subst root
    decide +kernel
  · rw [canonical_eq_along root, segments_along each]

theorem canonical_eq_root_iff (each : ∀ name ∈ place, Segment name) : canonical place = "/" ↔ place = [] := by
  constructor
  · intro same
    rw [← segments_canonical each, same]
    decide +kernel
  · rintro rfl
    rfl

theorem child_canonical (each : ∀ name ∈ place, Segment name) (name : String) :
    child (canonical place) name = canonical (place ++ [name]) := by
  rw [child, canonical_eq_along (List.append_ne_nil_of_right_ne_nil _ (List.cons_ne_nil _ _)), along_snoc]
  by_cases root : place = []
  · subst root
    rfl
  · rw [if_neg (mt (canonical_eq_root_iff each).mp root), canonical_eq_along root]

/-- What stands before a name that is the last segment. -/
theorem beforeLastSlash_append {name : List Char} (whole : '/' ∉ name) (above : List Char) :
    beforeLastSlash (above ++ '/' :: name) = if above = [] then ['/'] else above := by
  have backwards : (above ++ '/' :: name).reverse = name.reverse ++ '/' :: above.reverse := by simp
  have cut : ((name.reverse ++ '/' :: above.reverse).dropWhile (· ≠ '/')).drop 1 = above.reverse := by
    rw [List.dropWhile_append_of_pos, List.dropWhile_cons_of_neg (by simp)]
    · rfl
    · intro c member
      exact decide_eq_true fun slash => whole (slash ▸ List.mem_reverse.mp member)
  rw [beforeLastSlash, backwards, cut]
  cases above using List.reverseRecOn with
  | nil => rfl
  | append_singleton above c => simp

theorem parent_child (each : ∀ name ∈ place, Segment name) (segment : Segment name) :
    parent (child (canonical place) name) = canonical place := by
  have cut (above : String) : (above ++ "/" ++ name).toList = above.toList ++ '/' :: name.toList := by simp
  rw [child_canonical each, canonical_eq_along (List.append_ne_nil_of_right_ne_nil _ (List.cons_ne_nil _ _)), along_snoc, parent,
    cut, beforeLastSlash_append segment.2]
  by_cases root : place = []
  · subst root
    rfl
  · have some : (along place).toList ≠ [] := by
      rw [Ne, String.toList_eq_nil_iff, ← canonical_eq_along root, canonical, String.append_eq_empty_iff]
      exact fun none => absurd none.1 (by decide)
    rw [if_neg some, String.ofList_toList, canonical_eq_along root]

/-- The path of a directory is no longer than that of an entry in it. -/
theorem size_canonical_le (place : List String) (name : String) :
    (canonical place).utf8ByteSize ≤ (child (canonical place) name).utf8ByteSize := by
  rw [child]
  split
  · rename_i root
    rw [root, String.utf8ByteSize_append]
    omega
  · rw [String.utf8ByteSize_append, String.utf8ByteSize_append]
    omega

end Path
end RecordFs
