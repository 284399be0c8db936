import RecordFs.Proofs.Tree.Agreeing
import RecordFs.Proofs.Volume.Observing

/-! What paths show. Kinds, names and bytes at a path follow from the slots that are found there and
from the bytes of the file; identifiers, and where records are kept, do not matter. -/
namespace RecordFs
open Volume

theorem Inode.kind_congr {i j : Inode} (same : i.isDirectory = j.isDirectory) : i.kind = j.kind := by
  cases is : j.isDirectory with
  | false => rw [kind_of_not_isDirectory is, kind_of_not_isDirectory (same.trans is)]
  | true => rw [isDirectory_iff.mp is, isDirectory_iff.mp (same.trans is)]

namespace Outline
variable {o o' o'' : Outline} {path : String} {segments : List String} {i j : Inode}

/-- The names in the slots of the directory at the end of these segments; a file has no slots. -/
def shape (o : Outline) (path : String) (segments : List String) :
    Except Failure (Option (Fin dirEntries → Option String)) :=
  (o.walk path segments).map fun i => (o.glance i).names

/-- The same segments lead to the same slots and to the same bytes. -/
structure SameTree (o o' : Outline) : Prop where
  shape : ∀ path segments, o'.shape path segments = o.shape path segments
  file? : ∀ segments, o'.file? segments = o.file? segments

theorem SameTree.trans (h : SameTree o o') (k : SameTree o' o'') : SameTree o o'' :=
  ⟨fun path segments => (k.shape path segments).trans (h.shape path segments),
    fun segments => (k.file? segments).trans (h.file? segments)⟩

theorem SameTree.symm (h : SameTree o o') : SameTree o' o :=
  ⟨fun path segments => (h.shape path segments).symm, fun segments => (h.file? segments).symm⟩

theorem shape_of_map_glance {other : String}
    (same : (o'.walk other segments).map o'.glance = (o.walk other segments).map o.glance) :
    o'.shape other segments = o.shape other segments := by
  rw [shape, shape]
  rcases map_eq_map same with ⟨e, lost, lost'⟩ | ⟨i, j, found, found', shown⟩
  · rw [lost, lost']
    rfl
  · rw [found, found']
    exact congrArg (fun g : Glance => Except.ok g.names) shown

/-- Only directories have slots. -/
theorem Sound.isSome_names (h : o.Sound) (stored : o.inode i.self = some i) :
    (o.glance i).names.isSome = i.isDirectory := by
  cases is : i.isDirectory with
  | false => rw [glance_of_file is]; rfl
  | true =>
    obtain ⟨d, table⟩ := h.directory _ _ stored is
    rw [glance_of_table is table]
    rfl

/-- What is listed of a directory is told by its slots. -/
theorem Sound.names_eq_ok (h : o.Sound) (found : o.resolve path = .ok i) {slots : Fin dirEntries → Option String}
    (shown : (o.glance i).names = some slots) :
    o.names path = .ok ("." :: ".." :: (List.finRange dirEntries).filterMap slots) := by
  have stored := h.resolve_stored found
  have is : i.isDirectory = true := by
    rw [← h.isSome_names stored, shown]
    rfl
  obtain ⟨d, table⟩ := h.directory _ _ stored is
  rw [glance_of_table is table] at shown
  rw [Outline.names, listing_eq_ok.mpr ⟨i, found, is, table⟩, ok_bind, d.map_name_occupied, Option.some.inj shown]
  rfl

/-- A path leads to the same slots in both, or to the same refusal. -/
theorem resolve_cases_of_shape (same : o'.shape path (Path.segments path) = o.shape path (Path.segments path)) :
    (∃ e, o'.resolve path = .error e ∧ o.resolve path = .error e) ∨
      ∃ i j, o'.resolve path = .ok i ∧ o.resolve path = .ok j ∧ (o'.glance i).names = (o.glance j).names := by
  rw [resolve, resolve]
  cases Path.check path with
  | error e => exact .inl ⟨e, rfl, rfl⟩
  | ok _ => exact map_eq_map same

section congr
variable (h : o.Sound) (h' : o'.Sound)
include h h'

theorem isDirectory_of_names (found : o'.resolve path = .ok i) (found' : o.resolve path = .ok j)
    (names : (o'.glance i).names = (o.glance j).names) : i.isDirectory = j.isDirectory := by
  rw [← h'.isSome_names (h'.resolve_stored found), names, h.isSome_names (h.resolve_stored found')]

theorem kind_congr (same : o'.shape path (Path.segments path) = o.shape path (Path.segments path)) :
    (o'.attributes path).map (·.kind) = (o.attributes path).map (·.kind) := by
  rw [Outline.attributes, Outline.attributes]
  rcases resolve_cases_of_shape same with ⟨e, lost, lost'⟩ | ⟨i, j, found, found', names⟩
  · rw [lost, lost']
  · have is := isDirectory_of_names h h' found found' names
    rw [found, found']
    exact congrArg Except.ok (Inode.kind_congr is)

theorem names_congr (same : o'.shape path (Path.segments path) = o.shape path (Path.segments path)) :
    o'.names path = o.names path := by
  rcases resolve_cases_of_shape same with ⟨e, lost, lost'⟩ | ⟨i, j, found, found', names⟩
  · rw [Outline.names, Outline.names, listing, listing, lost, lost']
    rfl
  · cases slots : (o.glance j).names with
    | some slots' => rw [h'.names_eq_ok found (names.trans slots), h.names_eq_ok found' slots]
    | none =>
      have kind := isDirectory_of_names h h' found found' names
      have file : j.isDirectory = false := by
        rw [← h.isSome_names (h.resolve_stored found'), slots]
        rfl
      rw [Outline.names, Outline.names, listing, listing, found, found', ok_bind, ok_bind, directory, directory, file,
        kind.trans file]
      rfl

theorem bytes_congr (same : o'.shape path (Path.segments path) = o.shape path (Path.segments path))
    (file : o'.file? (Path.segments path) = o.file? (Path.segments path)) : o'.bytes path = o.bytes path := by
  rcases resolve_cases_of_shape same with ⟨e, lost, lost'⟩ | ⟨i, j, found, found', names⟩
  · rw [bytes, bytes, Outline.attributes, Outline.attributes, lost, lost']
    rfl
  · have kind := isDirectory_of_names h h' found found' names
    cases is : j.isDirectory with
    | true =>
      simp only [bytes, Outline.attributes, Outline.read, resolveFile, found, found', ok_bind, is, kind.trans is]
      rfl
    | false =>
      obtain ⟨view, content⟩ := h.file _ _ (h.resolve_stored found') is
      have whole : o.bytes path = .ok (bytesOf view j.size.toNat) :=
        bytes_eq_ok.mpr ⟨j, view, resolveFile_eq_ok.mpr ⟨found', is⟩, content, rfl⟩
      have there := resolved_file.mpr (bytes_eq_ok.mp whole)
      rw [whole, bytes_eq_ok]
      exact resolved_file.mp ⟨there.1, file.trans there.2⟩

/-- What is told of an entry besides its identifier follows from its facts and its kind. -/
theorem plain_congr (same : (o'.walk path (Path.segments path)).map o'.glance = (o.walk path (Path.segments path)).map o.glance) :
    (o'.attributes path).map Attributes.plain = (o.attributes path).map Attributes.plain := by
  rw [Outline.attributes, Outline.attributes, resolve, resolve]
  cases checked : Path.check path with
  | error e => rfl
  | ok _ =>
    rcases map_eq_map same with ⟨e, lost, lost'⟩ | ⟨i, j, found, found', shown⟩
    · rw [ok_bind, ok_bind, lost, lost']
    · have stored := h'.walk_stored found
      have stored' := h.walk_stored found'
      have is : i.isDirectory = j.isDirectory := by
        rw [← h'.isSome_names stored, shown, h.isSome_names stored']
      have kind := Inode.kind_congr is
      have facts : Facts.of i = Facts.of j := congrArg Glance.facts shown
      rw [found, found']
      change Except.ok _ = Except.ok _
      rw [← Facts.attributes_of (h'.inode _ _ stored).mode, ← Facts.attributes_of (h.inode _ _ stored').mode, facts, kind]

end congr
end Outline
end RecordFs
