import RecordFs.Proofs.Volume.Elsewhere
import RecordFs.Proofs.Volume.Reachable

/-! What can be seen of a volume while the store does not fail: what its entries are, and what its
files hold. -/
namespace RecordFs
open Volume

namespace Session
variable {α : Type}

/-- What an action replies when nothing fails. -/
def observe (s : Session) (action : Action α) : Except Failure α := (s.calm.perform action).1

/-- The bytes of a file, read from its start over all its size. -/
def content (s : Session) (path : String) : Except Failure ByteArray :=
  s.observe do
    let attributes ← attributes path
    read path 0 attributes.size.toNat

end Session

namespace Outline
variable {o : Outline} {path : String} {c : ByteArray}

def bytes (o : Outline) (path : String) : Except Failure ByteArray := do
  let attributes ← o.attributes path
  o.read path 0 attributes.size.toNat

/-- A path that is not too long gives the file that it leads to. -/
theorem resolved_file : (Path.check path = .ok () ∧ o.file? (Path.segments path) = some c) ↔
    ∃ i view, o.resolveFile path = .ok i ∧ o.content i.data = some view ∧ bytesOf view i.size.toNat = c := by
  rw [file?_eq_some path]
  constructor
  · rintro ⟨checked, i, view, walked, file, content, same⟩
    exact ⟨i, view, resolveFile_eq_ok.mpr ⟨resolve_eq_ok.mpr ⟨checked, walked⟩, file⟩, content, same⟩
  · rintro ⟨i, view, found, content, same⟩
    obtain ⟨resolved, file⟩ := resolveFile_eq_ok.mp found
    obtain ⟨checked, walked⟩ := resolve_eq_ok.mp resolved
    exact ⟨checked, i, view, walked, file, content, same⟩

theorem bytes_eq_ok : o.bytes path = .ok c ↔ ∃ i view, o.resolveFile path = .ok i ∧ o.content i.data = some view ∧
    bytesOf view i.size.toNat = c := by
  rw [bytes, bind_eq_ok]
  constructor
  · rintro ⟨a, told, read⟩
    obtain ⟨i, resolved, rfl⟩ := attributes_eq_ok.mp told
    obtain ⟨j, view, found, content, rfl⟩ := read_eq_ok.mp read
    have same := (resolveFile_eq_ok.mp found).1
    rw [resolved] at same
    cases same
    exact ⟨i, view, found, content, by simp [Attributes.ofInode]⟩
  · rintro ⟨i, view, found, content, rfl⟩
    refine ⟨.ofInode i, attributes_eq_ok.mpr ⟨i, (resolveFile_eq_ok.mp found).1, rfl⟩, read_eq_ok.mpr ⟨i, view, found, content, ?_⟩⟩
    simp [Attributes.ofInode]

end Outline

namespace Session
variable {α : Type} {s : Session} {action : Action α} {v : Except Failure α} {path : String} {c : ByteArray}

theorem not_faulty_calm (s : Session) : ¬ s.calm.disk.Faulty := by
  rintro (⟨_, fails⟩ | ⟨_, fails⟩) <;> cases fails

theorem observe_of_yields (h : Yields False action s.world v) : s.observe action = v := by
  have calm : Yields False action s.calm.world v := h
  exact (Disk.run_looks calm s.not_faulty_calm).2.elim id fun ⟨never, _⟩ => never.elim

theorem content_eq (h : s.world.Sound) (path : String) : s.content path = s.world.outline.bytes path :=
  observe_of_yields (.bind (h.yields_attributes path) fun a _ => h.yields_read path 0 a.size.toNat)

theorem content_eq_ok (h : s.world.Sound) : s.content path = .ok c ↔
    ∃ i view, s.world.outline.resolveFile path = .ok i ∧ s.world.outline.content i.data = some view ∧
      bytesOf view i.size.toNat = c := by
  rw [content_eq h, Outline.bytes_eq_ok]

theorem content_eq_ok_iff_file? (h : s.world.Sound) : s.content path = .ok c ↔
    Path.check path = .ok () ∧ s.world.outline.file? (Path.segments path) = some c := by
  rw [content_eq_ok h, Outline.resolved_file]

variable {t u : Session}

/-- What paths lead to depends on what is stored and on the root in memory. -/
theorem outline_eq (find : t.disk.find? = s.disk.find?) (cache : t.cache = s.cache) : t.world.outline = s.world.outline := by
  have stock (find : Id → Option ByteArray) (cache : Cache) (taken taken' : Id → Prop) :
      World.outline ⟨⟨find, taken⟩, cache⟩ = World.outline ⟨⟨find, taken'⟩, cache⟩ := rfl
  change World.outline ⟨⟨t.disk.find?, _⟩, t.cache⟩ = World.outline ⟨⟨s.disk.find?, _⟩, s.cache⟩
  rw [find, cache]
  exact stock ..

/-- The same records, and the same root in memory. -/
structure Kept (s t : Session) : Prop where
  find : t.disk.find? = s.disk.find?
  cache : t.cache = s.cache

namespace Kept

theorem refl (s : Session) : s.Kept s := ⟨rfl, rfl⟩

theorem trans (h : s.Kept t) (k : t.Kept u) : s.Kept u := ⟨k.find.trans h.find, k.cache.trans h.cache⟩

theorem outline (h : s.Kept t) : t.world.outline = s.world.outline := outline_eq h.find h.cache

theorem content_eq (h : s.Kept t) (sound : s.world.Sound) (sound' : t.world.Sound) (path : String) :
    t.content path = s.content path := by
  rw [Session.content_eq sound', Session.content_eq sound, h.outline]

end Kept
end Session
end RecordFs
