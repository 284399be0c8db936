import Mathlib.Logic.Function.Basic
import RecordFs.Proofs.Record.Reading
import RecordFs.Store.Action

/-! What a store holds at one moment, seen as functions: the bytes under each key, the
identifiers that are taken, the root in memory, and the records that the bytes spell. -/
namespace RecordFs
open Function

/-- The bytes under each key, and the identifiers that will not be handed out any more. -/
@[ext] structure Stock where
  find : Id → Option ByteArray
  taken : Id → Prop

/-- A stock and the root in memory. -/
@[ext] structure World extends Stock where
  cache : Cache

namespace Stock

def put (s : Stock) (id : Id) (bytes : ByteArray) : Stock := { s with find := update s.find id (some bytes) }

def take (s : Stock) (id : Id) : Stock := { s with taken := fun x => x = id ∨ s.taken x }

end Stock

/-- The cache after bytes have been stored: those under the root's key are taken into memory. -/
def Cache.refresh (cache : Cache) (id : Id) (bytes : ByteArray) : Cache :=
  cache.map fun root =>
    if root.key = id then { root with inode := (Stored.read Inode bytes).toOption.getD root.inode } else root

namespace World
variable {ρ σ : Type} [Stored ρ] [Stored σ]

/-- The record under a key, when the bytes there are one of its kind. -/
def get (ρ : Type) [Stored ρ] (w : World) (id : Id) : Option ρ :=
  (w.find id).bind fun bytes => (Stored.read ρ bytes).toOption

def put (w : World) (id : Id) (bytes : ByteArray) : World :=
  { w.toStock.put id bytes with cache := w.cache.refresh id bytes }

def save (w : World) (id : Id) (record : ρ) : World := w.put id (Stored.encode record)

def take (w : World) (id : Id) : World := { w.toStock.take id with cache := w.cache }

@[simp] theorem find_put (w : World) (id : Id) (bytes : ByteArray) :
    (w.put id bytes).find = update w.find id (some bytes) := rfl

@[simp] theorem cache_put (w : World) (id : Id) (bytes : ByteArray) :
    (w.put id bytes).cache = w.cache.refresh id bytes := rfl

theorem get_of_find_eq {w w' : World} {id x : Id} (h : w'.find x = w.find id) : w'.get ρ x = w.get ρ id := by
  rw [get, get, h]

theorem get_of_find_none {w : World} {id : Id} (h : w.find id = none) : w.get ρ id = none := by
  rw [get, h]
  rfl

theorem find_of_get {w : World} {id : Id} {r : ρ} (h : w.get ρ id = some r) :
    ∃ bytes, w.find id = some bytes ∧ Stored.read ρ bytes = .ok r := by
  obtain ⟨bytes, found, read⟩ := Option.bind_eq_some_iff.mp h
  refine ⟨bytes, found, ?_⟩
  cases hr : Stored.read ρ bytes with
  | ok r' =>
    rw [hr] at read
    exact congrArg Except.ok (Option.some.inj read)
  | error e =>
    rw [hr] at read
    cases read

/-- The bytes under one key are a record of one kind only. -/
theorem get_none_of_kind {w : World} {id : Id} {r : ρ} (h : w.get ρ id = some r)
    (different : Stored.kind σ ≠ Stored.kind ρ) : w.get σ id = none := by
  obtain ⟨bytes, found, read⟩ := find_of_get h
  have size := Stored.size_of_read read
  rw [get, found, Option.bind_some, Stored.read_of_size_ne]
  · rfl
  · rw [size]
    exact fun same => different (Kind.size_injective same).symm

theorem get_save_of_readsBack (w : World) (id : Id) {r : ρ} (h : Stored.ReadsBack r) :
    (w.save id r).get ρ = update (w.get ρ) id (some r) := by
  funext x
  by_cases same : x = id
  · subst same
    rw [update_self, get, save, find_put, update_self, Option.bind_some, h]
    rfl
  · rw [update_of_ne same, get, get, save, find_put, update_of_ne same]

@[simp] theorem get_save [Stored.Exact ρ] (w : World) (id : Id) (r : ρ) :
    (w.save id r).get ρ = update (w.get ρ) id (some r) :=
  get_save_of_readsBack w id (Stored.Exact.reads_back r)

/-- Storing a record of another kind takes away what was there. -/
theorem get_save_of_kind_ne [Stored.Sized ρ] (w : World) (id : Id) (r : ρ)
    (different : Stored.kind σ ≠ Stored.kind ρ) : (w.save id r).get σ = update (w.get σ) id none := by
  funext x
  by_cases same : x = id
  · subst same
    rw [update_self, get, save, find_put, update_self, Option.bind_some]
    exact Stored.read_encode_of_kind_ne r different
  · rw [update_of_ne same, get, get, save, find_put, update_of_ne same]

/-- Storing a record where none of another kind was leaves those of that kind as they were. -/
theorem get_save_of_none [Stored.Sized ρ] (w : World) (id : Id) (r : ρ)
    (different : Stored.kind σ ≠ Stored.kind ρ) (none : w.get σ id = none) :
    (w.save id r).get σ = w.get σ := by
  rw [get_save_of_kind_ne w id r different, ← none, update_eq_self]

/-- Nothing but a record of the kind can stand under the key. -/
def Room (w : World) (κ : Kind) (id : Id) : Prop := ∀ bytes, w.find id = some bytes → bytes.size = κ.size

theorem room_of_get {w : World} {id : Id} {r : ρ} (h : w.get ρ id = some r) : w.Room (Stored.kind ρ) id := by
  intro bytes found
  obtain ⟨bytes', found', read⟩ := find_of_get h
  rw [found'] at found
  cases found
  exact Stored.size_of_read read

theorem room_of_none {w : World} {id : Id} (h : w.find id = none) (κ : Kind) : w.Room κ id := by
  intro bytes found
  rw [h] at found
  cases found

theorem get_none_of_room {w : World} {id : Id} {κ : Kind} (h : w.Room κ id) (different : Stored.kind σ ≠ κ) :
    w.get σ id = none := by
  cases stored : w.get σ id with
  | none => rfl
  | some r =>
    obtain ⟨bytes, found, read⟩ := find_of_get stored
    have size := Stored.size_of_read read
    exact absurd (Kind.size_injective (size.symm.trans (h bytes found))) different

theorem get_save_of_room [Stored.Sized ρ] {w : World} {id : Id} (h : w.Room (Stored.kind ρ) id) (r : ρ)
    (different : Stored.kind σ ≠ Stored.kind ρ) : (w.save id r).get σ = w.get σ :=
  get_save_of_none w id r different (get_none_of_room h different)

/-- What is stored or is the root's key will not be handed out, and zero neither. -/
structure Closed (w : World) : Prop where
  zero : w.taken .zero
  stored : ∀ id bytes, w.find id = some bytes → w.taken id
  root : ∀ r, w.cache = some r → w.taken r.key

theorem Closed.taken_of_get {w : World} (h : w.Closed) {id : Id} {r : ρ} (stored : w.get ρ id = some r) :
    w.taken id := by
  obtain ⟨bytes, found, _⟩ := find_of_get stored
  exact h.stored id bytes found

theorem Closed.find_of_new {w : World} (h : w.Closed) {id : Id} (new : ¬ w.taken id) : w.find id = none := by
  cases found : w.find id with
  | none => rfl
  | some bytes => exact absurd (h.stored id bytes found) new

theorem Closed.take {w : World} (h : w.Closed) (id : Id) : (w.take id).Closed :=
  ⟨.inr h.zero, fun x bytes found => .inr (h.stored x bytes found), fun r cached => .inr (h.root r cached)⟩

theorem Closed.save {w : World} (h : w.Closed) {id : Id} (taken : w.taken id) (r : ρ) : (w.save id r).Closed := by
  refine ⟨h.zero, fun x bytes found => ?_, fun root cached => ?_⟩
  · rw [World.save, find_put] at found
    by_cases same : x = id
    · exact same ▸ taken
    · rw [update_of_ne same] at found
      exact h.stored x bytes found
  · rw [World.save, cache_put, Cache.refresh, Option.map_eq_some_iff] at cached
    obtain ⟨old, held, rfl⟩ := cached
    have key := h.root old held
    split <;> exact key

/-- An identifier that is not the root's key. -/
def Apart (w : World) (id : Id) : Prop := ∀ root, w.cache = some root → root.key ≠ id

theorem apart_of_closed {w : World} (closed : w.cache = none) (id : Id) : w.Apart id := by
  intro root cached
  rw [closed] at cached
  cases cached

theorem cache_save_of_apart {w : World} {id : Id} (h : w.Apart id) (r : ρ) : (w.save id r).cache = w.cache := by
  rw [save, cache_put, Cache.refresh]
  cases hc : w.cache with
  | none => rfl
  | some root => simp [h root hc]

theorem cache_save_of_none {w : World} (detached : w.cache = none) (id : Id) (r : ρ) : (w.save id r).cache = none :=
  (cache_save_of_apart (apart_of_closed detached id) r).trans detached

theorem apart_congr {w w' : World} {id : Id} (same : w'.cache = w.cache) : w'.Apart id ↔ w.Apart id := by
  rw [Apart, Apart, same]

theorem find_save_of_ne (w : World) {id x : Id} (r : ρ) (h : x ≠ id) : (w.save id r).find x = w.find x := by
  rw [save, find_put, update_of_ne h]

/-- What is stored is untouched when something is stored under a key that is new. -/
theorem get_save_of_new {w : World} {id x : Id} {r : ρ} (none : w.find id = none) (r' : σ) (stored : w.get ρ x = some r) :
    (w.save id r').get ρ x = some r := by
  have other : x ≠ id := by
    rintro rfl
    rw [get_of_find_none none] at stored
    cases stored
  rw [get_of_find_eq (find_save_of_ne w r' other), stored]

end World
end RecordFs
