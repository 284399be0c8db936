import RecordFs.Proofs.Store.Careful
import RecordFs.Proofs.Store.Halting
import RecordFs.Proofs.Volume.Starting
import RecordFs.Proofs.Volume.Walking
import RecordFs.Volume.Attributes

/-! How opening a volume goes on any store, whatever is in it. One with something under the fixed key is only
read, and the others get a root of their own. -/
namespace RecordFs
open Function Volume

theorem World.get_eq_some_iff {ρ : Type} [Stored ρ] {w : World} {id : Id} {r : ρ} : w.get ρ id = some r ↔
    ∃ bytes, w.find id = some bytes ∧ bytes.size = (Stored.kind ρ).size ∧ Stored.decode bytes = .ok r := by
  constructor
  · intro stored
    obtain ⟨bytes, found, read⟩ := find_of_get stored
    have size := Stored.size_of_read read
    exact ⟨bytes, found, size, Stored.read_of_size size ▸ read⟩
  · rintro ⟨bytes, found, size, decode⟩
    rw [get, found, Option.bind_some, Stored.read_of_size size, decode]
    rfl

/-- Loading replies just what is stored. -/
theorem Store.exists_yields_load_iff (faulty : Prop) (ρ : Type) [Stored ρ] (w : World) (id : Id) :
    ∃ v, Yields faulty (Store.load ρ id) w v ∧ ∀ r, v = .ok r ↔ w.get ρ id = some r := by
  cases stored : w.get ρ id with
  | some r => exact ⟨.ok r, yields_load stored, fun r' => by rw [Except.ok.injEq, Option.some.injEq]⟩
  | none =>
    obtain ⟨v, yields, found⟩ := Store.exists_yields_load faulty ρ w id
    exact ⟨v, yields, fun r => iff_of_false (fun ok => nomatch stored.symm.trans (found r ok)) nofun⟩

namespace Disk

/-- The bytes under the fixed key lead to a directory. -/
structure Leads (find : Id → Option ByteArray) (pointer : ByteArray) (root : Inode) : Prop where
  size : pointer.size = 16
  inode : ∃ bytes, find (Id.ofBytes pointer.data.toList) = some bytes ∧ bytes.size = 76 ∧
    Inode.field.read bytes.data.toList = root
  directory : root.mode &&& Mode.typeMask = Mode.directory

/-- What a new identifier must not be. -/
def Occupied (disk : Disk) (id : Id) : Prop := id = .rootPointer ∨ (disk.find? id).isSome

end Disk

namespace World
variable {faulty : Prop} {w : World} {pointer : ByteArray}

/-- The root that is loaded is the directory that the bytes under the fixed key lead to. -/
theorem exists_yields_loadRoot (faulty : Prop) (found : w.find .rootPointer = some pointer) :
    ∃ v, Yields faulty loadRoot w v ∧ ∀ root, v = .ok root ↔ Disk.Leads w.find pointer root := by
  obtain ⟨p, loadsPointer, named⟩ := Store.exists_yields_load_iff faulty RootPointer w .rootPointer
  have pointed (q : RootPointer) : p = .ok q ↔ pointer.size = 16 ∧ Id.ofBytes pointer.data.toList = q.root := by
    rw [named, get_eq_some_iff, found]
    constructor
    · rintro ⟨_, ⟨⟩, size, ⟨⟩⟩
      exact ⟨size, rfl⟩
    · rintro ⟨size, root⟩
      exact ⟨pointer, rfl, size, congrArg (fun id => Except.ok (RootPointer.mk id)) root⟩
  cases p with
  | error e =>
    refine ⟨.error e, .bind_error _ loadsPointer, fun root => iff_of_false nofun fun leads => ?_⟩
    cases (pointed ⟨_⟩).mpr ⟨leads.size, rfl⟩
  | ok p =>
    obtain ⟨size, root⟩ := (pointed p).mp rfl
    obtain ⟨v, loads, stored⟩ := Store.exists_yields_load_iff faulty Inode w p.root
    have checks (i : Inode) (_ : v = .ok i) : Yields faulty (do
        unless i.isDirectory do throw (.notADirectory "/")
        return i : Action Inode) w (if i.isDirectory then .ok i else .error (.notADirectory "/")) := by
      cases i.isDirectory with
      | true => exact .pure i
      | false => exact .bind_error _ (.throw _)
    refine ⟨_, .bind_ok loadsPointer (.bind loads checks), fun i => ?_⟩
    have directory (i : Inode) : i.isDirectory = true ↔ i.mode &&& Mode.typeMask = Mode.directory := by
      rw [Inode.isDirectory, decide_eq_true_eq, Inode.kind]
      split <;> simp_all
    rw [Outline.bind_eq_ok]
    simp only [stored, Outline.ite_eq_ok, get_eq_some_iff]
    constructor
    · rintro ⟨_, ⟨bytes, found, length, ⟨⟩⟩, is, ⟨⟩⟩
      exact ⟨size, ⟨bytes, root ▸ found, length, rfl⟩, (directory _).mp is⟩
    · rintro ⟨_, ⟨bytes, found, length, rfl⟩, is⟩
      exact ⟨_, ⟨bytes, root ▸ found, length, rfl⟩, (directory _).mpr is, rfl⟩

/-- On a store with something under the fixed key, opening takes what that leads to and puts nothing. -/
theorem exists_looks_openRoot (faulty : Prop) (closed : w.cache = none) (found : w.find .rootPointer = some pointer) :
    ∃ v : Except Failure Inode, (∀ root, v = .ok root ↔ Disk.Leads w.find pointer root) ∧ ∀ options now,
      ((openRoot options now).run.run none).Looks faulty w.toStock fun r =>
        r = (v.map fun _ => (), v.toOption.map fun root => ⟨root.self, root⟩) ∨
          faulty ∧ ∃ f, r.1 = .error (.ofFault f) := by
  obtain ⟨v, loads, leads⟩ := exists_yields_loadRoot faulty found
  refine ⟨v, leads, fun options now => ?_⟩
  have named : Yields faulty (Store.contains .rootPointer) w (.ok true) := by
    refine .bind_ok (Store.yields_get .rootPointer) ?_
    rw [found]
    exact .pure true
  rw [Yields, closed] at named loads
  apply (Access.looks_bind _ _ _ _).mpr
  apply Access.looks_mono _ named
  rintro ⟨r, c⟩ ⟨rfl, rfl | ⟨hf, f, rfl⟩⟩
  · apply (Access.looks_bind _ _ _ _).mpr
    apply Access.looks_mono _ loads
    rintro ⟨r, c⟩ ⟨rfl, rfl | ⟨hf, f, rfl⟩⟩
    · cases r with
      | ok root => exact .inl rfl
      | error e => exact .inl rfl
    · exact .inr ⟨hf, f, rfl⟩
  · exact .inr ⟨hf, f, rfl⟩

end World

namespace World
open Outline (newRoot)
variable {faulty : Prop} {w : World} {options : Options} {now : Int64}

/-- The records of a new root, the one that names it last. -/
def begun (find : Id → Option ByteArray) (options : Options) (now : Int64) (self data : Id) : Id → Option ByteArray :=
  update (update (update find data (some (Stored.encode (Directory.empty data))))
    self (some (Stored.encode (newRoot options now self data))))
    .rootPointer (some (Stored.encode (RootPointer.mk self)))

/-- On a store with nothing under the fixed key, opening makes a root there, or leaves that key alone. -/
theorem ensures_openRoot_of_unnamed (closed : w.cache = none) (unnamed : w.find .rootPointer = none)
    (used : w.taken .rootPointer) : Ensures faulty (openRoot options now) w fun r w' =>
      (∃ self data, r = .ok () ∧ ¬ w.taken self ∧ ¬ w.taken data ∧ self ≠ data ∧
        w'.find = begun w.find options now self data ∧ w'.cache = some ⟨self, newRoot options now self data⟩) ∨
      faulty ∧ (∃ f, r = .error (.ofFault f)) ∧ w'.find .rootPointer = none := by
  rw [openRoot, Store.contains, bind_assoc, ensures_bind]
  refine Store.ensures_get (fun hf f => .inr ⟨hf, ⟨f, rfl⟩, unnamed⟩) ?_
  simp only [unnamed, pure_bind, Option.isSome_none, Bool.false_eq_true, if_false]
  rw [makeRoot, bind_assoc, ensures_bind]
  refine Store.ensures_freshId fun self newSelf => ?_
  simp only
  rw [bind_assoc, ensures_bind]
  refine Store.ensures_freshId fun data newData => ?_
  have apart : self ≠ data := fun same => newData (same ▸ .inl rfl)
  have away : self ≠ .rootPointer := fun same => newSelf (same ▸ used)
  have awayData : data ≠ .rootPointer := fun same => newData (same ▸ .inr used)
  simp only
  rw [bind_assoc, ensures_bind]
  refine Store.ensures_save_of_apart (apart_of_closed closed _) (fun hf f => .inr ⟨hf, ⟨f, rfl⟩, unnamed⟩) ?_
  have closed₁ : (((w.take self).take data).save data (Directory.empty data)).cache = none :=
    cache_save_of_none closed _ _
  have unnamed₁ : (((w.take self).take data).save data (Directory.empty data)).find .rootPointer = none := by
    rw [find_save_of_ne _ _ awayData.symm]
    exact unnamed
  simp only
  rw [bind_assoc, ensures_bind]
  refine Store.ensures_save_of_apart (apart_of_closed closed₁ _) (fun hf f => .inr ⟨hf, ⟨f, rfl⟩, unnamed₁⟩) ?_
  have closed₂ := cache_save_of_none closed₁ self (newRoot options now self data)
  have unnamed₂ : ((((w.take self).take data).save data (Directory.empty data)).save self
      (newRoot options now self data)).find .rootPointer = none := by
    rw [find_save_of_ne _ _ away.symm]
    exact unnamed₁
  simp only
  rw [bind_assoc, ensures_bind]
  refine Store.ensures_save_of_apart (apart_of_closed closed₂ _) (fun hf f => .inr ⟨hf, ⟨f, rfl⟩, unnamed₂⟩) ?_
  have closed₃ := cache_save_of_none closed₂ .rootPointer (RootPointer.mk self)
  simp only
  rw [pure_bind, ensures_bind]
  refine ensures_attachRoot closed₃ (.inl ⟨self, data, rfl, newSelf, ?_, apart, rfl, rfl⟩)
  exact fun old => newData (.inr old)

end World

namespace World
variable {faulty : Prop} {w : World} {root : Root} {d : Directory}

theorem yields_attributes_root (cached : w.cache = some root) :
    Yields faulty (attributes "/") w (.ok (.ofInode root.inode)) := by
  refine .bind_ok (.bind_ok (.ofExcept (.ok ())) ?_) (.pure _)
  refine .bind_ok (a := root.inode) ?_ (.pure _)
  refine .bind_ok (a := some root) ?_ (.pure _)
  exact ⟨rfl, .inl (congrArg Except.ok cached)⟩

theorem yields_names_root (cached : w.cache = some root) (is : root.inode.isDirectory = true)
    (table : w.get Directory root.inode.data = some d) :
    Yields faulty (names "/") w (.ok ("." :: ".." :: d.occupied.map (·.name))) := by
  refine .bind_ok (a := d) (.bind_ok (a := root.inode) (.bind_ok (.ofExcept (.ok ())) ?_) ?_) (.pure _)
  · refine .bind_ok (a := root.inode) ?_ (.pure _)
    refine .bind_ok (a := some root) ?_ (.pure _)
    exact ⟨rfl, .inl (congrArg Except.ok cached)⟩
  · rw [Lookup.directory, if_pos is]
    exact Store.yields_load table

end World

end RecordFs
