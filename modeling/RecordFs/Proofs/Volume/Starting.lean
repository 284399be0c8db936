import RecordFs.Proofs.Volume.Entries
import RecordFs.Volume.Open

/-! A new volume: the root and its table are stored before the record that names the root, and then
the root is taken into memory. -/
namespace RecordFs
open Function Volume

namespace Outline

/-- The root that a new volume gets. -/
def newRoot (options : Options) (now : Int64) (self data : Id) : Inode :=
  .new self data (Mode.directory ||| (options.rootPermissions &&& Mode.permissionMask)) options.uid options.gid now

/-- An empty store shows nothing. -/
def blank : Outline := ⟨none, fun _ => none, fun _ => none, fun _ => none⟩

/-- What a new volume shows, on a store of this outline. -/
def begun (o : Outline) (root : Inode) : Outline :=
  { (o.setTable (.empty root.data)).setInode root with root := some root }

end Outline

namespace World
open Outline

variable {faulty : Prop} {w : World} {i : Inode}

theorem get_save_pointer {ρ : Type} [Stored ρ] (id : Id) (room : w.Room .rootPointer .rootPointer)
    (different : Stored.kind ρ ≠ .rootPointer) :
    (w.save .rootPointer (RootPointer.mk id)).get ρ = w.get ρ :=
  get_save_of_room room _ different

theorem target_save_pointer (id : Id) (room : w.Room .rootPointer .rootPointer) :
    (w.save .rootPointer (RootPointer.mk id)).target = update w.target .root (some id) := by
  have layout := layout_of_get (get_save_pointer id room (by decide) (ρ := IndirectMap))
  funext p
  by_cases here : p = .root
  · rw [here, update_self, target, get_save, update_self, Option.map_some]
  · rw [update_of_ne here]
    cases p with
    | root => exact absurd rfl here
    | data x => rw [target, target, get_save_pointer id room (by decide)]
    | slot x k => rw [target, target, get_save_pointer id room (by decide)]
    | block x k => rw [target, target, get_save_pointer id room (by decide), layout]
    | indirect x => rw [target, target, get_save_pointer id room (by decide)]

/-- The record that names the root is stored once the root is there. -/
theorem Sound.add_pointer (h : w.Sound) (none : w.find .rootPointer = none) (used : w.taken .rootPointer)
    (stored : w.get Inode i.self = some i) (is : i.isDirectory = true)
    (unnamed : ∀ q, w.target q ≠ some i.self) (closed : w.cache = Option.none) :
    (w.save .rootPointer (RootPointer.mk i.self)).Sound ∧
      (w.save .rootPointer (RootPointer.mk i.self)).outline = w.outline := by
  have room := room_of_none none .rootPointer
  have target := target_save_pointer i.self room
  have cache := cache_save_of_apart (h.apart_of_room room (by decide)) (RootPointer.mk i.self)
  have content := content_of_get (get_save_pointer i.self room (by decide)) (get_save_pointer i.self room (by decide))
    (get_save_pointer i.self room (by decide))
  have keeps : Keeps w (w.save .rootPointer (RootPointer.mk i.self)) := {
    inode := fun id j stored => ⟨j, by rw [get_save_pointer i.self room (by decide), stored], rfl⟩
    table := kept_of_eq (get_save_pointer i.self room (by decide))
    map := kept_of_eq (get_save_pointer i.self room (by decide))
    block := kept_of_eq (get_save_pointer i.self room (by decide))
    indirect := kept_of_eq (get_save_pointer i.self room (by decide)) }
  have suits : (w.save .rootPointer (RootPointer.mk i.self)).Suits .root i.self :=
    ⟨i, by rw [get_save_pointer i.self room (by decide), stored], is⟩
  refine ⟨h.evolve keeps (h.closed.save used _) (fun p x => named_of_update target (.inr ⟨suits, unnamed⟩))
    ?inode ?table ?root, ?outline⟩
  case inode =>
    rw [get_save_pointer i.self room (by decide)]
    exact h.inode
  case table =>
    rw [get_save_pointer i.self room (by decide)]
    exact h.table
  case root =>
    rw [cache, closed]
    exact nofun
  case outline =>
    rw [World.outline, cache, get_save_pointer i.self room (by decide), get_save_pointer i.self room (by decide),
      content]
    rfl

/-- The root that is named becomes the one in memory. -/
theorem Sound.attach (h : w.Sound) (named : w.target .root = some i.self)
    (stored : w.get Inode i.self = some i) : Sound { w with cache := some ⟨i.self, i⟩ } where
  closed := ⟨h.closed.zero, h.closed.stored, fun r cached => by
    cases cached
    exact h.taken named⟩
  suited := h.suited
  unique := h.unique
  inode := h.inode
  table := h.table
  root r cached := by
    cases cached
    exact ⟨named, stored⟩

theorem ensures_attachRoot (closed : w.cache = none) {Q : Except Failure Bool → World → Prop}
    (answers : Q (.ok true) { w with cache := some ⟨i.self, i⟩ }) :
    Ensures faulty (Store.attachRoot i) w Q := by
  obtain ⟨s, cache⟩ := w
  cases closed
  exact answers

variable (options : Options) (now : Int64)

/-- A root that is ready to be taken into memory, or a fault that left none. -/
def Made (faulty : Prop) (w : World) (r : Except Failure Inode) (w' : World) : Prop :=
  w'.Sound ∧ w'.cache = none ∧ ((∃ self data, r = .ok (newRoot options now self data) ∧
    w.outline.New (newRoot options now self data) ∧ w'.target .root = some self ∧
    w'.get Inode self = some (newRoot options now self data) ∧
    w'.outline = (w.outline.setTable (.empty data)).setInode (newRoot options now self data)) ∨
    faulty ∧ ∃ f, r = .error (.ofFault f))

private theorem Sound.ensures_saveRoot (h : w.Sound) (closed : w.cache = none) (blank : w.find .rootPointer = none)
    (used : w.taken .rootPointer) {self data : Id} (fresh : w.Fresh self) (freshData : w.Fresh data)
    (apart : self ≠ data) (away : self ≠ .rootPointer) (awayData : data ≠ .rootPointer) :
    Ensures faulty (do
      Store.save data (Directory.empty data)
      Store.saveInode (newRoot options now self data)
      Store.save .rootPointer (RootPointer.mk self)
      return newRoot options now self data) w (Made options now faulty w) := by
  have kind : (newRoot options now self data).kind = .directory := Inode.kind_of_mode (k := .directory) rfl
  have is : (newRoot options now self data).isDirectory = true := Inode.isDirectory_iff.mpr kind
  have typed : (newRoot options now self data).Typed := Inode.typed_of_mode (k := .directory) rfl
  obtain ⟨awaits, outline⟩ := h.saveEmpty (i := newRoot options now self data) fresh freshData apart
  rw [kind] at awaits outline
  have closed₁ := cache_save_of_none closed data (Directory.empty data)
  rw [ensures_bind]
  refine Store.ensures_save_of_apart (apart_of_closed closed _) (fun hf f => ⟨h, closed, .inr ⟨hf, f, rfl⟩⟩) ?_
  obtain ⟨sound₂, outline₂⟩ := awaits.sound.add_inode awaits.fresh.none awaits.fresh.used
    ⟨rfl, typed, fun _ => Nat.zero_le _⟩ awaits.unnamed awaits.data
  have closed₂ := cache_save_of_none closed₁ self (newRoot options now self data)
  simp only
  rw [ensures_bind]
  refine Store.ensures_save_of_apart (apart_of_closed closed₁ _)
    (fun hf f => ⟨awaits.sound, closed₁, .inr ⟨hf, f, rfl⟩⟩) ?_
  have stored₂ : ((w.save data (Directory.empty data)).save self (newRoot options now self data)).get Inode self =
      some (newRoot options now self data) := by rw [get_save, update_self]
  have blank₂ : ((w.save data (Directory.empty data)).save self (newRoot options now self data)).find .rootPointer =
      none := by rw [find_save_of_ne _ _ away.symm, find_save_of_ne _ _ awayData.symm, blank]
  obtain ⟨sound₃, outline₃⟩ := sound₂.add_pointer (i := newRoot options now self data) blank₂ used stored₂ is
    (unnamed_save_inode awaits.fresh.none awaits.fresh.unnamed apart) closed₂
  simp only
  rw [ensures_bind]
  refine Store.ensures_save_of_apart (apart_of_closed closed₂ _) (fun hf f => ⟨sound₂, closed₂, .inr ⟨hf, f, rfl⟩⟩) ?_
  refine ⟨sound₃, cache_save_of_none closed₂ _ _, .inl ⟨self, data, rfl, ⟨fresh.unused, freshData.unused, apart⟩, ?_, ?_, ?_⟩⟩
  · exact (congrFun (target_save_pointer self (room_of_none blank₂ _)) .root).trans (update_self ..)
  · exact (congrFun (congrArg Outline.inode outline₃) self).trans stored₂
  · exact outline₃.trans (outline₂.trans (congrArg (setInode · _) outline))

theorem Sound.ensures_makeRoot (h : w.Sound) (closed : w.cache = none) (blank : w.find .rootPointer = none)
    (used : w.taken .rootPointer) : Ensures faulty (makeRoot options now) w (Made options now faulty w) := by
  rw [makeRoot, ensures_bind]
  refine Store.ensures_freshId fun self newSelf => ?_
  simp only
  rw [ensures_bind]
  refine Store.ensures_freshId fun data newData => ?_
  have apart : self ≠ data := fun same => newData (same ▸ .inl rfl)
  have away : self ≠ .rootPointer := fun same => newSelf (same ▸ used)
  have awayData : data ≠ .rootPointer := fun same => newData (same ▸ .inr used)
  exact ((h.take self).take data).ensures_saveRoot options now closed blank (.inr (.inr used))
    ((h.fresh_take newSelf).take data) ((h.take self).fresh_take newData) apart away awayData

/-- A volume is opened on a store that names no root. -/
theorem Sound.ensures_openRoot (h : w.Sound) (closed : w.cache = none) (blank : w.find .rootPointer = none)
    (used : w.taken .rootPointer) : Ensures faulty (openRoot options now) w fun r w' => w'.Sound ∧
      ((∃ self data, r = .ok () ∧ w.outline.New (newRoot options now self data) ∧
        w'.outline = begun w.outline (newRoot options now self data)) ∨
        faulty ∧ (∃ f, r = .error (.ofFault f)) ∧ w'.cache = none) := by
  rw [openRoot, Store.contains, bind_assoc, ensures_bind]
  refine Store.ensures_get (fun hf f => ⟨h, .inr ⟨hf, ⟨f, rfl⟩, closed⟩⟩) ?_
  simp only [blank, pure_bind, Option.isSome_none, Bool.false_eq_true, if_false]
  rw [ensures_bind]
  refine (h.ensures_makeRoot options now closed blank used).mono ?_
  rintro _ w' ⟨sound, closed', ⟨self, data, rfl, rooted, named, stored, outline⟩ | ⟨hf, f, rfl⟩⟩
  · simp only
    rw [ensures_bind]
    refine ensures_attachRoot closed' ⟨sound.attach named stored, .inl ⟨self, data, rfl, rooted, ?_⟩⟩
    exact congrArg (fun o : Outline => { o with root := some (newRoot options now self data) }) outline
  · exact ⟨sound, .inr ⟨hf, ⟨f, rfl⟩, closed'⟩⟩

end World
end RecordFs
