import RecordFs.Proofs.Content.Asking
import RecordFs.Proofs.Store.QuietRuns
import RecordFs.Proofs.Volume.Reachable

/-! A file as one array of the greatest size that a file can have. Reading, writing and clearing do on
the records what they would do on the array, wherever the blocks of the file stand, as long as none of
its records has the key of another. No inode is needed for it: a file is given by its map here. -/
namespace RecordFs
open Content (overlaid Known Keyed Written Cleared EnsuresAlloc)

/-- What a file consists of, and the root. -/
inductive Part where
  | root
  | map
  | table
  | block (k : Fin maxBlocks)

namespace Layout
variable {l : Layout} {w : World} {mapId : Id}

/-- The key of a part of the file, when it has that part. -/
def key? (l : Layout) (mapId : Id) (cache : Cache) : Part → Option Id
  | .root => cache.map Root.key
  | .map => some mapId
  | .table => l.map.indirect.named?
  | .block k => (l.slot k).named?

/-- No two parts have the same key. -/
def Scattered (l : Layout) (mapId : Id) (cache : Cache) : Prop :=
  ∀ p q id, l.key? mapId cache p = some id → l.key? mapId cache q = some id → p = q

/-- Records of different kinds are under different keys, so those of a file that is held are. -/
theorem Held.scattered (held : l.Held w) (keyed : Keyed l mapId w) (apart : w.Apart mapId) :
    l.Scattered mapId w.cache := by
  have kinds {k : Fin maxBlocks} (block : l.slot k ≠ .zero) (table : l.map.indirect ≠ .zero) :
      l.slot k ≠ l.map.indirect := by
    intro same
    obtain ⟨b, stored⟩ := held.blocks k block
    have none := World.get_none_of_kind (held.table_of_ne table) (show Stored.kind Block ≠ _ by decide)
    rw [← same, stored] at none
    cases none
  obtain ⟨-, slots, indirect⟩ := keyed
  obtain ⟨⟨-, distinct, apart_slot⟩, -, apart_table⟩ := held
  intro p q id hp hq
  cases p <;> cases q <;>
    simp only [key?, Id.named?_eq_some, Option.map_eq_some_iff, Option.some.injEq, World.Apart] at * <;> grind

end Layout

namespace Content

variable {l : Layout} {w : World} {mapId : Id} {data : ByteArray} {offset : Nat}

/-- The outcome of a write when no call fails, with the map as it then is in memory. -/
def Laid (l : Layout) (mapId : Id) (w : World) (data : ByteArray) (offset : Nat) (r : Except Failure Nat)
    (map' : BlockMap) (w' : World) : Prop :=
  ∃ l', Written False l mapId w data offset l' r w' ∧
    ∀ n, r = .ok n → map' = l'.map ∧ w'.find mapId = some (Stored.encode l'.map)

theorem ensures_writeMap (closed : w.Closed) (held : l.Held w) (keyed : Keyed l mapId w) (apart : w.Apart mapId)
    (fits : offset + data.size ≤ maxFileSize) :
    Access.Ensures False ((writeMap mapId l.map data offset).run w.cache) w.toStock fun r s =>
      Laid l mapId w data offset r.1.1 r.1.2 { s with cache := r.2 } :=
  (Access.ensures_bind _ _ w.toStock _).mpr (ensures_writeBlocks closed held keyed apart fits False.elim)

end Content

/-- A record of this size stands under the key. -/
def Disk.Keeps (disk : Disk) (id : Id) (kind : Kind) : Prop := ∃ bytes, disk.find? id = some bytes ∧ bytes.size = kind.size

theorem World.get_of_decode {ρ : Type} [Stored ρ] {w : World} {id : Id} {bytes : ByteArray} {r : ρ}
    (found : w.find id = some bytes) (size : bytes.size = (Stored.kind ρ).size) (decode : Stored.decode bytes = .ok r) :
    w.get ρ id = some r := by
  rw [get, found, Option.bind_some, Stored.read_of_size size, decode]
  rfl

namespace Session
variable {s t : Session} {mapId : Id} {map : BlockMap}

def layout (s : Session) (map : BlockMap) : Layout := s.world.layout map

/-- The bytes of the file with this map, as far as a file can reach. -/
def view (s : Session) (map : BlockMap) : Nat → UInt8 := (s.layout map).view s.world

/-- All that the map names is stored at its size, under keys of their own. -/
structure Holds (s : Session) (mapId : Id) (map : BlockMap) : Prop where
  table : map.indirect ≠ .zero → s.disk.Keeps map.indirect .indirectMap
  blocks : ∀ k, (s.layout map).slot k ≠ .zero → s.disk.Keeps ((s.layout map).slot k) .dataBlock
  scattered : (s.layout map).Scattered mapId s.cache

/-- What a new identifier must not be. -/
def InUse (s : Session) (mapId id : Id) : Prop :=
  id = .zero ∨ id = mapId ∨ (s.disk.find? id).isSome ∨ ∃ root, s.cache = some root ∧ root.key = id

/-- What stands in the store, where these identifiers are taken. -/
def withTaken (s : Session) (taken : Id → Prop) : World := ⟨⟨s.disk.find?, taken⟩, s.cache⟩

namespace Holds
variable (h : s.Holds mapId map)
include h

theorem held (taken : Id → Prop) : (s.layout map).Held (s.withTaken taken) where
  blocks k nonzero := by
    obtain ⟨bytes, found, size⟩ := h.blocks k nonzero
    exact ⟨⟨bytes, size⟩, World.get_of_decode found size (dif_pos size)⟩
  distinct j k nonzero same := by
    have key {k : Fin maxBlocks} (nonzero : (s.layout map).slot k ≠ .zero) :
        (s.layout map).key? mapId s.cache (.block k) = some ((s.layout map).slot k) :=
      Id.named?_eq_some.mpr ⟨nonzero, rfl⟩
    cases h.scattered _ _ _ (key nonzero) (same ▸ key (same ▸ nonzero))
    rfl
  apart k nonzero root cached same := by
    cases h.scattered .root (.block k) root.key (Option.map_eq_some_iff.mpr ⟨root, cached, rfl⟩)
      (Id.named?_eq_some.mpr ⟨same ▸ nonzero, same.symm⟩)
  table := by
    change if map.indirect = .zero then _ else _
    split
    · rename_i zero
      exact if_pos zero
    · rename_i nonzero
      obtain ⟨bytes, found, size⟩ := h.table nonzero
      have stored : (s.withTaken taken).get IndirectMap map.indirect = some _ := World.get_of_decode found size rfl
      have table : (s.layout map).table = _ := if_neg nonzero
      rw [table]
      exact stored.trans (congrArg some (congrArg (Option.getD · _) stored).symm)
  apart_table nonzero root cached same := by
    cases h.scattered .root .table root.key (Option.map_eq_some_iff.mpr ⟨root, cached, rfl⟩)
      (Id.named?_eq_some.mpr ⟨same ▸ nonzero, same.symm⟩)

theorem apart (taken : Id → Prop) : (s.withTaken taken).Apart mapId := by
  intro root cached same
  cases h.scattered .root .map mapId (Option.map_eq_some_iff.mpr ⟨root, cached, same⟩) rfl

theorem keyed : Keyed (s.layout map) mapId (s.withTaken (s.InUse mapId)) where
  used := .inr (.inl rfl)
  slots k nonzero same := by
    cases h.scattered .map (.block k) mapId rfl (Id.named?_eq_some.mpr ⟨same ▸ nonzero, same.symm⟩)
  indirect nonzero same := by
    cases h.scattered .map .table mapId rfl (Id.named?_eq_some.mpr ⟨same ▸ nonzero, same.symm⟩)

end Holds

theorem closed_withTaken (s : Session) (mapId : Id) : (s.withTaken (s.InUse mapId)).Closed where
  zero := .inl rfl
  stored _ _ found := .inr (.inr (.inl (Option.isSome_of_mem found)))
  root r cached := .inr (.inr (.inr ⟨r, cached, rfl⟩))

/-- The records of a layout that is held are those of its map. -/
theorem holds_of_held {l : Layout} {taken : Id → Prop} (held : l.Held (s.withTaken taken))
    (keyed : Keyed l mapId (s.withTaken taken)) (apart : (s.withTaken taken).Apart mapId) : s.Holds mapId l.map := by
  have layout : s.layout l.map = l := (World.layout_held held :)
  have keeps {ρ : Type} [Stored ρ] {id : Id} {r : ρ} (stored : (s.withTaken taken).get ρ id = some r) :
      s.disk.Keeps id (Stored.kind ρ) :=
    have ⟨bytes, found, read⟩ := World.find_of_get stored
    ⟨bytes, found, Stored.size_of_read read⟩
  constructor
  · exact fun nonzero => keeps (held.table_of_ne nonzero)
  · rw [layout]
    intro k nonzero
    obtain ⟨b, stored⟩ := held.blocks k nonzero
    exact keeps stored
  · rw [layout]
    exact held.scattered keyed apart

/-- What is ensured where no call can fail holds of a run in which none failed. -/
theorem quiet_of_ensures {α : Type} {taken : Id → Prop} {Q : Except Failure α → World → Prop} {action : Action α}
    {r : Except Failure α} (ensures : Ensures False action (s.withTaken taken) Q) (ran : s.perform action = (r, t))
    (quiet : s.disk.Quiet t.disk) (asks : Asks 0 action) : ∃ taken', Q r (t.withTaken taken') := by
  have fresh := Disk.fresh_of_frugal (asks s.cache) s.disk taken
  cases ran
  exact ⟨_, Disk.run_ensures_of_quiet ensures quiet fresh⟩

/-- A file is a flat array: what is read is what the array has there, a write lays its bytes over the array,
and clearing does what writing zeros does, but stores nothing new. -/
structure FlatArray (s : Session) (mapId : Id) (map : BlockMap) : Prop where
  read : ∀ {offset length : Nat} {r : Except Failure ByteArray} {t : Session},
    s.perform (Content.read map offset length) = (r, t) → s.disk.Quiet t.disk →
      r = .ok (bytesOf (fun i => s.view map (offset + i)) (min (offset + length) maxFileSize - offset)) ∧
        t.disk.find? = s.disk.find?
  write : ∀ {data : ByteArray} {offset : Nat} {r : Except Failure Nat} {map' : BlockMap} {t : Session},
    s.disk.perform (Content.writeMap mapId map data offset) s.cache = ((r, map'), t.cache, t.disk) →
    offset + data.size ≤ maxFileSize → s.disk.Quiet t.disk → t.disk.Fresh (s.InUse mapId) s.disk.issued →
      r = .ok data.size ∧ t.view map' = overlaid (s.view map) data offset (offset + data.size) ∧
        t.disk.find? mapId = some (Stored.encode map') ∧ t.Holds mapId map'
  clear : ∀ {start stop : Nat} {r : Except Failure Unit} {t : Session},
    s.perform (Content.clear map start stop) = (r, t) → s.disk.Quiet t.disk →
      r = .ok () ∧
        (∀ n, t.view map n = if start ≤ n ∧ n < min stop maxFileSize then 0 else s.view map n) ∧
        (let length := min stop maxFileSize - start
         t.view map = overlaid (s.view map) (zeros length) start (start + length)) ∧
        (∀ id, (t.disk.find? id).isSome = (s.disk.find? id).isSome) ∧
        t.disk.find? mapId = s.disk.find? mapId ∧ t.disk.find? map.indirect = s.disk.find? map.indirect ∧
        t.layout map = s.layout map ∧ t.Holds mapId map

namespace Holds
variable (h : s.Holds mapId map)
include h

theorem read {offset length : Nat} {r : Except Failure ByteArray}
    (ran : s.perform (Content.read map offset length) = (r, t)) (quiet : s.disk.Quiet t.disk) :
    r = .ok (bytesOf (fun i => s.view map (offset + i)) (min (offset + length) maxFileSize - offset)) ∧
      t.disk.find? = s.disk.find? := by
  have held := h.held fun _ => True
  have yields : Yields False (Content.read map offset length) (s.withTaken fun _ => True) _ :=
    Content.yields_read held offset length
  have bound : min (min (offset + length) Content.countMax) maxFileSize = min (offset + length) maxFileSize := by
    rw [Nat.min_assoc, Nat.min_eq_right (show maxFileSize ≤ Content.countMax by decide)]
  rw [bound] at yields
  have ensures := yields.ensures (Q := fun r w => r = .ok (bytesOf (fun i => s.view map (offset + i))
    (min (offset + length) maxFileSize - offset)) ∧ w.find = s.disk.find?) nofun ⟨rfl, rfl⟩
  obtain ⟨_, ends⟩ := quiet_of_ensures ensures ran quiet (Asks.readSpans map _ _ _)
  exact ends

/-- The outcome of clearing, told of the store. -/
theorem clear {start stop : Nat} {r : Except Failure Unit} (ran : s.perform (Content.clear map start stop) = (r, t))
    (quiet : s.disk.Quiet t.disk) : t.Holds mapId map ∧ t.layout map = s.layout map ∧
      ∃ taken', Cleared False (s.layout map) start (min stop maxFileSize) (s.withTaken (s.InUse mapId)) r (t.withTaken taken') := by
  have held := h.held (s.InUse mapId)
  obtain ⟨taken', cleared⟩ := quiet_of_ensures (Content.ensures_clear held start stop) ran quiet
    (Asks.clearSpans map _ _)
  have keyed : Keyed (s.layout map) mapId (t.withTaken taken') :=
    ⟨cleared.taken ▸ h.keyed.used, h.keyed.slots, h.keyed.indirect⟩
  have apart := (World.apart_congr cleared.touches.cache).mpr (h.apart _)
  exact ⟨holds_of_held cleared.held keyed apart, World.layout_held cleared.held, taken', cleared⟩

theorem write {data : ByteArray} {offset : Nat} {r : Except Failure Nat} {map' : BlockMap}
    (ran : s.disk.perform (Content.writeMap mapId map data offset) s.cache = ((r, map'), t.cache, t.disk))
    (fits : offset + data.size ≤ maxFileSize) (quiet : s.disk.Quiet t.disk)
    (fresh : t.disk.Fresh (s.InUse mapId) s.disk.issued) :
    r = .ok data.size ∧ t.view map' = overlaid (s.view map) data offset (offset + data.size) ∧
      t.disk.find? mapId = some (Stored.encode map') ∧ t.Holds mapId map' := by
  have ensures : Access.Ensures False ((Content.writeMap mapId map data offset).run s.cache) ⟨s.disk.find?, s.InUse mapId⟩
      fun r u => Content.Laid (s.layout map) mapId (s.withTaken (s.InUse mapId)) data offset r.1.1 r.1.2 ⟨u, r.2⟩ :=
    Content.ensures_writeMap (s.closed_withTaken mapId) (h.held _) h.keyed (h.apart _) fits
  have run : ((Content.writeMap mapId map data offset).run s.cache).run Disk.backend s.disk =
      (((r, map'), t.cache), t.disk) := by
    simp only [Disk.perform, Prod.mk.injEq] at ran
    exact Prod.ext (Prod.ext ran.1 ran.2.1) ran.2.2
  obtain ⟨taken, l, written, stored⟩ : ∃ taken,
      Content.Laid (s.layout map) mapId (s.withTaken (s.InUse mapId)) data offset r map' (t.withTaken taken) := by
    have ends := Disk.run_ensures_of_quiet ensures (by rwa [run]) (by rwa [run])
    rw [run] at ends
    exact ⟨_, ends⟩
  obtain ⟨ok, view⟩ := written.result.resolve_right fun torn => torn.1
  obtain ⟨rfl, found⟩ := stored _ ok
  have layout : t.layout l.map = l := (World.layout_held written.held :)
  have keyed := Content.keyed_of_stored written.closed written.held written.map
  have holds := holds_of_held written.held keyed ((World.apart_congr written.cache).mpr (h.apart _))
  refine ⟨ok, ?_, found, holds⟩
  rw [Session.view, layout]
  exact view

/-- Clearing stores nothing but blocks that are there. -/
theorem find_clear {start stop : Nat} {r : Except Failure Unit} (ran : s.perform (Content.clear map start stop) = (r, t))
    (quiet : s.disk.Quiet t.disk) (id : Id) : t.disk.find? id = s.disk.find? id ∨
      id ≠ .zero ∧ (∃ k, (s.layout map).slot k = id) ∧ (t.disk.find? id).isSome ∧ (s.disk.find? id).isSome := by
  obtain ⟨-, -, taken', cleared⟩ := h.clear ran quiet
  refine (cleared.touches.find id).imp_right ?_
  rintro ⟨nonzero, ⟨k, slot⟩, b, stored⟩
  obtain ⟨bytes, found, -⟩ := World.find_of_get stored
  obtain ⟨old, found₀, -⟩ := h.blocks k (slot ▸ nonzero)
  exact ⟨nonzero, ⟨k, slot⟩, Option.isSome_of_mem found, Option.isSome_of_mem (slot ▸ found₀)⟩

theorem view_clear {start stop : Nat} {r : Except Failure Unit} (ran : s.perform (Content.clear map start stop) = (r, t))
    (quiet : s.disk.Quiet t.disk) (n : Nat) :
    t.view map n = if start ≤ n ∧ n < min stop maxFileSize then 0 else s.view map n := by
  obtain ⟨-, layout, taken', cleared⟩ := h.clear ran quiet
  rw [Session.view, layout]
  split
  · rename_i within
    exact (cleared.result.resolve_right nofun).2 n within.1 within.2
  · rename_i beyond
    exact cleared.outside n beyond

theorem flatArray : s.FlatArray mapId map where
  read := h.read
  write := h.write
  clear {start stop r t} ran quiet := by
    obtain ⟨holds, layout, taken', cleared⟩ := h.clear ran quiet
    have find := h.find_clear ran quiet
    have view := h.view_clear ran quiet
    have none {id : Id} (apart : ∀ k, id ≠ .zero → (s.layout map).slot k ≠ id) : t.disk.find? id = s.disk.find? id :=
      (find id).resolve_right fun ⟨nonzero, ⟨k, slot⟩, _⟩ => apart k nonzero slot
    refine ⟨(cleared.result.resolve_right nofun).1, view, ?_, fun id => ?_, none fun k nonzero same => ?_,
      none fun k nonzero same => ?_, layout, holds⟩
    · funext n
      rw [view, overlaid, byteAt_zeros]
      have same : (start ≤ n ∧ n < min stop maxFileSize) ↔
          start ≤ n ∧ n < start + (min stop maxFileSize - start) := by omega
      simp only [same]
    · rcases find id with same | ⟨-, -, now, before⟩
      · rw [same]
      · rw [now, before]
    · exact h.keyed.slots k (same ▸ nonzero) same.symm
    · cases h.scattered (.block k) .table map.indirect (Id.named?_eq_some.mpr ⟨nonzero, same⟩)
        (Id.named?_eq_some.mpr ⟨nonzero, rfl⟩)

end Holds

theorem slot_empty (s : Session) (k : Fin maxBlocks) : (s.layout .empty).slot k = .zero := by
  rw [layout, World.layout_empty, World.slot_empty]

/-- A map that names nothing needs nothing but its own key. -/
theorem holds_empty (apart : ∀ root, s.cache = some root → root.key ≠ mapId) : s.Holds mapId .empty := by
  have held : (s.layout .empty).Held (s.withTaken fun _ => True) :=
    { blocks k nonzero := absurd (s.slot_empty k) nonzero
      distinct j _ nonzero := absurd (s.slot_empty j) nonzero
      apart k nonzero := absurd (s.slot_empty k) nonzero
      table := rfl
      apart_table nonzero := absurd rfl nonzero }
  have keyed : Keyed (s.layout .empty) mapId (s.withTaken fun _ => True) :=
    ⟨trivial, fun k nonzero => absurd (s.slot_empty k) nonzero, fun nonzero => absurd rfl nonzero⟩
  exact holds_of_held held keyed apart

/-- The first two identifiers of a disk that counts are not in use by a file under the ninth. -/
theorem fresh_of_counting {disk disk' : Disk} (like : disk.Like disk') (counts : disk.supply = Disk.counting.supply)
    (few : disk'.issued = 2) (absent : ∀ n < 2, disk.find? (disk.supply n) = none) :
    disk'.Fresh (Session.InUse ⟨none, disk⟩ (.ofNat 9)) 0 := by
  have supplied : disk'.Supplied := Disk.supplied_of_counting (like.supply.trans counts) (by rw [few]; decide)
  refine ⟨fun n _ before => ?_, fun m _ hm n _ hn => supplied.distinct m hm n hn⟩
  have nonzero := supplied.ne_zero n before
  rw [few] at before
  rw [like.supply] at nonzero ⊢
  have other : disk.supply n ≠ .ofNat 9 := by
    rw [counts]
    obtain rfl | rfl : n = 0 ∨ n = 1 := by omega
    · decide
    · decide
  rintro (zero | same | stored | ⟨_, cached, _⟩)
  · exact nonzero zero
  · exact other same
  · change (disk.find? (disk.supply n)).isSome at stored
    rw [absent n before] at stored
    cases stored
  · cases cached

/-- One byte is written behind the blocks that a map names itself, and read back with the zero before it. -/
theorem flatArray_written : ∃ (map : BlockMap) (t : Session),
    Disk.counting.perform (Content.writeMap (.ofNat 9) .empty ⟨#[7]⟩ (directBlocks * blockSize)) none =
      ((.ok 1, map), t.cache, t.disk) ∧
    (t.perform (Content.read map (directBlocks * blockSize - 1) 2)).1 = .ok ⟨#[0, 7]⟩ := by
  let s : Session := ⟨none, .counting⟩
  have holds : s.Holds (.ofNat 9) .empty := holds_empty nofun
  let action := Content.writeMap (.ofNat 9) .empty ⟨#[7]⟩ (directBlocks * blockSize)
  have like : Disk.Like .counting (Disk.counting.perform action none).2.2 := Disk.like_run (action.run none) .counting
  have issued : (Disk.counting.perform action none).2.2.issued = 2 := rfl
  generalize ran : Disk.counting.perform action none = out at like issued
  obtain ⟨⟨r, map⟩, cache, disk⟩ := out
  change Disk.Like .counting disk at like
  change disk.issued = 2 at issued
  have fresh : disk.Fresh (s.InUse (.ofNat 9)) 0 := fresh_of_counting like rfl issued fun _ _ => rfl
  obtain ⟨rfl, view, -, holds'⟩ :=
    holds.flatArray.write (t := ⟨cache, disk⟩) ran (by decide) ⟨fun _ _ _ => rfl, fun _ _ _ => rfl⟩ fresh
  refine ⟨map, ⟨cache, disk⟩, rfl, ?_⟩
  generalize reads : perform ⟨cache, disk⟩ (Content.read map (directBlocks * blockSize - 1) 2) = out
  have read := (holds'.flatArray.read (r := out.1) (t := out.2) reads
    ⟨fun _ _ _ => congrFun like.getFails _, fun _ _ _ => congrFun like.putFails _⟩).1
  refine read.trans (congrArg Except.ok (ext_byteAt (size_bytesOf _ _) fun i within => ?_))
  have zero : s.view .empty (directBlocks * blockSize - 1) = 0 :=
    Layout.view_of_zero (k := ⟨11, by decide⟩) (by decide) (s.slot_empty _)
  rw [byteAt_bytesOf, view]
  obtain rfl | rfl : i = 0 ∨ i = 1 := by
    change i < 2 at within
    omega
  · exact zero
  · rfl

end Session
end RecordFs
