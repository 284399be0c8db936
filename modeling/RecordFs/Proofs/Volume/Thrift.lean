import RecordFs.Proofs.Content.Admitting
import RecordFs.Proofs.Content.Thrift
import RecordFs.Proofs.Store.Dangling
import RecordFs.Proofs.Volume.FlatArray

/-! A write of a file asks for what it needs and no more, and it never stores a map before what the map has
in it. No inode is needed for it: a file is given by its map here. -/
namespace RecordFs
open Content (Sparing Wrote Reaches finishing)

/-- A block beyond those of the map itself is in an indirect map. -/
theorem Layout.Held.named_of_beyond {l : Layout} {w : World} (held : l.Held w) {k : Fin maxBlocks}
    (beyond : directBlocks ≤ k.val) (nonzero : l.slot k ≠ .zero) : l.map.indirect ≠ .zero := by
  intro zero
  have at_ : Content.place k = .inr _ := dif_neg (Nat.not_lt.mpr beyond)
  rw [Layout.slot_of_beyond at_, held.table_of_zero zero] at nonzero
  exact nonzero (Vector.get_replicate ..)

namespace Session
variable {s t : Session} {mapId : Id} {map map' : BlockMap} {start stop : Nat} {log : List Exchange}

/-- The identifier was handed out between the two states. -/
def Drew (s t : Session) (id : Id) : Prop := ∃ n, s.disk.issued ≤ n ∧ n < t.disk.issued ∧ t.disk.supply n = id

/-- The range meets a block that is empty in the file. -/
def Fills (s : Session) (map : BlockMap) (start stop : Nat) (k : Fin maxBlocks) : Prop :=
  (s.layout map).slot k = .zero ∧ Meets start stop k

/-- What a write of the bytes from `start` to `stop` has asked of the store, and what it has left there. -/
structure Thrifty (s : Session) (mapId : Id) (map : BlockMap) (start stop : Nat) (log : List Exchange) (t : Session)
    (map' : BlockMap) : Prop where
  filled : ∀ k, s.Fills map start stop k → s.Drew t ((t.layout map').slot k)
  kept : ∀ k, ¬ s.Fills map start stop k → (t.layout map').slot k = (s.layout map).slot k
  /-- There is an indirect map where there was none, just when the range reaches so far. -/
  named : map.indirect = .zero → Reaches start stop → s.Drew t map'.indirect
  unnamed : ¬ (map.indirect = .zero ∧ Reaches start stop) → map'.indirect = map.indirect
  /-- No other identifier was asked for. -/
  drawn : ∀ id, s.Drew t id → (∃ k, s.Fills map start stop k ∧ (t.layout map').slot k = id) ∨
    map.indirect = .zero ∧ Reaches start stop ∧ map'.indirect = id
  /-- The blocks of the range are put, each once, then the indirect map if a slot of it was filled, then the map. -/
  puts : ∃ blocks tables, log.filterMap Exchange.stored? = blocks ++ tables ++ [(mapId, Stored.encode map')] ∧
    (∃ ks : List (Fin maxBlocks), ks.Pairwise (· < ·) ∧ (∀ k, k ∈ ks ↔ Meets start stop k) ∧
      blocks.map (·.1) = ks.map (t.layout map').slot) ∧
    (∀ put ∈ blocks, put.2.size = blockSize) ∧
    ((∃ k, directBlocks ≤ k.val ∧ s.Fills map start stop k) →
      tables = [(map'.indirect, Stored.encode (t.layout map').table)]) ∧
    ((¬ ∃ k, directBlocks ≤ k.val ∧ s.Fills map start stop k) → tables = [])
  /-- A block is got only if the file had it and not all of it is written. -/
  gets : ∀ id reply, .get id reply ∈ log → id ≠ .zero ∧ (id = map.indirect ∧ Reaches start stop ∨
    ∃ k, (s.layout map).slot k = id ∧ Meets start stop k ∧ ¬ Covers start stop k)
  /-- At no moment is there a reference that leads nowhere, but for those elsewhere that did so before. -/
  published : ∀ before after, log.filterMap Exchange.stored? = before ++ after → ∀ key id,
    Dangles (putAll s.disk.find? before) key id →
      Dangles s.disk.find? key id ∧ key ≠ mapId ∧ (key = map'.indirect → key = .zero)
  elsewhere : ∀ id, id ≠ mapId → (id = map'.indirect → ¬ ∃ k, directBlocks ≤ k.val ∧ s.Fills map start stop k) →
    (∀ k, Meets start stop k → (t.layout map').slot k ≠ id) → t.disk.find? id = s.disk.find? id
  /-- The file is there as its map says, with nothing in two places. -/
  holds : t.Holds mapId map'

/-- What is taken after a write: what was in use, and what was handed out. -/
def afterwards (s t : Session) (mapId : Id) : World := t.withTaken fun id => s.InUse mapId id ∨ s.Drew t id

section wrote
variable {start stop : Nat} {fits : stop ≤ maxFileSize} {l : Layout} {a : Content.Allocation} {before : List Exchange}
  (h : s.Holds mapId map) (fresh : ∀ id, s.Drew t id → ¬ s.InUse mapId id) (held : l.Held (s.afterwards t mapId))
  (grown : Layout.Grown (s.layout map) l (s.withTaken (s.InUse mapId)) (s.afterwards t mapId))
  (sparing : Sparing (s.layout map) (s.withTaken (s.InUse mapId)) (spans start stop fits) l a before (s.afterwards t mapId))

include grown in
theorem drew_slot {k : Fin maxBlocks} (zero : (s.layout map).slot k = .zero) (nonzero : l.slot k ≠ .zero) : s.Drew t (l.slot k) := by
  rcases grown.slots k with same | ⟨_, new, used⟩
  · exact absurd (same.trans zero) nonzero
  · exact used.resolve_left new

include grown in
theorem drew_indirect (zero : map.indirect = .zero) (nonzero : l.map.indirect ≠ .zero) : s.Drew t l.map.indirect := by
  rcases grown.indirect with same | ⟨_, new, used⟩
  · exact absurd (same.trans zero) nonzero
  · exact used.resolve_left new

include fresh sparing in
theorem drawn_of_sparing {id : Id} (drew : s.Drew t id) : (∃ k, s.Fills map start stop k ∧ l.slot k = id) ∨
    map.indirect = .zero ∧ Reaches start stop ∧ l.map.indirect = id := by
  have new := fresh id drew
  have nonzero : id ≠ .zero := fun zero => new (.inl zero)
  rcases sparing.taken id (.inr drew) with used | ⟨k, zero, same⟩ | ⟨zero, same⟩
  · exact absurd used new
  · exact .inl ⟨k, ⟨zero, sparing.meets zero (same ▸ nonzero)⟩, same⟩
  · refine .inr ⟨zero, ?_, same⟩
    by_contra none
    have kept := sparing.indirect_eq fun both => none both.2
    exact nonzero (same.symm.trans (kept.trans zero))

include grown sparing in
theorem kept_of_sparing {k : Fin maxBlocks} (unfilled : ¬ s.Fills map start stop k) : l.slot k = (s.layout map).slot k := by
  by_contra differs
  have zero := ((grown.slots k).resolve_left differs).1
  rw [zero] at differs
  exact unfilled ⟨zero, sparing.meets zero differs⟩

section asked
include sparing

/-- Nothing is got but the indirect map, and blocks of which a part is written. -/
theorem gets_of_sparing {id : Id} {reply : Reply (Option ByteArray)}
    (member : .get id reply ∈ before ++ finishing mapId l a.changed) : id ≠ .zero ∧
      (id = map.indirect ∧ Reaches start stop ∨ ∃ k, (s.layout map).slot k = id ∧ Meets start stop k ∧ ¬ Covers start stop k) := by
  have cuts : Cuts stop start (spans start stop fits) := cuts_spans fits
  have member := (List.mem_append.mp member).resolve_right (Content.get_not_mem_finishing l a.changed id reply)
  obtain ⟨nonzero, ⟨same, span, member, beyond⟩ | ⟨span, member, part, slot⟩⟩ := sparing.gets id reply member
  · exact ⟨nonzero, .inl ⟨same, span.index, beyond, Content.meets_of_span fits member⟩⟩
  · exact ⟨nonzero, .inr ⟨span.index, slot, Content.meets_of_span fits member, mt (cuts.length_eq_iff member).mpr part⟩⟩

/-- The blocks are put in the order of the range. -/
theorem blocks_of_sparing : ∃ ks : List (Fin maxBlocks), ks.Pairwise (· < ·) ∧ (∀ k, k ∈ ks ↔ Meets start stop k) ∧
    (before.filterMap Exchange.stored?).map (·.1) = ks.map l.slot := by
  have cuts : Cuts stop start (spans start stop fits) := cuts_spans fits
  refine ⟨(spans start stop fits).map (·.index), List.pairwise_map.mpr cuts.sorted, fun k => ?_, ?_⟩
  · rw [List.mem_map]
    exact Content.exists_span_iff fits k
  · rw [sparing.puts, List.map_map]
    rfl

/-- Nothing is put but the blocks of the range, the indirect map if a slot of it was filled, and the map. -/
theorem not_put_of_sparing {id : Id} (other : id ≠ mapId)
    (untabled : id = l.map.indirect → ¬ ∃ k, directBlocks ≤ k.val ∧ s.Fills map start stop k)
    (unmet : ∀ k, Meets start stop k → l.slot k ≠ id) :
    id ∉ ((before ++ finishing mapId l a.changed).filterMap Exchange.stored?).map (·.1) := by
  rw [List.filterMap_append, Content.stored_finishing, List.map_append, List.map_append, sparing.puts]
  simp only [List.mem_append, not_or]
  refine ⟨?_, ?_, mt List.mem_singleton.mp other⟩
  · intro member
    obtain ⟨span, member, slot⟩ := List.mem_map.mp member
    exact unmet span.index (Content.meets_of_span fits member) slot
  · split
    · rename_i changed
      exact mt List.mem_singleton.mp fun same => untabled same (sparing.changed_iff.mp changed)
    · exact List.not_mem_nil

end asked

section puts
include h grown sparing

/-- The blocks of the file are stored when all of the range are put. -/
theorem isSome_slot {k : Fin maxBlocks} (nonzero : l.slot k ≠ .zero) :
    (putAll s.disk.find? (before.filterMap Exchange.stored?) (l.slot k)).isSome := by
  apply isSome_putAll
  -- A block that is new is in the range, so it has been put; all others were there at the start.
  by_cases zero : (s.layout map).slot k = .zero
  · obtain ⟨span, member, rfl⟩ := (Content.exists_span_iff fits k).mpr (sparing.meets zero nonzero)
    rw [sparing.puts]
    exact .inr (List.mem_map_of_mem member)
  · obtain ⟨bytes, found, _⟩ := h.blocks k zero
    rw [grown.slot_of_ne zero]
    exact .inl (Option.isSome_of_mem found)

/-- An indirect map that is new has been put before the map. -/
theorem isSome_indirect {tables : List (Id × ByteArray)} (tabled : a.changed = true → tables = [(l.map.indirect, Stored.encode l.table)])
    (nonzero : l.map.indirect ≠ .zero) :
    (putAll (putAll s.disk.find? (before.filterMap Exchange.stored?)) tables l.map.indirect).isSome := by
  apply isSome_putAll
  by_cases zero : map.indirect = .zero
  · obtain ⟨_, span, member, beyond⟩ := sparing.indirect.resolve_left fun same => nonzero (same.trans zero)
    have empty : (s.layout map).slot span.index = .zero := by
      by_contra some
      exact (h.held fun _ => True).named_of_beyond beyond some zero
    rw [tabled (sparing.changed.mpr ⟨span, member, beyond, empty⟩)]
    exact .inr (List.mem_singleton.mpr rfl)
  · obtain ⟨bytes, found, _⟩ := h.table zero
    rw [grown.indirect_of_ne zero]
    exact .inl (isSome_putAll (.inl (Option.isSome_of_mem found)))

theorem allGrounded : AllGrounded s.disk.find? ((before ++ finishing mapId l a.changed).filterMap Exchange.stored?) := by
  have blocks : AllGrounded s.disk.find? (before.filterMap Exchange.stored?) := by
    refine .of_not_refers fun put member id refers => ?_
    obtain ⟨b, encoded⟩ := sparing.blocks put member
    exact not_refers_block b (encoded ▸ refers)
  have table : Grounded (putAll s.disk.find? (before.filterMap Exchange.stored?)) (Stored.encode l.table) := by
    intro id nonzero refers
    obtain ⟨i, rfl⟩ := refers_table.mp refers
    obtain ⟨k, at_⟩ := Layout.place_surjective (.inr i)
    rw [← Layout.slot_of_beyond at_] at nonzero ⊢
    exact isSome_slot h grown sparing nonzero
  have last {tables : List (Id × ByteArray)}
      (tabled : a.changed = true → tables = [(l.map.indirect, Stored.encode l.table)]) :
      Grounded (putAll (putAll s.disk.find? (before.filterMap Exchange.stored?)) tables) (Stored.encode l.map) := by
    intro id nonzero refers
    rcases refers_map.mp refers with rfl | ⟨i, rfl⟩
    · exact isSome_indirect h grown sparing tabled nonzero
    · obtain ⟨k, at_⟩ := Layout.place_surjective (.inl i)
      rw [← Layout.slot_of_direct at_] at nonzero ⊢
      exact isSome_putAll (.inl (isSome_slot h grown sparing nonzero))
  rw [List.filterMap_append, Content.stored_finishing, AllGrounded.append_iff, AllGrounded.append_iff]
  refine ⟨blocks, ?_, last fun changed => if_pos changed, trivial⟩
  split
  · exact ⟨table, trivial⟩
  · trivial

end puts

end wrote

section start
variable (h : s.Holds mapId map)
include h

/-- Nothing that the map names is missing at the start. -/
theorem Holds.not_dangles_map (stored : s.disk.find? mapId = some (Stored.encode map)) (id : Id) :
    ¬ Dangles s.disk.find? mapId id := by
  rintro ⟨nonzero, nothing, bytes, found, refers⟩
  cases stored.symm.trans found
  rcases refers_map.mp refers with rfl | ⟨i, rfl⟩
  · obtain ⟨bytes, found, _⟩ := h.table nonzero
    cases nothing.symm.trans found
  · obtain ⟨k, at_⟩ := Layout.place_surjective (.inl i)
    have slot : (s.layout map).slot k = map.direct.get i := Layout.slot_of_direct at_
    rw [← slot] at nonzero nothing
    obtain ⟨bytes, found, _⟩ := h.blocks k nonzero
    cases nothing.symm.trans found

theorem Holds.not_dangles_table (named : map.indirect ≠ .zero) (id : Id) : ¬ Dangles s.disk.find? map.indirect id := by
  rintro ⟨nonzero, nothing, bytes, found, refers⟩
  obtain ⟨_, same, table⟩ := World.find_of_get ((h.held fun _ => True).table_of_ne named)
  cases found.symm.trans same
  rcases refers with ⟨_, other, _⟩ | ⟨_, again, i, rfl⟩
  · exact absurd (Kind.size_injective ((Stored.size_of_read table).symm.trans (Stored.size_of_read other))) (by decide)
  · cases table.symm.trans again
    obtain ⟨k, at_⟩ := Layout.place_surjective (.inr i)
    rw [← Layout.slot_of_beyond at_] at nonzero nothing
    obtain ⟨bytes, found, _⟩ := h.blocks k nonzero
    cases nothing.symm.trans found

end start

section published
variable {start stop : Nat} {fits : stop ≤ maxFileSize} {l : Layout} {a : Content.Allocation} {before : List Exchange}
  (h : s.Holds mapId map) (stored : s.disk.find? mapId = some (Stored.encode map))
  (fresh : ∀ id, s.Drew t id → ¬ s.InUse mapId id)
  (grown : Layout.Grown (s.layout map) l (s.withTaken (s.InUse mapId)) (s.afterwards t mapId))
  (sparing : Sparing (s.layout map) (s.withTaken (s.InUse mapId)) (spans start stop fits) l a before (s.afterwards t mapId))
include h stored fresh grown sparing

/-- What leads nowhere on the way did so at the start, when both maps of the file were whole. -/
theorem dangled_of_sparing {first rest : List (Id × ByteArray)} {key id : Id}
    (same : (before ++ finishing mapId l a.changed).filterMap Exchange.stored? = first ++ rest)
    (dangles : Dangles (putAll s.disk.find? first) key id) :
    Dangles s.disk.find? key id ∧ key ≠ mapId ∧ (key = l.map.indirect → key = .zero) := by
  have grounded := allGrounded h grown sparing
  rw [same] at grounded
  obtain ⟨dangled, _⟩ := (AllGrounded.append_iff.mp grounded).1.dangles dangles
  refine ⟨dangled, ?_, ?_⟩
  · rintro rfl
    exact h.not_dangles_map stored id dangled
  · rintro rfl
    by_contra named
    by_cases zero : map.indirect = .zero
    · obtain ⟨_, _, bytes, found, _⟩ := dangled
      exact fresh _ (drew_indirect grown zero named) (.inr (.inr (.inl (Option.isSome_of_mem found))))
    · rw [grown.indirect_of_ne zero] at dangled
      exact h.not_dangles_table zero id dangled

end published

namespace Holds
variable {data : ByteArray} {offset : Nat} {fits : offset + data.size ≤ maxFileSize} {r : Except Failure Nat}
  (h : s.Holds mapId map) (stored : s.disk.find? mapId = some (Stored.encode map)) (fresh : ∀ id, s.Drew t id → ¬ s.InUse mapId id)
  (left : t.disk.find? = putAll s.disk.find? (log.filterMap Exchange.stored?))
  (wrote : Wrote (s.layout map) mapId (s.withTaken (s.InUse mapId)) data offset fits r map' log (s.afterwards t mapId))
include h stored fresh left wrote

theorem thrifty_of_wrote : s.Thrifty mapId map offset (offset + data.size) log t map' := by
  obtain ⟨l, a, before, written, -, rfl, sparing, rfl⟩ := wrote
  have layout : t.layout l.map = l := (World.layout_held written.held :)
  have grown := written.grown
  have keyed := Content.keyed_of_stored written.closed written.held written.map
  refine {
    filled := fun k => ?filled
    kept := fun k unfilled => ?kept
    named := ?named
    unnamed := sparing.indirect_eq
    drawn := fun id drew => ?drawn
    puts := ?puts
    gets := fun id reply member => gets_of_sparing sparing member
    published := fun first rest same key id => dangled_of_sparing h stored fresh grown sparing same
    elsewhere := fun id other untabled unmet => ?elsewhere
    holds := holds_of_held written.held keyed ((World.apart_congr written.cache).mpr (h.apart _)) }
  case filled =>
    rintro ⟨zero, meets⟩
    rw [layout]
    exact drew_slot grown zero (sparing.nonzero meets)
  case kept =>
    rw [layout]
    exact kept_of_sparing grown sparing unfilled
  case named =>
    rintro zero ⟨k, beyond, meets⟩
    exact drew_indirect grown zero (written.held.named_of_beyond beyond (sparing.nonzero meets))
  case drawn =>
    rw [layout]
    exact drawn_of_sparing fresh sparing drew
  case puts =>
    rw [layout]
    refine ⟨before.filterMap Exchange.stored?, if a.changed then [(l.map.indirect, Stored.encode l.table)] else [], ?_,
      blocks_of_sparing sparing, fun put member => ?_, fun filled => if_pos (sparing.changed_iff.mpr filled),
      fun unfilled => if_neg (mt sparing.changed_iff.mp unfilled)⟩
    · rw [List.filterMap_append, Content.stored_finishing, List.append_assoc]
    · obtain ⟨b, encoded⟩ := sparing.blocks put member
      rw [encoded]
      exact b.size_bytes
  case elsewhere =>
    rw [layout] at unmet
    rw [left]
    exact putAll_of_not_mem (not_put_of_sparing sparing other untabled unmet)

end Holds

/-- A write of a stored file, where no call of the store failed and new identifiers were handed out. -/
theorem Holds.thrifty {data : ByteArray} {offset : Nat} {r : Except Failure Nat} (h : s.Holds mapId map)
    (stored : s.disk.find? mapId = some (Stored.encode map))
    (ran : s.disk.perform (Content.writeMap mapId map data offset) s.cache = ((r, map'), t.cache, t.disk))
    (fits : offset + data.size ≤ maxFileSize) (quiet : s.disk.Quiet t.disk)
    (fresh : t.disk.Fresh (s.InUse mapId) s.disk.issued) :
    r = .ok data.size ∧ s.Thrifty mapId map offset (offset + data.size)
      (((Content.writeMap mapId map data offset).run s.cache).exchanges Disk.backend s.disk) t map' := by
  have run : ((Content.writeMap mapId map data offset).run s.cache).run Disk.backend s.disk =
      (((r, map'), t.cache), t.disk) := by
    simp only [Disk.perform, Prod.mk.injEq] at ran
    exact Prod.ext (Prod.ext ran.1 ran.2.1) ran.2.2
  have left := Disk.find?_run ((Content.writeMap mapId map data offset).run s.cache) s.disk
  rw [run] at left
  let Q (r : (Except Failure Nat × BlockMap) × Cache) (log : List Exchange) (u : Stock) : Prop :=
    Wrote (s.layout map) mapId (s.withTaken (s.InUse mapId)) data offset fits r.1.1 r.1.2 log ⟨u, r.2⟩
  have notes : (((Content.writeMap mapId map data offset).run s.cache).noting []).Ensures False
      ⟨s.disk.find?, s.InUse mapId⟩ fun r u => Q r.1 r.2 u :=
    Content.notes_writeMap (s.closed_withTaken mapId) (h.held _) h.keyed (h.apart _) fits
  have wrote := Disk.noted_of_quiet (Q := Q) notes (by rwa [run]) (by rwa [run])
  rw [run] at wrote
  have new (id : Id) : s.Drew t id → ¬ s.InUse mapId id := by
    rintro ⟨n, since, before, rfl⟩
    exact fresh.new n since before
  obtain ⟨_, _, _, _, ok, _⟩ := id wrote
  exact ⟨ok, h.thrifty_of_wrote stored new left wrote⟩

/-- One byte behind the blocks that a map names itself, in a file that has none. -/
theorem thrifty_firstBeyond : ∃ (s t : Session) (map : BlockMap), s.Holds (.ofNat 9) .empty ∧
    s.disk.find? (.ofNat 9) = some (Stored.encode BlockMap.empty) ∧
    s.disk.perform (Content.writeMap (.ofNat 9) .empty ⟨#[7]⟩ (directBlocks * blockSize)) s.cache =
      ((.ok 1, map), t.cache, t.disk) ∧
    s.Thrifty (.ofNat 9) .empty (directBlocks * blockSize) (directBlocks * blockSize + 1)
      (((Content.writeMap (.ofNat 9) .empty ⟨#[7]⟩ (directBlocks * blockSize)).run s.cache).exchanges Disk.backend s.disk)
      t map := by
  let disk : Disk := { Disk.counting with records := ⟨[(.ofNat 9, Stored.encode BlockMap.empty)]⟩ }
  let s : Session := ⟨none, disk⟩
  have holds : s.Holds (.ofNat 9) .empty := holds_empty nofun
  let action := Content.writeMap (.ofNat 9) .empty ⟨#[7]⟩ (directBlocks * blockSize)
  have like : disk.Like (disk.perform action none).2.2 := Disk.like_run (action.run none) disk
  have issued : (disk.perform action none).2.2.issued = 2 := rfl
  generalize ran : disk.perform action none = out at like issued
  obtain ⟨⟨r, map⟩, cache, disk'⟩ := out
  change disk.Like disk' at like
  change disk'.issued = 2 at issued
  have absent : ∀ n < 2, disk.find? (disk.supply n) = none := by decide
  have fresh : disk'.Fresh (s.InUse (.ofNat 9)) 0 := fresh_of_counting like rfl issued absent
  obtain ⟨rfl, thrifty⟩ :=
    holds.thrifty (t := ⟨cache, disk'⟩) rfl ran (by decide) ⟨fun _ _ _ => rfl, fun _ _ _ => rfl⟩ fresh
  exact ⟨s, ⟨cache, disk'⟩, map, holds, rfl, ran, thrifty⟩

end Session
end RecordFs
