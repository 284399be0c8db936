import RecordFs.Proofs.Content.ReadClear
import RecordFs.Proofs.Content.Writing

/-! What a write leaves behind. Of what was there before only the file's own records differ, and
what the file names in the end is stored, whether the write came to its end or not. -/
namespace RecordFs

/-- A block or an indirect map stands under this key. -/
def World.Piece (w : World) (id : Id) : Prop := (∃ b, w.get Block id = some b) ∨ ∃ t, w.get IndirectMap id = some t

theorem World.Piece.congr {w w' : World} {id : Id} (h : w.Piece id) (same : w'.find id = w.find id) : w'.Piece id :=
  h.imp (fun ⟨b, hb⟩ => ⟨b, (World.get_of_find_eq same).trans hb⟩)
    fun ⟨t, ht⟩ => ⟨t, (World.get_of_find_eq same).trans ht⟩

/-- The layout has a block or its indirect map under this key. -/
def Layout.Names (l : Layout) (id : Id) : Prop := (∃ k, l.slot k = id) ∨ l.map.indirect = id

namespace Content
open Layout (Grown)

variable {faulty : Prop} {l₀ l : Layout} {w₀ w : World} {a : Allocation} {data : ByteArray} {offset stop pos : Nat}
  {mapId : Id}

/-- Only the map under `mapId`, blocks and indirect maps were stored, and of those that were there
before only what `l₀` names. -/
structure Confined (l₀ : Layout) (mapId : Id) (w₀ w : World) : Prop where
  closed : w.Closed
  cache : w.cache = w₀.cache
  taken : ∀ id, w₀.taken id → w.taken id
  find : ∀ id, w.find id = w₀.find id ∨ id = mapId ∨ w.Piece id ∧ (w₀.taken id → id ≠ .zero ∧ l₀.Names id)

/-- The file with the map under `mapId` now has the layout `l`, grown out of `l₀`. -/
structure Rewritten (l₀ : Layout) (mapId : Id) (w₀ : World) (l : Layout) (w : World) : Prop
    extends Confined l₀ mapId w₀ w where
  grown : Grown l₀ l w₀ w
  held : l.Held w
  map : w.get BlockMap mapId = some l.map

/-- Block by block, the bytes are the old ones or the new ones. -/
def Mixed (old new view : Nat → UInt8) : Prop :=
  ∀ k, (∀ n, n / blockSize = k → view n = old n) ∨ ∀ n, n / blockSize = k → view n = new n

/-- The outcome of writing `data` at `offset` of the file with the layout `l₀`. -/
structure Written (faulty : Prop) (l₀ : Layout) (mapId : Id) (w₀ : World) (data : ByteArray) (offset : Nat)
    (l : Layout) (r : Except Failure Nat) (w : World) : Prop extends Rewritten l₀ mapId w₀ l w where
  result :
    (r = .ok data.size ∧ l.view w = overlaid (l₀.view w₀) data offset (offset + data.size)) ∨
      faulty ∧ (∃ f, r = .error (.ofFault f)) ∧
        Mixed (l₀.view w₀) (overlaid (l₀.view w₀) data offset (offset + data.size)) (l.view w)

theorem Confined.save {ρ : Type} [Stored ρ] (h : Confined l₀ mapId w₀ w) {id : Id} (used : w.taken id)
    (apart : w.Apart id) {r : ρ}
    (own : id = mapId ∨ (w.save id r).Piece id ∧ (w₀.taken id → id ≠ .zero ∧ l₀.Names id)) :
    Confined l₀ mapId w₀ (w.save id r) where
  closed := h.closed.save used r
  cache := (World.cache_save_of_apart apart r).trans h.cache
  taken := h.taken
  find x := by
    by_cases same : x = id
    · exact .inr (same ▸ own)
    · have kept := World.find_save_of_ne w r same
      rw [kept]
      exact (h.find x).imp_right (Or.imp_right fun piece => ⟨piece.1.congr kept, piece.2⟩)

theorem Cleared.rewritten {start stop : Nat} {r : Except Failure Unit} (h : Cleared faulty l start stop w₀ r w)
    (closed : w₀.Closed) (held : l.Held w₀) (stored : w₀.get BlockMap mapId = some l.map) :
    Rewritten l mapId w₀ l w where
  closed := by
    refine ⟨h.taken ▸ closed.zero, fun id bytes found => ?_, fun root cached => ?_⟩
    · rw [h.taken]
      rcases h.touches.find id with same | ⟨nonzero, ⟨k, rfl⟩, _⟩
      · exact closed.stored id bytes (same ▸ found)
      · obtain ⟨b, block⟩ := held.blocks k nonzero
        exact closed.taken_of_get block
    · rw [h.taken]
      exact closed.root root (h.touches.cache ▸ cached)
  cache := h.touches.cache
  taken id used := h.taken ▸ used
  find id := by
    rcases h.touches.find id with same | ⟨nonzero, slot, block⟩
    · exact .inl same
    · exact .inr (.inr ⟨.inl block, fun _ => ⟨nonzero, .inl slot⟩⟩)
  grown := .refl l w₀ w
  held := h.held
  map := by
    rcases h.touches.find mapId with same | ⟨nonzero, ⟨k, slot⟩, _⟩
    · rw [World.get_of_find_eq same, stored]
    · obtain ⟨b, block⟩ := held.blocks k (slot ▸ nonzero)
      have none := World.get_none_of_kind (σ := BlockMap) block (by decide)
      rw [slot, stored] at none
      cases none

/-- The key of a map is in use, and it is none that the layout names. -/
structure Keyed (l : Layout) (mapId : Id) (w : World) : Prop where
  used : w.taken mapId
  slots : ∀ k, l.slot k ≠ .zero → mapId ≠ l.slot k
  indirect : l.map.indirect ≠ .zero → mapId ≠ l.map.indirect

theorem keyed_of_stored (closed : w.Closed) (held : l.Held w) (stored : w.get BlockMap mapId = some l.map) :
    Keyed l mapId w where
  used := closed.taken_of_get stored
  slots k nonzero same := by
    obtain ⟨b, block⟩ := held.blocks k nonzero
    have none := World.get_none_of_kind (σ := BlockMap) block (by decide)
    rw [← same, stored] at none
    cases none
  indirect nonzero same := by
    have none := World.get_none_of_kind (σ := BlockMap) (held.table_of_ne nonzero) (by decide)
    rw [← same, stored] at none
    cases none

namespace Filling

theorem confined (h : Filling l₀ w₀ data offset stop pos l a w) (closed : w₀.Closed) (held : l₀.Held w₀)
    (mapId : Id) : Confined l₀ mapId w₀ w where
  closed := h.toAllocated.closed closed held
  cache := h.cache
  taken := h.taken
  find id := by
    rcases h.find id with same | ⟨nonzero, k, rfl⟩
    · exact .inl same
    · refine .inr (.inr ⟨.inl (h.blocks k nonzero), fun old => ⟨nonzero, .inl ⟨k, ?_⟩⟩⟩)
      exact ((h.grown.slots k).resolve_right fun new => new.2.1 old).symm

theorem backed (h : Filling l₀ w₀ data offset stop pos l a w) (closed : w₀.Closed) (held : l₀.Held w₀) :
    l.Backed w :=
  ⟨h.blocks, h.distinct, fun _ nonzero => h.apart_root closed held nonzero⟩

/-- A layout that has some of the new blocks shows each block as it was or as it is written. -/
theorem mixed (h : Filling l₀ w₀ data offset stop pos l a w) {l₁ : Layout}
    (slots : ∀ k, l₁.slot k = l.slot k ∨ l₁.slot k = .zero ∧ l₀.slot k = .zero) :
    Mixed (l₀.view w₀) (overlaid (l₀.view w₀) data offset stop) (l₁.view w) := by
  intro k
  by_cases small : k < maxBlocks
  · rcases slots ⟨k, small⟩ with same | ⟨none, none₀⟩
    · have view (n : Nat) (here : n / blockSize = k) : l₁.view w n = overlaid (l₀.view w₀) data offset pos n :=
        (Layout.view_of_slot (k := ⟨k, small⟩) here same).trans (h.view n)
      rcases h.aligned with first | last | ⟨p, boundary⟩
      · refine .inl fun n here => ?_
        rw [view n here, overlaid, if_neg (by omega)]
      · exact .inr (last ▸ view)
      · by_cases before : k < p
        · refine .inr fun n here => ?_
          rw [view n here]
          have := Nat.mul_le_mul_left blockSize before
          have := (Nat.div_lt_iff_lt_mul (show 0 < blockSize by decide)).mp (show n / blockSize < p by omega)
          have := h.within
          exact overlaid_stay h.within (by rw [boundary, Nat.mul_comm]; omega)
        · refine .inl fun n here => ?_
          have := (Nat.le_div_iff_mul_le (show 0 < blockSize by decide)).mp (show p ≤ n / blockSize by omega)
          rw [view n here, overlaid, if_neg (by rw [boundary, Nat.mul_comm]; omega)]
    · refine .inl fun n here => ?_
      rw [Layout.view_of_zero (k := ⟨k, small⟩) here none, Layout.view_of_zero (k := ⟨k, small⟩) here none₀]
  · refine .inl fun n here => ?_
    have beyond : maxFileSize ≤ n := by
      rw [maxFileSize, ← Nat.le_div_iff_mul_le (by decide)]
      omega
    rw [Layout.view_beyond beyond, Layout.view_beyond beyond]

/-- The key of the map is none that the grown layout names. -/
theorem map_unnamed (h : Filling l₀ w₀ data offset stop pos l a w) (keyed : Keyed l₀ mapId w₀) :
    (∀ k, l.slot k ≠ .zero → mapId ≠ l.slot k) ∧ (l.map.indirect ≠ .zero → mapId ≠ l.map.indirect) := by
  refine ⟨fun k nonzero same => ?_, fun nonzero same => ?_⟩
  · rcases h.grown.slots k with old | ⟨_, new, _⟩
    · rw [old] at nonzero same
      exact keyed.slots k nonzero same
    · exact new (same ▸ keyed.used)
  · rcases h.grown.indirect with old | ⟨_, new, _⟩
    · rw [old] at nonzero same
      exact keyed.indirect nonzero same
    · exact new (same ▸ keyed.used)

theorem find_map (h : Filling l₀ w₀ data offset stop pos l a w) (keyed : Keyed l₀ mapId w₀) :
    w.find mapId = w₀.find mapId := by
  rcases h.find mapId with same | ⟨nonzero, k, slot⟩
  · exact same
  · exact absurd slot.symm ((h.map_unnamed keyed).1 k (slot ▸ nonzero))

/-- A write that failed before the indirect map was stored leaves the layout as it was. -/
theorem failed (h : Filling l₀ w₀ data offset stop pos l a w) (closed : w₀.Closed) (held : l₀.Held w₀)
    (stored : w₀.get BlockMap mapId = some l₀.map) (stops : stop = offset + data.size) (hf : faulty) (f : Fault) :
    Written faulty l₀ mapId w₀ data offset l₀ (.error (.ofFault f)) w := by
  have slots (k) (nonzero : l₀.slot k ≠ .zero) : l₀.slot k = l.slot k := (h.grown.slot_of_ne nonzero).symm
  refine { h.confined closed held mapId with
    grown := .refl l₀ w₀ w
    held := { (h.backed closed held).of_slots slots with table := ?_, apart_table := fun nonzero => ?_ }
    map := ?_
    result := .inr ⟨hf, ⟨f, rfl⟩, ?_⟩ }
  · split
    · rename_i zero
      exact held.table_of_zero zero
    · rename_i nonzero
      rw [World.get_of_find_eq (h.find_indirect nonzero)]
      exact held.table_of_ne nonzero
  · exact (World.apart_congr h.cache).mpr (held.apart_table nonzero)
  · rw [World.get_of_find_eq (h.find_map (keyed_of_stored closed held stored)), stored]
  · rw [← stops]
    refine h.mixed fun k => ?_
    by_cases zero : l₀.slot k = .zero
    · exact .inr ⟨zero, zero⟩
    · exact .inl (slots k zero)

end Filling

/-- All that the layout names is stored, the indirect map last. -/
structure Tabled (l₀ : Layout) (mapId : Id) (w₀ : World) (l : Layout) (w w' : World) : Prop
    extends Confined l₀ mapId w₀ w' where
  held : l.Held w'
  later : ∀ id, w.taken id → w'.taken id
  others : ∀ id, w'.find id = w.find id ∨ id ≠ .zero ∧ id = l.map.indirect

namespace Filling

theorem tabled_of_unchanged (h : Filling l₀ w₀ data offset stop pos l a w) (closed : w₀.Closed)
    (held : l₀.Held w₀) (unchanged : a.changed = false) : Tabled l₀ mapId w₀ l w w := by
  obtain ⟨table, indirect⟩ := h.same unchanged
  refine { h.confined closed held mapId with
    held := { h.backed closed held with table := ?_, apart_table := fun nonzero => ?_ }
    later := fun _ used => used
    others := fun _ => .inl rfl }
  · split
    · rename_i zero
      exact h.none zero
    · rename_i nonzero
      rw [indirect] at nonzero ⊢
      rw [World.get_of_find_eq (h.find_indirect nonzero), table]
      exact held.table_of_ne nonzero
  · rw [indirect] at nonzero ⊢
    exact (World.apart_congr h.cache).mpr (held.apart_table nonzero)

theorem apart_indirect (h : Filling l₀ w₀ data offset stop pos l a w) (closed : w₀.Closed) (held : l₀.Held w₀)
    (nonzero : l.map.indirect ≠ .zero) : w.Apart l.map.indirect := by
  rw [World.apart_congr h.cache]
  rcases h.grown.indirect with same | ⟨_, new, _⟩
  · rw [same] at nonzero ⊢
    exact held.apart_table nonzero
  · intro root cached same
    exact new (same ▸ closed.root root cached)

theorem tabled_of_changed (h : Filling l₀ w₀ data offset stop pos l a w) (closed : w₀.Closed)
    (held : l₀.Held w₀) (nonzero : l.map.indirect ≠ .zero) :
    Tabled l₀ mapId w₀ l w (w.save l.map.indirect l.table) := by
  have apart := h.apart_indirect closed held nonzero
  have used := h.used_indirect closed held
  have cache := World.cache_save_of_apart apart l.table
  refine { (h.confined closed held mapId).save used apart (.inr ⟨.inr ⟨l.table, ?_⟩, fun old => ⟨nonzero, .inr ?_⟩⟩) with
    held := { (h.backed closed held).congr (fun _ => rfl) (fun k hk => ?_) cache with
      table := ?_, apart_table := fun _ => (World.apart_congr cache).mpr apart }
    later := fun _ used => used
    others := fun id => ?_ }
  · rw [World.get_save, Function.update_self]
  · exact (h.grown.indirect.resolve_right fun new => new.2.1 old).symm
  · exact World.find_save_of_ne w _ (h.apart k hk)
  · rw [if_neg nonzero, World.get_save, Function.update_self]
  · by_cases same : id = l.map.indirect
    · exact .inr ⟨same ▸ nonzero, same⟩
    · exact .inl (World.find_save_of_ne w _ same)

end Filling

/-- What a map that was not stored again has: the indirect map that it names may be the new one. -/
def kept (l₀ l : Layout) : Layout := ⟨l₀.map, if l₀.map.indirect = .zero then .empty else l.table⟩

theorem Filling.slot_kept (h : Filling l₀ w₀ data offset stop pos l a w) (held : l₀.Held w₀) (k : Fin maxBlocks) :
    (kept l₀ l).slot k = l.slot k ∨ (kept l₀ l).slot k = .zero ∧ l₀.slot k = .zero := by
  cases at_ : place k with
  | inl i =>
    have direct : (kept l₀ l).slot k = l₀.slot k := by rw [Layout.slot_of_direct at_, Layout.slot_of_direct at_, kept]
    rw [direct]
    exact (h.grown.slots k).imp Eq.symm fun new => ⟨new.1, new.1⟩
  | inr i =>
    rw [Layout.slot_of_beyond at_, Layout.slot_of_beyond at_, Layout.slot_of_beyond at_, kept]
    by_cases zero : l₀.map.indirect = .zero
    · refine .inr ?_
      simp only [if_pos zero, held.table_of_zero zero]
      exact ⟨Vector.get_replicate .., Vector.get_replicate ..⟩
    · refine .inl ?_
      simp only [if_neg zero]

namespace Tabled
variable {w' : World}

theorem find_slot (t : Tabled l₀ mapId w₀ l w w') (h : Filling l₀ w₀ data offset stop pos l a w)
    {k : Fin maxBlocks} (nonzero : l.slot k ≠ .zero) : w'.find (l.slot k) = w.find (l.slot k) :=
  (t.others _).resolve_right fun changed => h.apart k nonzero changed.2

theorem find_map (t : Tabled l₀ mapId w₀ l w w') (h : Filling l₀ w₀ data offset stop pos l a w)
    (keyed : Keyed l₀ mapId w₀) : w'.find mapId = w₀.find mapId := by
  rcases t.others mapId with same | ⟨nonzero, same⟩
  · exact same.trans (h.find_map keyed)
  · exact absurd same ((h.map_unnamed keyed).2 (same ▸ nonzero))

/-- A write that failed to store the map has what the indirect map that was there now names. -/
theorem failed (t : Tabled l₀ mapId w₀ l w w') (h : Filling l₀ w₀ data offset stop pos l a w) (closed : w₀.Closed)
    (held : l₀.Held w₀) (stored : w₀.get BlockMap mapId = some l₀.map) (stops : stop = offset + data.size)
    (hf : faulty) (f : Fault) :
    Written faulty l₀ mapId w₀ data offset (kept l₀ l) (.error (.ofFault f)) w' := by
  have slots := h.slot_kept held
  have some (k) (nonzero : (kept l₀ l).slot k ≠ .zero) : (kept l₀ l).slot k = l.slot k :=
    (slots k).resolve_right fun none => nonzero none.1
  have view : (kept l₀ l).view w' = (kept l₀ l).view w := by
    funext n
    refine Layout.view_congr (fun _ => rfl) (fun k nonzero => ?_) n
    have slot := some k nonzero
    rw [slot] at nonzero ⊢
    exact t.find_slot h nonzero
  refine { t with
    grown := ⟨fun k => ?_, .inl rfl⟩
    held := { t.held.toBacked.of_slots some with table := ?_, apart_table := fun nonzero => ?_ }
    map := ?_
    result := .inr ⟨hf, ⟨f, rfl⟩, ?_⟩ }
  · rcases slots k with same | ⟨none, none₀⟩
    · rw [same]
      exact (h.grown.later t.later).slots k
    · exact .inl (none.trans none₀.symm)
  · simp only [kept]
    split
    · rfl
    · rename_i nonzero
      have same := h.grown.indirect_of_ne nonzero
      rw [← same] at nonzero ⊢
      exact t.held.table_of_ne nonzero
  · have same : (kept l₀ l).map.indirect = l.map.indirect := (h.grown.indirect_of_ne nonzero).symm
    rw [same] at nonzero ⊢
    exact t.held.apart_table nonzero
  · rw [World.get_of_find_eq (t.find_map h (keyed_of_stored closed held stored)), stored, kept]
  · rw [← stops, view]
    exact h.mixed slots

/-- The map is stored last. -/
theorem done (t : Tabled l₀ mapId w₀ l w w') (h : Filling l₀ w₀ data offset stop stop l a w)
    (keyed : Keyed l₀ mapId w₀) (apart : w₀.Apart mapId) (stops : stop = offset + data.size) :
    Written faulty l₀ mapId w₀ data offset l (.ok data.size) (w'.save mapId l.map) := by
  have unnamed := h.map_unnamed keyed
  have apart' := (World.apart_congr t.cache).mpr apart
  have cache := World.cache_save_of_apart apart' l.map
  have find (k) (nonzero : l.slot k ≠ .zero) : (w'.save mapId l.map).find (l.slot k) = w'.find (l.slot k) :=
    World.find_save_of_ne w' l.map (unnamed.1 k nonzero).symm
  refine { t.toConfined.save (t.taken _ keyed.used) apart' (.inl rfl) with
    grown := h.grown.later t.later
    held := { t.held.toBacked.congr (fun _ => rfl) find cache with
      table := ?_, apart_table := fun nonzero => (World.apart_congr cache).mpr (t.held.apart_table nonzero) }
    map := by rw [World.get_save, Function.update_self]
    result := .inl ⟨rfl, ?_⟩ }
  · split
    · rename_i zero
      exact h.none zero
    · rename_i nonzero
      rw [World.get_of_find_eq (World.find_save_of_ne w' l.map (unnamed.2 nonzero).symm)]
      exact t.held.table_of_ne nonzero
  · funext n
    rw [← stops, ← h.view n]
    refine Layout.view_congr (fun _ => rfl) (fun k nonzero => ?_) n
    rw [find k nonzero, t.find_slot h nonzero]

end Tabled

theorem checkExtent_of_le {length : Nat} (fits : offset + length ≤ maxFileSize) :
    checkExtent offset length = .ok ⟨offset + length, fits⟩ := by
  have same : min (offset + length) countMax = offset + length := Nat.min_eq_left (Nat.le_trans fits (by decide))
  simp only [checkExtent, same, dif_pos fits]

/-- A write, with the map that it leaves in memory. The map need not be stored before, unless calls may
fail: then it is what is found afterwards. -/
theorem ensures_writeBlocks (closed : w.Closed) (held : l.Held w) (keyed : Keyed l mapId w) (apart : w.Apart mapId)
    (fits : offset + data.size ≤ maxFileSize) (stored : faulty → w.get BlockMap mapId = some l.map) :
    EnsuresAlloc faulty (writeBlocks mapId data offset) { map := l.map } w fun r a w' =>
      ∃ l', Written faulty l mapId w data offset l' r w' ∧
        (∀ n, r = .ok n → a.map = l'.map ∧ w'.find mapId = some (Stored.encode l'.map)) := by
  rw [writeBlocks, ensuresAlloc_bind, ensuresAlloc_ofExcept, checkExtent_of_le fits]
  simp only
  rw [ensuresAlloc_bind]
  refine (ensures_writeSpans closed held (cuts_spans fits) rfl (.start held (Nat.le_add_right _ _)) (by simp)).mono ?_
  rintro r a w'' (⟨rfl, l', h⟩ | ⟨hf, ⟨f, rfl⟩, pos, l', a', h⟩)
  · simp only
    rw [ensuresAlloc_bind, ensuresAlloc_allocation]
    have last {w' : World} (t : Tabled l mapId w l' w'' w') : EnsuresAlloc faulty (do
        act (Store.save mapId a.map)
        return data.size) a w' fun r a w' => ∃ l', Written faulty l mapId w data offset l' r w' ∧
          (∀ n, r = .ok n → a.map = l'.map ∧ w'.find mapId = some (Stored.encode l'.map)) := by
      rw [ensuresAlloc_bind, ensuresAlloc_act, h.map]
      refine Store.ensures_save_of_apart ((World.apart_congr t.cache).mpr apart)
        (fun hf f => ⟨_, t.failed h closed held (stored hf) rfl hf f, nofun⟩) ?_
      refine ⟨l', t.done h keyed apart rfl, fun _ _ => ⟨h.map, ?_⟩⟩
      rw [World.save, World.find_put, Function.update_self]
    simp only
    cases changed : a.changed with
    | false => exact last (h.tabled_of_unchanged closed held changed)
    | true =>
      obtain ⟨at_hand, nonzero⟩ := h.at_hand changed
      simp only [if_true, at_hand, h.map]
      rw [ensuresAlloc_bind, ensuresAlloc_act]
      refine Store.ensures_save_of_apart (h.apart_indirect closed held nonzero)
        (fun hf f => ⟨l, h.failed closed held (stored hf) rfl hf f, nofun⟩) ?_
      have := last (h.tabled_of_changed closed held nonzero)
      rwa [h.map] at this
  · exact ⟨l, h.failed closed held (stored hf) rfl hf f, nofun⟩

theorem ensures_write (closed : w.Closed) (held : l.Held w) (stored : w.get BlockMap mapId = some l.map)
    (apart : w.Apart mapId) (fits : offset + data.size ≤ maxFileSize) :
    Ensures faulty (write mapId l.map data offset) w fun r w' => ∃ l', Written faulty l mapId w data offset l' r w' := by
  have keyed := keyed_of_stored closed held stored
  refine ensures_write_of ((ensures_writeBlocks closed held keyed apart fits fun _ => stored).mono ?_)
  rintro r a w' ⟨l', written, -⟩
  exact ⟨l', written⟩

end Content
end RecordFs
