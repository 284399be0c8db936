import RecordFs.Proofs.Strict.Contents

/-! Writing with every step checked. A range that a file can have keeps all positions small, and no slice
reaches beyond what is written. -/
namespace RecordFs.Content
open Checked
open MonadExcept (ofExcept)

/-- Programs that allocate blocks, of which every step is checked. -/
abbrev StrictAllocating := ExceptT Failure (StateT Allocation (StateT Cache (ExceptT Slip Access)))

namespace Strict

/-- Performs an action between allocations. -/
def act {α : Type} (action : StrictAction α) : StrictAllocating α := ExceptT.mk (StateT.lift action.run)

def allocation : StrictAllocating Allocation := MonadState.get

def indirectMap : StrictAllocating IndirectMap := do
  let a ← allocation
  if a.map.indirect = .zero then
    let id ← act Store.freshId
    let table := IndirectMap.empty
    set { map := { a.map with indirect := id }, indirect := some table, changed := true : Allocation }
    return table
  match a.indirect with
  | some table => return table
  | none =>
    let table ← act (Store.Strict.load IndirectMap a.map.indirect)
    set { a with indirect := some table }
    return table

def blockFor (index : Nat) : StrictAllocating (Id × Bool) := do
  if index < directBlocks then
    let a ← allocation
    let id ← element a.map.direct.toList index
    if id ≠ .zero then return (id, false)
    let id ← act Store.freshId
    set { a with map := { a.map with direct := ← replace a.map.direct index id } }
    return (id, true)
  let table ← indirectMap
  let slot ← sub index directBlocks
  let id ← element table.blocks.toList slot
  if id ≠ .zero then return (id, false)
  let id ← act Store.freshId
  let blocks ← replace table.blocks slot id
  modify fun a => { a with indirect := some ⟨blocks⟩, changed := true }
  return (id, true)

/-- How much was written is counted along the way. -/
def writePieces (data : ByteArray) : List Piece → Nat → StrictAllocating Nat
  | [], consumed => return consumed
  | piece :: rest, consumed => do
    let (id, isNew) ← blockFor piece.index
    let block ← if isNew || piece.length = blockSize then pure Block.zero else act (Store.Strict.load Block id)
    let next ← add consumed piece.length
    let block ← overlay block piece.start piece.length (← slice data consumed next)
    act (Store.Strict.save id block)
    writePieces data rest next

def writeBlocks (mapId : Id) (data : ByteArray) (offset : Nat) : StrictAllocating Nat := do
  let stop ← ofExcept (checkExtent offset data.size)
  let consumed ← writePieces data (← Piece.cut offset stop.1) 0
  let a ← allocation
  if a.changed then
    if let some table := a.indirect then act (Store.Strict.save a.map.indirect table)
  act (Store.Strict.save mapId a.map)
  return consumed

def writeMap (mapId : Id) (map : BlockMap) (data : ByteArray) (offset : Nat) :
    StateT Cache (ExceptT Slip Access) (Except Failure Nat × BlockMap) := do
  let (result, a) ← (writeBlocks mapId data offset).run.run { map }
  return (result, a.map)

def write (mapId : Id) (map : BlockMap) (data : ByteArray) (offset : Nat) : StrictAction Nat :=
  ExceptT.mk do return (← writeMap mapId map data offset).1

end Strict

variable {α β : Type} {P : α → Prop} {Q : β → Prop}

/-- From any allocation on, the first program does what the second does, and its answers are in `P`. -/
def InStepAlloc (P : α → Prop) (x : StrictAllocating α) (y : Allocating α) : Prop :=
  ∀ a cache, Access.InStep (fun r => ∀ v, r.1.1 = .ok v → P v) ((x.run.run a).run cache) ((y.run.run a).run cache)

namespace InStepAlloc

theorem pure {v : α} (holds : P v) : InStepAlloc P (pure v) (pure v) := by
  refine fun a cache => ⟨rfl, ?_⟩
  rintro _ ⟨⟩
  exact holds

theorem throw (e : Failure) : InStepAlloc P (throw e) (throw e) := fun _ _ => ⟨rfl, nofun⟩

theorem bind {x : StrictAllocating α} {y : Allocating α} {f : α → StrictAllocating β} {g : α → Allocating β}
    (h : InStepAlloc P x y) (next : ∀ v, P v → InStepAlloc Q (f v) (g v)) : InStepAlloc Q (x >>= f) (y >>= g) := by
  intro a cache
  apply (h a cache).bind
  rintro ⟨⟨r, a⟩, cache⟩ holds
  cases r with
  | ok v => exact next v (holds v rfl) a cache
  | error e => exact ⟨rfl, nofun⟩

/-- A program of which the result is known already. -/
theorem after {x : StrictAllocating α} {y : Allocating Unit} {v : α} {f : α → StrictAllocating β} {g : Unit → Allocating β}
    (h : InStepAlloc P x ((fun _ => v) <$> y)) (next : ∀ v, P v → InStepAlloc Q (f v) (g ())) :
    InStepAlloc Q (x >>= f) (y >>= g) := by
  have same : y >>= g = ((fun _ => v) <$> y) >>= fun _ => g () := (bind_map_left (fun _ => v) y fun _ => g ()).symm
  rw [same]
  exact h.bind next

theorem check {c : Checked α} {v : α} {f : α → StrictAllocating β} {y : Allocating β} (fine : c = .ok v)
    (next : InStepAlloc Q (f v) y) : InStepAlloc Q (liftM c >>= f) y := by
  rw [fine]
  exact next

theorem ofExcept (v : Except Failure α) (holds : ∀ a, v = .ok a → P a) :
    InStepAlloc P (MonadExcept.ofExcept v) (MonadExcept.ofExcept v) := by
  cases v with
  | ok a => exact .pure (holds a rfl)
  | error e => exact .throw e

theorem ite {p q : Prop} [Decidable p] [Decidable q] {x x' : StrictAllocating α} {y y' : Allocating α} (same : q ↔ p)
    (first : p → InStepAlloc P x y) (second : ¬ p → InStepAlloc P x' y') :
    InStepAlloc P (if p then x else x') (if q then y else y') := by
  by_cases h : p
  · rw [if_pos h, if_pos (same.mpr h)]
    exact first h
  · rw [if_neg h, if_neg (mt same.mp h)]
    exact second h

theorem allocation : InStepAlloc (fun _ => True) Strict.allocation Content.allocation := fun _ _ => ⟨rfl, fun _ _ => trivial⟩

theorem set (a : Allocation) : InStepAlloc (fun _ => True) (set a) (set a) := fun _ _ => ⟨rfl, fun _ _ => trivial⟩

theorem modify (f : Allocation → Allocation) : InStepAlloc (fun _ => True) (modify f) (modify f) :=
  fun _ _ => ⟨rfl, fun _ _ => trivial⟩

theorem act {x : StrictAction α} {y : Action α} (h : InStep P x y) : InStepAlloc P (Strict.act x) (Content.act y) := by
  intro a cache
  apply (h cache).bind
  intro r holds
  exact ⟨rfl, holds⟩

end InStepAlloc

theorem inStep_freshId : InStepAlloc (fun _ => True) (Strict.act Store.freshId) (act Store.freshId) := .act (.lift _)

theorem inStep_indirectMap : InStepAlloc (fun _ => True) Strict.indirectMap indirectMap := by
  apply InStepAlloc.allocation.bind
  intro a _
  apply InStepAlloc.ite Iff.rfl
  · intro _
    apply inStep_freshId.bind
    intro id _
    exact (InStepAlloc.set _).bind fun _ _ => .pure trivial
  · intro _
    cases a.indirect with
    | some table => exact .pure trivial
    | none =>
      apply (InStepAlloc.act (Store.inStep_load IndirectMap _)).bind
      intro table _
      exact (InStepAlloc.set _).bind fun _ _ => .pure trivial

theorem inStep_blockFor (index : Fin maxBlocks) : InStepAlloc (fun _ => True) (Strict.blockFor index) (blockFor index) := by
  rw [Strict.blockFor, blockFor, place]
  by_cases within : index.val < directBlocks
  · rw [if_pos within, dif_pos within]
    apply InStepAlloc.allocation.bind
    intro a _
    apply InStepAlloc.check (element_toList _ within)
    refine InStepAlloc.ite Iff.rfl (fun _ => .pure trivial) fun _ => ?_
    apply inStep_freshId.bind
    intro id _
    apply InStepAlloc.check (replace_of_lt _ id within)
    exact (InStepAlloc.set _).bind fun _ _ => .pure trivial
  · have slot := sub_lt_indirectBlocks index
    rw [if_neg within, dif_neg within]
    apply inStep_indirectMap.bind
    intro table _
    apply InStepAlloc.check (sub_of_le (Nat.not_lt.mp within))
    apply InStepAlloc.check (element_toList _ slot)
    refine InStepAlloc.ite Iff.rfl (fun _ => .pure trivial) fun _ => ?_
    apply inStep_freshId.bind
    intro id _
    apply InStepAlloc.check (replace_of_lt _ id slot)
    exact (InStepAlloc.modify _).bind fun _ _ => .pure trivial

/-- What is written is counted to the end of the data. -/
theorem inStep_writeSpans {data : ByteArray} {stop pos position : Nat} {l : List Span} (cuts : Cuts stop pos l)
    (small : data.size ≤ maxFileSize) (left : position + (stop - pos) = data.size) :
    InStepAlloc (· = data.size) (Strict.writePieces data (l.map Span.piece) position)
      ((fun _ => data.size) <$> writeSpans data l position) := by
  induction l generalizing pos position with
  | nil =>
    cases cuts with
    | nil done =>
      obtain rfl : position = data.size := by omega
      exact .pure rfl
  | cons span rest ih =>
    have within := cuts.length_le
    have next := ih cuts.tail (show position + span.length + (stop - (pos + span.length)) = data.size by omega)
    have fits := span.fits
    have size : (data.extract position (position + span.length)).size = span.length := by
      rw [ByteArray.size_extract]
      omega
    rw [writeSpans, map_bind]
    apply (inStep_blockFor span.index).bind
    rintro ⟨id, isNew⟩ _
    dsimp only
    -- Whatever the block had in it before, what follows is the same.
    have saves (base : Block) fits : InStepAlloc (· = data.size)
        (do
          let next ← add position span.length
          let chunk ← slice data position next
          let block ← Strict.overlay base span.start span.length chunk
          Strict.act (Store.Strict.save id block)
          Strict.writePieces data (rest.map Span.piece) next)
        ((fun _ => data.size) <$> do
          act (Store.save id (base.overlay span.start (data.extract position (position + span.length)) fits))
          writeSpans data rest (position + span.length)) := by
      rw [map_bind]
      apply InStepAlloc.check (add_of_le (by omega))
      apply InStepAlloc.check (slice_of_le (Nat.le_add_right ..) (by omega))
      apply InStepAlloc.check (Strict.overlay_eq fits size)
      exact (InStepAlloc.act (Store.inStep_save trivial id)).bind fun _ _ => next
    rw [apply_ite (Functor.map _)]
    refine InStepAlloc.ite Iff.rfl (fun _ => saves _ _) fun _ => ?_
    rw [map_bind]
    exact (InStepAlloc.act (Store.inStep_load Block id)).bind fun base _ => saves base _

theorem eq_of_checkExtent {offset length : Nat} {stop : { stop : Nat // stop ≤ maxFileSize }}
    (checked : checkExtent offset length = .ok stop) : stop.1 = offset + length := by
  have far : maxFileSize < countMax := by decide
  rw [checkExtent] at checked
  split at checked
  · cases checked
    change min (offset + length) countMax = offset + length
    omega
  · cases checked

/-- What is written lies within what a file can have. -/
theorem inStep_writeBlocks (mapId : Id) (data : ByteArray) (offset : Nat) :
    InStepAlloc (fun written => offset + written ≤ maxFileSize) (Strict.writeBlocks mapId data offset)
      (writeBlocks mapId data offset) := by
  apply (InStepAlloc.ofExcept _ fun _ => eq_of_checkExtent).bind
  rintro ⟨_, small⟩ rfl
  apply InStepAlloc.check (Piece.cut_eq (cuts_spans small) small)
  apply (inStep_writeSpans (cuts_spans small) (by omega) (by omega)).after
  rintro _ rfl
  apply InStepAlloc.allocation.bind
  intro a _
  have last : InStepAlloc (fun written => offset + written ≤ maxFileSize)
      (do
        Strict.act (Store.Strict.save mapId a.map)
        return data.size)
      (do
        act (Store.save mapId a.map)
        return data.size) :=
    (InStepAlloc.act (Store.inStep_save trivial mapId)).bind fun _ _ => .pure small
  refine InStepAlloc.ite Iff.rfl (fun _ => ?_) fun _ => last
  cases a.indirect with
  | none => exact last
  | some table => exact (InStepAlloc.act (Store.inStep_save trivial _)).bind fun _ _ => last

theorem inStep_write (mapId : Id) (map : BlockMap) (data : ByteArray) (offset : Nat) :
    InStep (fun written => offset + written ≤ maxFileSize) (Strict.write mapId map data offset) (write mapId map data offset) := by
  intro cache
  have written : Access.InStep (fun r => ∀ n, r.1.1 = .ok n → offset + n ≤ maxFileSize)
      ((Strict.writeMap mapId map data offset).run cache) ((writeMap mapId map data offset).run cache) := by
    apply (inStep_writeBlocks mapId data offset { map } cache).bind
    intro r holds
    exact ⟨rfl, holds⟩
  apply written.bind
  intro r holds
  exact ⟨rfl, holds⟩

end RecordFs.Content
