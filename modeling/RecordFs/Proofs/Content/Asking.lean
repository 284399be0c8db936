import RecordFs.Content.Mapping
import RecordFs.Proofs.Store.Frugal

/-! How many identifiers the bytes of a file ask for. Reading and clearing ask for none; writing asks for two at
most for each block that it reaches, of which one may be for the table of the blocks. -/
namespace RecordFs

theorem length_spans_le (start stop : Nat) (fits : stop ≤ maxFileSize) : (spans start stop fits).length ≤ maxBlocks := by
  rw [spans]
  split
  · rw [List.length_ofFn]
    exact Nat.le_trans (Nat.sub_le _ _) (Span.blocksBelow_le fits)
  · exact Nat.zero_le _

namespace Asks
open Content

theorem blockAt (map : BlockMap) (indirect : Option IndirectMap) (k : Fin maxBlocks) :
    Asks 0 (blockAt map indirect k) := by
  unfold Content.blockAt
  cases place k with
  | inl i => exact .pure _
  | inr i =>
    apply Asks.ite
    · exact .pure _
    · cases indirect with
      | some table => exact .pure _
      | none => exact (Asks.load map.indirect).after fun table => .pure _

theorem readSpans (map : BlockMap) (spans : List Span) (indirect : Option IndirectMap) (out : ByteArray) :
    Asks 0 (readSpans map spans indirect out) := by
  induction spans generalizing indirect out with
  | nil => exact .pure out
  | cons span rest ih =>
    refine (Asks.blockAt map indirect span.index).after fun (id, indirect) => .ite (ih _ _) ?_
    exact (Asks.load id).after fun block => ih _ _

theorem clearSpans (map : BlockMap) (spans : List Span) (indirect : Option IndirectMap) :
    Asks 0 (clearSpans map spans indirect) := by
  induction spans generalizing indirect with
  | nil => exact .pure ()
  | cons span rest ih =>
    refine (Asks.blockAt map indirect span.index).after fun (id, indirect) => .ite (ih indirect) ?_
    exact (Asks.load id).after fun block => (Asks.save id _).after fun _ => ih indirect

end Asks

namespace Content

/-- Whatever is allocated and wherever it starts from, the program asks for at most so many identifiers. -/
def Takes {α : Type} (n : Nat) (x : Allocating α) : Prop := ∀ a cache, ((x.run.run a).run cache).Frugal n

namespace Takes
variable {α β : Type} {m n : Nat}

theorem mono {x : Allocating α} (h : Takes m x) (le : m ≤ n) : Takes n x := fun a cache => (h a cache).mono le

theorem pure (b : α) : Takes n (pure b : Allocating α) := fun _ _ => trivial

theorem ofExcept (v : Except Failure α) : Takes n (MonadExcept.ofExcept v : Allocating α) := by
  cases v <;> exact fun _ _ => trivial

theorem bind {x : Allocating α} {f : α → Allocating β} (h : Takes m x) (next : ∀ b, Takes n (f b)) :
    Takes (m + n) (x >>= f) := by
  intro a cache
  apply (h a cache).bind
  rintro ⟨⟨r, a⟩, cache⟩
  cases r with
  | ok b => exact next b a cache
  | error e => trivial

/-- A step that asks for none. -/
theorem after {x : Allocating α} {f : α → Allocating β} (h : Takes 0 x) (next : ∀ b, Takes n (f b)) : Takes n (x >>= f) :=
  (Nat.zero_add n) ▸ h.bind next

theorem ite {p : Prop} [Decidable p] {x y : Allocating α} (h : Takes n x) (k : Takes n y) :
    Takes n (if p then x else y) := by
  split
  · exact h
  · exact k

theorem allocation : Takes n allocation := fun _ _ => trivial

theorem set (a : Allocation) : Takes n (set a : Allocating PUnit) := fun _ _ => trivial

theorem modify (f : Allocation → Allocation) : Takes n (modify f : Allocating PUnit) := fun _ _ => trivial

theorem act {x : Action α} (h : Asks n x) : Takes n (act x) := fun _ cache =>
  (h cache).bind (n := 0) fun _ => trivial

theorem indirectMap : Takes 1 indirectMap := by
  apply Takes.allocation.after
  intro a
  apply Takes.ite
  · exact (Takes.act .freshId).bind (n := 0) fun id => (Takes.set _).after fun _ => .pure _
  · cases a.indirect with
    | some table => exact .pure _
    | none => exact (Takes.act (.load a.map.indirect)).after fun table => (Takes.set _).after fun _ => .pure _

theorem blockFor (index : Fin maxBlocks) : Takes 2 (blockFor index) := by
  have fresh : Takes 1 (Content.act Store.freshId) := .act .freshId
  unfold Content.blockFor
  cases place index with
  | inl i =>
    apply Takes.allocation.after
    intro a
    refine .ite (.pure _) ?_
    exact (fresh.bind (n := 0) fun id => (Takes.set _).after fun _ => .pure _).mono (Nat.le_succ 1)
  | inr i =>
    apply Takes.indirectMap.bind (n := 1)
    intro table
    refine .ite (.pure _) ?_
    exact fresh.bind (n := 0) fun id => (Takes.modify _).after fun _ => .pure _

theorem writeSpans (data : ByteArray) (spans : List Span) (position : Nat) :
    Takes (2 * spans.length) (writeSpans data spans position) := by
  induction spans generalizing position with
  | nil => exact .pure ()
  | cons span rest ih =>
    rw [List.length_cons, Nat.mul_succ, Nat.add_comm]
    apply (Takes.blockFor span.index).bind
    rintro ⟨id, isNew⟩
    have stored (b : Block) (hf) : Takes (2 * rest.length) (do
        Content.act (Store.save id (b.overlay span.start (data.extract position (position + span.length)) hf))
        Content.writeSpans data rest (position + span.length)) := (Takes.act (.put id _)).after fun _ => ih _
    refine .ite ((Takes.pure Block.zero).after fun b => stored b _) ?_
    exact (Takes.act (.load id)).after fun b => stored b _

theorem writeBlocks (mapId : Id) (data : ByteArray) (offset : Nat) :
    Takes (2 * maxBlocks) (writeBlocks mapId data offset) := by
  apply (Takes.ofExcept _).after
  intro stop
  have written := (Takes.writeSpans data (spans offset stop.1 stop.2) 0).mono
    (Nat.mul_le_mul_left 2 (length_spans_le offset stop.1 stop.2))
  apply written.bind (n := 0)
  intro _
  apply Takes.allocation.after
  intro a
  have last : Takes 0 (do Content.act (Store.save mapId a.map); return data.size) :=
    (Takes.act (.save mapId _)).after fun _ => .pure _
  refine .ite ?_ last
  cases a.indirect with
  | some table => exact (Takes.act (.save a.map.indirect table)).after fun _ => last
  | none => exact last

end Takes
end Content

theorem Asks.content (mapId : Id) (map : BlockMap) (data : ByteArray) (offset : Nat) :
    Asks (2 * maxBlocks) (Content.write mapId map data offset) := by
  intro cache
  apply Access.Frugal.bind (n := 0)
  · apply Access.Frugal.bind (n := 0)
    · exact Content.Takes.writeBlocks mapId data offset { map } cache
    · exact fun _ => trivial
  · exact fun _ => trivial

end RecordFs
