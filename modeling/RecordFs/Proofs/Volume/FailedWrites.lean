import RecordFs.Proofs.Tree.FullStores
import RecordFs.Proofs.Volume.ContentLaws

/-! A write or a resize that fails damages nothing outside its range: of the bytes that were there,
each block has all of its part of the data or none of it. -/
namespace RecordFs
open Content (overlaid)
open Outline Volume

namespace Outline
variable {o o' : Outline} {now : Int64} {i : Inode} {old view : Nat → UInt8} {data : ByteArray} {offset size : Nat}

theorem Filled.torn (filled : Filled old size data offset view) : Torn old size data offset view := by
  refine fun _ => .inr fun n inside _ => ?_
  rw [filled n (by omega), overlaid, overlaid, within, if_pos inside]

/-- What a call that lays bytes over a file leaves when it fails. -/
theorem torn_of_failed {α β : Type} {faulty : Prop} {answer b : β} {a : α} {e : Failure} {changes : List Change}
    (planned : storing now i old data offset size answer changes b) (carried : Carried faulty changes a o (.error e) o') :
    o' = o ∨ ∃ view, Torn old i.size.toNat data offset view ∧ o' = o.setContent i.data view := by
  obtain ⟨_, torn, filled, first, second, rfl⟩ := planned
  rcases carried.cons with rfl | ⟨_, rest⟩
  · exact .inl rfl
  rcases rest.cons with rfl | ⟨_, rest⟩
  · exact .inr ⟨torn, first, rfl⟩
  rcases rest.cons with rfl | ⟨_, rest⟩
  · exact .inr ⟨filled, second.torn, setContent_setContent o i.data torn filled⟩
  · cases rest

end Outline

namespace Session

/-- Bytes after a write at `offset` that failed on the way. -/
structure TornBytes (old new data : ByteArray) (offset : Nat) : Prop where
  size : new.size = old.size
  outside : ∀ n < old.size, ¬ (offset ≤ n ∧ n < offset + data.size) → byteAt new n = byteAt old n
  inside : ∀ k, (∀ n < old.size, n / blockSize = k → offset ≤ n → n < offset + data.size → byteAt new n = byteAt old n) ∨
    ∀ n < old.size, n / blockSize = k → offset ≤ n → n < offset + data.size → byteAt new n = byteAt data (n - offset)

/-- All entries are what they were, and all files but the one at `path` hold what they held. -/
structure Spared (s t : Session) (path : String) : Prop where
  attributes : ∀ other, t.observe (attributes other) = s.observe (attributes other)
  elsewhere : ∀ other c, Path.segments other ≠ Path.segments path → (t.content other = .ok c ↔ s.content other = .ok c)

/-- What a write or a resize that fails leaves. -/
structure FailureLaws (s : Session) : Prop where
  write : ∀ {now path data offset e t}, s.Performs now (.write path data offset) (.error e) t → s.Spared t path ∧
    ∀ c, s.content path = .ok c → ∃ c', t.content path = .ok c' ∧ TornBytes c c' data offset.toNat
  resize : ∀ {now path size e t}, s.Performs now (.resize path size) (.error e) t → s.Spared t path ∧
    ∀ c, s.content path = .ok c → t.content path = .ok c

variable {s t : Session} {now : Int64} {path : String} {data : ByteArray} {offset : Nat} {e : Failure}
  {old view : Nat → UInt8} {size : Nat}

theorem tornBytes_of_torn (torn : Torn old size data offset view) :
    TornBytes (bytesOf old size) (bytesOf view size) data offset := by
  refine ⟨by rw [size_bytesOf, size_bytesOf], fun n inside out => ?_, fun k => ?_⟩
  · rw [size_bytesOf] at inside
    rw [byteAt_bytesOf, byteAt_bytesOf, if_pos inside, if_pos inside]
    rcases torn (n / blockSize) with same | new
    · exact same n inside rfl
    · rw [new n inside rfl, overlaid, if_neg out]
  · simp only [size_bytesOf]
    refine (torn k).imp (fun same n inside here _ _ => ?_) fun new n inside here from_ before => ?_
    · rw [byteAt_bytesOf, byteAt_bytesOf, if_pos inside, if_pos inside, same n inside here]
    · rw [byteAt_bytesOf, if_pos inside, new n inside here, overlaid, if_pos ⟨from_, before⟩]

theorem observe_attributes (h : s.world.Sound) (path : String) :
    s.observe (attributes path) = s.world.outline.attributes path := observe_of_yields (h.yields_attributes path)

/-- Nothing has changed but the bytes of the file at `path`, and of those each block has all of the data or none. -/
def Torn (s t : Session) (path : String) (data : ByteArray) (offset : Inode → Nat) : Prop :=
  t.world.outline = s.world.outline ∨ ∃ i old view, s.world.outline.resolveFile path = .ok i ∧
    s.world.outline.content i.data = some old ∧ Outline.Torn old i.size.toNat data (offset i) view ∧
    t.world.outline = s.world.outline.setContent i.data view

theorem Torn.attributes {offset : Inode → Nat} (h : s.world.Sound) (sound : t.world.Sound) (torn : Torn s t path data offset)
    (other : String) : t.observe (Volume.attributes other) = s.observe (Volume.attributes other) := by
  rw [observe_attributes sound, observe_attributes h]
  rcases torn with same | ⟨i, old, view, _, _, _, changed⟩
  · rw [same]
  · rw [changed]
    rfl

theorem Torn.content {offset : Inode → Nat} {c : ByteArray} (h : s.world.Sound) (sound : t.world.Sound)
    (torn : Torn s t path data offset) (content : s.content path = .ok c) :
    ∃ i c', t.content path = .ok c' ∧ c.size = i.size.toNat ∧ TornBytes c c' data (offset i) := by
  obtain ⟨i, old, found, stored, rfl⟩ := (content_eq_ok h).mp content
  rcases torn with same | ⟨j, old', view, found', stored', torn, changed⟩
  · refine ⟨i, _, ?_, size_bytesOf _ _, rfl, fun _ _ _ => rfl, fun _ => .inl fun _ _ _ _ _ => rfl⟩
    rw [content_eq sound, same, ← content_eq h, content]
  · rw [found] at found'
    cases found'
    rw [stored] at stored'
    cases stored'
    refine ⟨i, bytesOf view i.size.toNat, (content_eq_ok sound).mpr ⟨i, view, ?_, ?_, rfl⟩, size_bytesOf _ _,
      tornBytes_of_torn torn⟩
    · rw [changed]
      exact found
    · rw [changed, content_setContent]

theorem torn_of_failed_write {offset : UInt64} (h : s.world.Sound)
    (performed : s.Performs now (.write path data offset) (.error e) t) : Torn s t path data fun _ => offset.toNat := by
  rcases (performed.follows h).2.carried with same | ⟨plan, changes, n, planned, allowed, carried⟩
  · exact .inl same
  · obtain ⟨_, i, found, ⟨_, rfl⟩ | ⟨_, old, content, rfl⟩⟩ := planWrite_eq_ok planned
    · obtain ⟨rfl, _⟩ := allowed
      exact .inl carried.nil
    · exact (torn_of_failed allowed carried).imp_right fun ⟨view, torn, changed⟩ => ⟨i, old, view, found, content, torn, changed⟩

theorem torn_of_failed_resize {size : UInt64} (h : s.world.Sound)
    (performed : s.Performs now (.resize path size) (.error e) t) :
    ∃ data, Torn s t path data fun i => i.size.toNat := by
  rcases (performed.follows h).2.carried with same | ⟨plan, changes, n, planned, allowed, carried⟩
  · exact ⟨.empty, .inl same⟩
  · obtain ⟨_, i, found, ⟨_, old, content, rfl⟩ | ⟨_, rfl⟩⟩ := planResize_eq_ok planned
    · exact ⟨_, (torn_of_failed allowed carried).imp_right fun ⟨view, torn, changed⟩ =>
        ⟨i, old, view, found, content, torn, changed⟩⟩
    · obtain ⟨rfl, _⟩ := allowed
      rcases carried.cons with same | ⟨_, rest⟩
      · exact ⟨.empty, .inl same⟩
      · cases rest

theorem Torn.spared {offset : Inode → Nat} {call : Call} {r : Except Failure Answer} (h : s.world.Sound)
    (performed : s.Performs now call r t) (place : call.place? = some path) (torn : Torn s t path data offset) :
    s.Spared t path := by
  refine ⟨torn.attributes h (performed.follows h).1, fun other c apart => content_elsewhere h performed c fun p named => ?_⟩
  rw [place] at named
  cases named
  exact apart

/-- A failure on the way of a write or a resize damages nothing else. -/
theorem Reachable.failureLaws (h : Reachable s) : s.FailureLaws where
  write performed := by
    have torn := torn_of_failed_write h.sound performed
    refine ⟨torn.spared h.sound performed rfl, fun c content => ?_⟩
    obtain ⟨_, c', after, _, bytes⟩ := torn.content h.sound (performed.follows h.sound).1 content
    exact ⟨c', after, bytes⟩
  resize performed := by
    obtain ⟨data, torn⟩ := torn_of_failed_resize h.sound performed
    refine ⟨torn.spared h.sound performed rfl, fun c content => ?_⟩
    obtain ⟨i, c', after, size, bytes⟩ := torn.content h.sound (performed.follows h.sound).1 content
    have same : c' = c := ext_byteAt bytes.size fun n inside => by
      have before : n < c.size := bytes.size ▸ inside
      exact bytes.outside n before (by omega)
    rw [after, same]

/-- A file of three bytes on a full store is neither written over nor shrunk. -/
theorem failureLaws_written : written.full.Reachable ∧ written.full.FailureLaws ∧
    (∃ f t c, written.full.Performs 4 (.write "/d/f" "new".toUTF8 0) (.error (.ofFault f)) t ∧
      written.full.Spared t "/d/f" ∧ t.content "/d/f" = .ok c ∧ TornBytes "old".toUTF8 c "new".toUTF8 0) ∧
    ∃ f t, written.full.Performs 4 (.resize "/d/f" 2) (.error (.ofFault f)) t ∧ written.full.Spared t "/d/f" ∧
      t.content "/d/f" = .ok "old".toUTF8 := by
  have sound := displays_written.shows.sound
  have reachable := displays_written.reachable.full
  have laws := Reachable.failureLaws reachable
  have held : written.full.content "/d/f" = .ok "old".toUTF8 :=
    (written.kept_full.content_eq sound reachable.sound "/d/f").trans content_of_written
  obtain ⟨f, t, failed, _⟩ :=
    displays_written.fails_of_full (by decide) 4 (.write "/d/f" "new".toUTF8 0) "/d/f" (by decide +kernel)
  obtain ⟨f', t', failed', _⟩ := displays_written.fails_of_full (by decide) 4 (.resize "/d/f" 2) "/d/f" (by decide +kernel)
  obtain ⟨spared, torn⟩ := laws.write failed
  obtain ⟨c, after, bytes⟩ := torn _ held
  obtain ⟨spared', same⟩ := laws.resize failed'
  exact ⟨reachable, laws, ⟨f, t, c, failed, spared, after, bytes⟩, f', t', failed', spared', same _ held⟩

end Session
end RecordFs
