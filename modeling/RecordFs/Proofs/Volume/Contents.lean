import RecordFs.Proofs.Volume.Metadata
import RecordFs.Proofs.Volume.Rewriting

/-! Writing and resizing files. Where a call fails, the first bytes are block by block what they
were or what they were to become; where it succeeds, they are the file with the data laid over it. -/
namespace RecordFs
open Content (overlaid Mixed)
open Outline Volume

namespace Outline

theorem setContent_setContent (o : Outline) (id : Id) (a b : Nat → UInt8) :
    (o.setContent id a).setContent id b = o.setContent id b := by
  simp only [setContent, Function.update_idem]

variable {old old' view : Nat → UInt8} {size offset : Nat} {data : ByteArray}

/-- The first bytes are those of the file, and zeros from its end to `offset`. -/
def Ready (old : Nat → UInt8) (size offset : Nat) (old' : Nat → UInt8) : Prop :=
  ∀ n < max size offset, old' n = within size old n

theorem Ready.inside (h : Ready old size offset old') {n : Nat} (inside : n < size) : old' n = old n :=
  (h n (by omega)).trans (if_pos inside)

theorem Ready.torn (h : Ready old size offset old')
    (mixed : Mixed old' (overlaid old' data offset (offset + data.size)) view) : Torn old size data offset view := by
  refine fun k => (mixed k).imp (fun same n inside here => ?_) fun new n inside here => ?_
  · rw [same n here, h.inside inside]
  · rw [new n here, overlaid, overlaid, h.inside inside]

theorem Ready.filled (h : Ready old size offset old') :
    Filled old size data offset (overlaid old' data offset (offset + data.size)) := by
  intro n inside
  rw [overlaid, overlaid]
  split
  · rfl
  · exact h n (by omega)

theorem torn_old (old : Nat → UInt8) (size : Nat) (data : ByteArray) (offset : Nat)
    (same : ∀ n < size, view n = old n) : Torn old size data offset view :=
  fun _ => .inl fun n inside _ => same n inside

end Outline

namespace World
variable {α : Type} {faulty : Prop} {w w' : World} {id : Id} {m : BlockMap} {i : Inode} {data : ByteArray} {offset : Nat}

theorem content_of_map (stored : w.get BlockMap id = some m) : w.content id = some ((w.layout m).view w) := by
  rw [content, stored, Option.map_some]

theorem get_inode_of_setContent {view : Nat → UInt8} {x : Id} (outline : w'.outline = w.outline.setContent id view)
    (stored : w.get Inode x = some i) : w'.get Inode x = some i := by
  rw [← outline_inode, outline]
  exact stored

theorem Sound.ensures_write (h : w.Sound) (stored : w.get BlockMap id = some m) (fits : offset + data.size ≤ maxFileSize) :
    Ensures faulty (Content.write id m data offset) w fun r w' => ∃ view, w'.Sound ∧
      w'.outline = w.outline.setContent id view ∧
      ((r = .ok data.size ∧ view = overlaid ((w.layout m).view w) data offset (offset + data.size)) ∨
        faulty ∧ (∃ f, r = .error (.ofFault f)) ∧
          Mixed ((w.layout m).view w) (overlaid ((w.layout m).view w) data offset (offset + data.size)) view) := by
  have apart := h.apart_of_room (room_of_get stored) (by decide)
  refine (Content.ensures_write h.closed (h.held stored) stored apart fits).mono ?_
  rintro r w' ⟨l, written⟩
  obtain ⟨sound, outline⟩ := h.rewrite stored written.toRewritten
  exact ⟨_, sound, outline, written.result⟩

theorem Sound.ensures_clear (h : w.Sound) (stored : w.get BlockMap id = some m) (start stop : Nat) (le : stop ≤ maxFileSize) :
    Ensures faulty (Content.clear m start stop) w fun r w' => ∃ view, w'.Sound ∧
      w'.outline = w.outline.setContent id view ∧ w'.get BlockMap id = some m ∧
      (∀ n, ¬ (start ≤ n ∧ n < stop) → view n = (w.layout m).view w n) ∧
      ((r = .ok () ∧ ∀ n, start ≤ n → n < stop → view n = 0) ∨ faulty ∧ ∃ f, r = .error (.ofFault f)) := by
  refine (Content.ensures_clear (h.held stored) start stop).mono fun r w' cleared => ?_
  rw [Nat.min_eq_left le] at cleared
  have re := cleared.rewritten h.closed (h.held stored) stored
  obtain ⟨sound, outline⟩ := h.rewrite stored re
  exact ⟨_, sound, outline, re.map, cleared.outside, cleared.result⟩

theorem Sound.save_file (h : w.Sound) (stored : w.get Inode i.self = some i) (now : Int64) {n : Nat}
    (le : n ≤ maxFileSize) : (w.save i.self (touched now i n)).Sound ∧
      (w.save i.self (touched now i n)).outline = w.outline.setInode (touched now i n) := by
  refine h.update_inode (i := touched now i n) stored rfl rfl ⟨rfl, (h.inode _ _ stored).mode, fun _ => ?_⟩
  have small : maxFileSize < 2 ^ 64 := by decide
  change (UInt64.ofNat n).toNat ≤ maxFileSize
  rw [UInt64.toNat_ofNat', Nat.mod_eq_of_lt (Nat.lt_of_le_of_lt le small)]
  exact le

section store
variable {old old' view : Nat → UInt8} {size : Nat} {answer : α} {o : Outline} (now : Int64)

/-- A fault that came after some of the data was stored. -/
theorem Sound.follows_of_torn (h : w'.Sound) (before : o.Sound) (hf : faulty) (f : Fault)
    (torn : Torn old i.size.toNat data offset view) (outline : w'.outline = o.setContent i.data view) :
    Follows faulty (.ok (storing now i old data offset size answer)) o (.error (.ofFault f)) w'.outline := by
  refine .inr ⟨_, answer, ⟨rfl, view, _, torn, fun _ _ => rfl, rfl⟩, ?_⟩
  have after := h.outline
  rw [outline] at after ⊢
  exact .step before (.fault after hf f)

/-- The data is stored, and the inode follows. -/
theorem Sound.ensures_stored (h : w'.Sound) (before : o.Sound) (stored : w'.get Inode i.self = some i) (le : size ≤ maxFileSize)
    (outline : w'.outline = o.setContent i.data view) (filled : Filled old i.size.toNat data offset view) :
    Ensures faulty (do Store.saveInode (touched now i size); return answer) w'
      (Leaves (Follows faulty (.ok (storing now i old data offset size answer)) o)) := by
  have saved := h.save_file stored now le
  have step : Ensures faulty (do Store.saveInode (touched now i size); return answer) w'
      (Leaves (Carried faulty [.inode (touched now i size)] answer w'.outline)) :=
    h.ensures_step (writable_inode w' _) saved.2 ⟨saved.1, .done saved.1.outline⟩
  refine step.mono fun r w'' ⟨sound, carried⟩ => ⟨sound, .inr ⟨_, answer, ⟨rfl, old, view, ?_, filled, rfl⟩, ?_⟩⟩
  · exact torn_old old _ data offset fun _ _ => rfl
  · have twice : w'.outline = (o.setContent i.data old).setContent i.data view := by
      rw [outline, setContent_setContent]
    rw [twice] at carried
    exact .step (c := .content i.data old) before (.step (c := .content i.data view) (before.setContent _ _) carried)

/-- Data is laid over a file whose bytes up to the data are in place. -/
theorem Sound.ensures_lay (h : w.Sound) (stored : w.get Inode i.self = some i) (map : w.get BlockMap i.data = some m)
    (fits : offset + data.size ≤ maxFileSize) (sizeOf : Nat → Nat) (le : sizeOf data.size ≤ maxFileSize)
    (answerOf : Nat → α) (before : o.Sound) (outline : w.outline = o.setContent i.data old')
    (ready : Ready old i.size.toNat offset old') :
    Ensures faulty (do
      let written ← Content.write i.data m data offset
      Store.saveInode (touched now i (sizeOf written))
      return answerOf written) w
      (Leaves (Follows faulty (.ok (storing now i old data offset (sizeOf data.size) (answerOf data.size))) o)) := by
  have content : old' = (w.layout m).view w := by
    have here : w.outline.content i.data = some old' := by
      rw [outline]
      exact Function.update_self ..
    exact Option.some.inj (here.symm.trans (content_of_map map))
  rw [ensures_bind]
  refine (h.ensures_write map fits).mono ?_
  rintro r w' ⟨view, sound, outline', result⟩
  rw [outline, setContent_setContent] at outline'
  rcases result with ⟨rfl, rfl⟩ | ⟨hf, ⟨f, rfl⟩, mixed⟩
  · have stored' : w'.get Inode i.self = some i := by
      rw [← outline_inode, outline']
      rw [← outline_inode, outline] at stored
      exact stored
    exact sound.ensures_stored now before stored' le outline' (content ▸ ready.filled)
  · rw [← content] at mixed
    exact ⟨sound, sound.follows_of_torn now before hf f (ready.torn mixed) outline'⟩

end store

theorem outline_setContent_self (h : w.get BlockMap id = some m) :
    w.outline.setContent id ((w.layout m).view w) = w.outline := by
  have same := content_of_map h
  rw [Outline.setContent, outline_content, ← same, Function.update_eq_self]
  rfl

theorem length_le_of_checkExtent {length : Nat} {stop : { stop : Nat // stop ≤ maxFileSize }}
    (ok : Content.checkExtent offset length = .ok stop) : offset + length ≤ maxFileSize := by
  rw [Content.checkExtent] at ok
  split at ok
  · rename_i within
    have : maxFileSize < Content.countMax := by decide
    omega
  · cases ok

theorem Sound.map_of_file (h : w.Sound) (stored : w.get Inode id = some i) (file : i.isDirectory = false) :
    ∃ m, w.get BlockMap i.data = some m := by
  have data := h.data_suited stored
  rwa [file, if_neg Bool.false_ne_true] at data

variable (now : Int64) (path : String)

/-- Data is laid over a file, with zeros from its end up to the data. -/
theorem Sound.ensures_extend (h : w.Sound) (stored : w.get Inode i.self = some i) (file : i.isDirectory = false)
    (map : w.get BlockMap i.data = some m) (fits : offset + data.size ≤ maxFileSize) :
    Ensures faulty (do
      if i.size.toNat < offset then Content.clear m i.size.toNat offset
      let written ← Content.write i.data m data offset
      Store.saveInode (touched now i (max i.size.toNat (offset + written)))
      return written) w
      (Leaves (Follows faulty (.ok (storing now i ((w.layout m).view w) data offset
        (max i.size.toNat (offset + data.size)) data.size)) w.outline)) := by
  have small := (h.inode _ _ stored).size file
  have le : max i.size.toNat (offset + data.size) ≤ maxFileSize := Nat.max_le.mpr ⟨small, fits⟩
  split
  · rename_i gap
    rw [ensures_bind]
    refine (h.ensures_clear map i.size.toNat offset (by omega)).mono ?_
    rintro r w' ⟨view, sound, outline, map', outside, ⟨rfl, zero⟩ | ⟨hf, f, rfl⟩⟩
    · have stored' := get_inode_of_setContent outline stored
      refine sound.ensures_lay now stored' map' fits (fun n => max i.size.toNat (offset + n)) le id h.outline outline fun n before => ?_
      rw [within]
      split
      · rename_i inside
        exact outside n (by omega)
      · exact zero n (by omega) (by omega)
    · refine ⟨sound, sound.follows_of_torn now h.outline hf f (torn_old _ _ data offset fun n inside => ?_) outline⟩
      exact outside n (by omega)
  · refine h.ensures_lay now stored map fits (fun n => max i.size.toNat (offset + n)) le id h.outline
      (outline_setContent_self map).symm fun n before => ?_
    rw [within, if_pos (by omega)]

theorem Sound.ensures_volume_write (h : w.Sound) (data : ByteArray) (offset : UInt64) :
    Ensures faulty (write now path data offset) w
      (Leaves (Follows faulty (w.outline.planWrite now path data offset.toNat) w.outline)) := by
  refine h.follows_bind (.ofExcept _) fun stop extent => h.follows_bind (h.yields_resolveFile path) fun i ok => ?_
  obtain ⟨resolved, file⟩ := resolveFile_eq_ok.mp ok
  have stored := h.outline.resolve_stored resolved
  split
  · exact ⟨h, .just (.done h.outline)⟩
  · obtain ⟨m, map⟩ := h.map_of_file stored file
    rw [planStore, outline_content, content_of_map map]
    refine (Store.yields_load map).andThen (fun hf f => ⟨h, .fault hf f⟩) nofun ?_
    rintro _ ⟨⟩
    exact h.ensures_extend now stored file map (length_le_of_checkExtent extent)

theorem Sound.ensures_resize (h : w.Sound) (size : UInt64) :
    Ensures faulty (resize now path size) w
      (Leaves (Follows faulty (w.outline.planResize now path size.toNat) w.outline)) := by
  rw [resize, planResize]
  split
  · exact ⟨h, .refused _⟩
  · rename_i fits
    refine h.follows_bind (h.yields_resolveFile path) fun i ok => ?_
    obtain ⟨resolved, file⟩ := resolveFile_eq_ok.mp ok
    have stored := h.outline.resolve_stored resolved
    simp only [UInt64.lt_iff_toNat_lt]
    split
    · rename_i grows
      obtain ⟨m, map⟩ := h.map_of_file stored file
      rw [planStore, outline_content, content_of_map map]
      refine (Store.yields_load map).andThen (fun hf f => ⟨h, .fault hf f⟩) nofun ?_
      rintro _ ⟨⟩
      have last : i.size.toNat + (zeros (size.toNat - i.size.toNat)).size = size.toNat := by
        rw [size_zeros]
        omega
      have ready : Ready ((w.layout m).view w) i.size.toNat i.size.toNat ((w.layout m).view w) := by
        intro n before
        rw [within, if_pos (by omega)]
      rw [← bind_pure (Store.saveInode _)]
      exact h.ensures_lay now stored map (by rw [last]; omega) (fun _ => size.toNat) (by omega) (fun _ => ()) h.outline
        (outline_setContent_self map).symm ready
    · have saved := h.save_file stored now (n := size.toNat) (by omega)
      have step : Ensures faulty (do Store.saveInode (touched now i size.toNat); return ()) w
          (Leaves (Carried faulty [.inode (touched now i size.toNat)] () w.outline)) :=
        h.ensures_step (writable_inode w _) saved.2 ⟨saved.1, .done saved.1.outline⟩
      rw [bind_pure] at step
      exact step.mono fun r w' ⟨sound, carried⟩ => ⟨sound, .just carried⟩

end World
end RecordFs
