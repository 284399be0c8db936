import RecordFs.Proofs.Tree.Running
import RecordFs.Proofs.Volume.Observing

/-! What files hold: a vector of bytes each, whatever happened before. -/
namespace RecordFs
open Content (overlaid)
open Outline Volume

namespace Outline
variable {o o' : Outline} {path : String} {now : Int64} {i : Inode} {place : Opening} {old view : Nat → UInt8}
  {data : ByteArray} {offset size : Nat}

/-- A new file is empty. -/
theorem Made.file?_eq (made : Made now o path place i o') (last : lastName path = .ok place.name) (kind : i.kind = .file)
    (size : i.size = 0) : o'.file? (Path.segments path) = some .empty := by
  have other : Path.segments path ≠ (Path.segments path).dropLast := fun same =>
    not_prefix_dropLast last (same ▸ List.prefix_rfl)
  have walk := made.walk path (Path.segments path)
  rw [if_neg other, if_pos rfl] at walk
  have file : i.isDirectory = false := by
    rw [Inode.isDirectory, kind]
    rfl
  have content : o'.content i.data = some fun _ => 0 := by
    rw [made.content, kind]
    exact content_setContent o i.data _
  rw [file?_of_walk walk, file, content, size]
  rfl

theorem toNat_size_touched (now : Int64) (i : Inode) {n : Nat} (le : n ≤ maxFileSize) : (touched now i n).size.toNat = n := by
  have small : maxFileSize < 2 ^ 64 := by decide
  change (UInt64.ofNat n).toNat = n
  rw [UInt64.toNat_ofNat', Nat.mod_eq_of_lt (Nat.lt_of_le_of_lt le small)]

theorem Laid.file?_eq {place : List String} (laid : Laid now o place i size view o') (file : i.isDirectory = false)
    (le : size ≤ maxFileSize) : o'.file? place = some (bytesOf view size) := by
  have walk := laid.walk "" place
  rw [if_pos rfl] at walk
  have same : (touched now i size).isDirectory = i.isDirectory := rfl
  have data : (touched now i size).data = i.data := rfl
  rw [file?_of_walk walk, same, file, data, laid.content, toNat_size_touched now i le]
  rfl

/-- Data laid over the bytes of a file. -/
theorem Filled.splice_eq (filled : Filled old size data offset view) :
    bytesOf view (max size (offset + data.size)) = splice (bytesOf old size) data offset := by
  apply ext_byteAt
  · rw [size_splice, size_bytesOf, size_bytesOf]
  · intro n inside
    rw [size_bytesOf] at inside
    rw [byteAt_bytesOf, if_pos inside, filled n inside, byteAt_splice, byteAt_bytesOf, overlaid, within]

/-- Zeros laid behind the bytes of a file. -/
theorem Filled.resized_eq {n : Nat} (grows : size ≤ n) (filled : Filled old size (zeros (n - size)) size view) :
    bytesOf view n = resized (bytesOf old size) n := by
  apply ext_byteAt
  · rw [size_resized, size_bytesOf]
  · intro k inside
    rw [size_bytesOf] at inside
    rw [byteAt_bytesOf, if_pos inside, byteAt_resized, if_pos inside, byteAt_bytesOf,
      filled k (by rw [size_zeros]; omega), overlaid, within]
    split
    · rw [byteAt_zeros, if_neg (by omega)]
    · rfl

theorem bytesOf_resized (old : Nat → UInt8) {n : Nat} (shrinks : n ≤ size) :
    bytesOf old n = resized (bytesOf old size) n := by
  apply ext_byteAt
  · rw [size_resized, size_bytesOf]
  · intro k inside
    rw [size_bytesOf] at inside
    rw [byteAt_bytesOf, if_pos inside, byteAt_resized, if_pos inside, byteAt_bytesOf, if_pos (by omega)]

end Outline

namespace Session

/-- What files hold, told by what reading a file over all its size gives. -/
structure ContentLaws (s : Session) : Prop where
  /-- A file that was just made is empty. -/
  made : ∀ {now path mode uid gid a t}, s.Performs now (.makeFile path mode uid gid) (.ok a) t →
    t.content path = .ok .empty
  written : ∀ {now path data offset a t}, data.size ≠ 0 → s.Performs now (.write path data offset) (.ok a) t →
    a = .count data.size ∧ ∃ c, s.content path = .ok c ∧ t.content path = .ok (splice c data offset.toNat)
  unwritten : ∀ {now path data offset r t}, data.size = 0 → s.Performs now (.write path data offset) r t →
    ∀ other, t.content other = s.content other
  resized : ∀ {now path size a t}, s.Performs now (.resize path size) (.ok a) t →
    ∃ c, s.content path = .ok c ∧ t.content path = .ok (resized c size.toNat)
  /-- No call, not even one that fails, makes, changes or removes a file that is not at its path. -/
  elsewhere : ∀ {now call r t}, s.Performs now call r t → ∀ other c,
    (∀ path ∈ call.place?, Path.segments other ≠ Path.segments path) → (t.content other = .ok c ↔ s.content other = .ok c)
  /-- No call changes a file that it does not remove or write, not even when its path is that of the file. -/
  kept : ∀ {now call r t path c}, s.Performs now call r t → s.content path = .ok c →
    (∀ p ∈ call.altered?, Path.segments path ≠ Path.segments p) → t.content path = .ok c
  read : ∀ {now path offset length r t c}, s.content path = .ok c → s.Performs now (.read path offset length) r t →
    r = .ok (.bytes (c.extract offset.toNat (min (offset.toNat + length) c.size))) ∨
      s.disk.Faulty ∧ ∃ f, r = .error (.ofFault f)
  /-- A file can be written up to the greatest size. -/
  write_fits : ∀ {now path data offset r t c}, s.content path = .ok c → s.Performs now (.write path data offset) r t →
    offset.toNat + data.size ≤ maxFileSize → r = .ok (.count data.size) ∨ s.disk.Faulty ∧ ∃ f, r = .error (.ofFault f)
  write_beyond : ∀ {now path data offset r t}, s.Performs now (.write path data offset) r t →
    maxFileSize < offset.toNat + data.size →
    r = .error (.fileTooLarge (min (offset.toNat + data.size) Content.countMax) maxFileSize) ∨
      s.disk.Faulty ∧ ∃ f, r = .error (.ofFault f)
  resize_fits : ∀ {now path size r t c}, s.content path = .ok c → s.Performs now (.resize path size) r t →
    size.toNat ≤ maxFileSize → r = .ok .done ∨ s.disk.Faulty ∧ ∃ f, r = .error (.ofFault f)
  resize_beyond : ∀ {now path size r t}, s.Performs now (.resize path size) r t → maxFileSize < size.toNat →
    r = .error (.fileTooLarge size.toNat maxFileSize) ∨ s.disk.Faulty ∧ ∃ f, r = .error (.ofFault f)
  /-- How a path is spelled does not matter. -/
  spelled : ∀ {path other c}, Path.segments path = Path.segments other → Path.check other = .ok () →
    s.content path = .ok c → s.content other = .ok c

variable {s t : Session} {now : Int64} {path : String} {data : ByteArray} {offset : UInt64} {a : Answer}
  {r : Except Failure Answer}

theorem content_made {mode uid gid : UInt32} (h : s.world.Sound)
    (performed : s.Performs now (.makeFile path mode uid gid) (.ok a) t) : t.content path = .ok .empty := by
  obtain ⟨sound, follows⟩ := performed.follows h
  obtain ⟨place, self, data, opens, new, _, made⟩ := follows.made h.outline
  rw [content_eq_ok_iff_file? sound]
  exact ⟨(lastName_eq_ok.mp opens.last).1, made.file?_eq opens.last (Inode.kind_of_mode (k := .file) rfl) rfl⟩

theorem content_written (h : s.world.Sound) (nonempty : data.size ≠ 0)
    (performed : s.Performs now (.write path data offset) (.ok a) t) :
    a = .count data.size ∧ ∃ c, s.content path = .ok c ∧ t.content path = .ok (splice c data offset.toNat) := by
  obtain ⟨sound, follows⟩ := performed.follows h
  obtain ⟨plan, changes, _, planned, allowed, carried⟩ := follows.succeeded
  obtain ⟨⟨_, extent⟩, i, found, ⟨empty, _⟩ | ⟨_, old, content, rfl⟩⟩ := planWrite_eq_ok planned
  · exact absurd (eq_of_beq empty) nonempty
  obtain ⟨resolved, file⟩ := resolveFile_eq_ok.mp found
  have stored := h.outline.resolve_stored resolved
  obtain ⟨rfl, rfl, view, filled, laid⟩ := laid_of_carried (walk_of_resolveFile found) allowed carried
  have fits := World.length_le_of_checkExtent extent
  have small := (h.inode _ _ stored).size file
  refine ⟨rfl, bytesOf old i.size.toNat, (content_eq_ok h).mpr ⟨i, old, found, content, rfl⟩, ?_⟩
  rw [content_eq_ok_iff_file? sound, laid.file?_eq file (by omega), filled.splice_eq]
  exact ⟨(resolve_eq_ok.mp resolved).1, rfl⟩

theorem content_unwritten (h : s.world.Sound) (empty : data.size = 0)
    (performed : s.Performs now (.write path data offset) r t) (other : String) : t.content other = s.content other := by
  obtain ⟨sound, follows⟩ := performed.follows h
  have same : t.world.outline = s.world.outline := by
    rcases follows.carried with same | ⟨plan, changes, _, planned, allowed, carried⟩
    · exact same
    · obtain ⟨_, i, _, ⟨_, rfl⟩ | ⟨some, _⟩⟩ := planWrite_eq_ok planned
      · obtain ⟨rfl, _⟩ := allowed
        exact carried.nil
      · rw [ByteArray.isEmpty, empty] at some
        cases some
  rw [content_eq sound, content_eq h, same]

theorem content_resized {size : UInt64} (h : s.world.Sound) (performed : s.Performs now (.resize path size) (.ok a) t) :
    ∃ c, s.content path = .ok c ∧ t.content path = .ok (resized c size.toNat) := by
  obtain ⟨sound, follows⟩ := performed.follows h
  obtain ⟨plan, changes, _, planned, allowed, carried⟩ := follows.succeeded
  obtain ⟨fits, i, found, planned⟩ := planResize_eq_ok planned
  obtain ⟨resolved, file⟩ := resolveFile_eq_ok.mp found
  have stored := h.outline.resolve_stored resolved
  obtain ⟨old, content⟩ := h.outline.file _ _ stored file
  refine ⟨bytesOf old i.size.toNat, (content_eq_ok h).mpr ⟨i, old, found, content, rfl⟩, ?_⟩
  rw [content_eq_ok_iff_file? sound]
  refine ⟨(resolve_eq_ok.mp resolved).1, ?_⟩
  rcases planned with ⟨grows, old', content', rfl⟩ | ⟨shrinks, rfl⟩
  · rw [content] at content'
    cases content'
    obtain ⟨_, _, view, filled, laid⟩ := laid_of_carried (walk_of_resolveFile found) allowed carried
    rw [laid.file?_eq file fits, filled.resized_eq (by omega)]
  · obtain ⟨rfl, _⟩ := allowed
    obtain ⟨_, rest⟩ := carried.cons_ok
    have walk := h.outline.walk_setInode (j := touched now i size.toNat) (walk_of_resolveFile found) rfl rfl rfl
      (Path.segments path)
    rw [if_pos rfl] at walk
    have same : t.world.outline = s.world.outline.setInode (touched now i size.toNat) := rest.nil_ok.2
    rw [same, file?_eq_some path]
    refine ⟨_, old, walk, file, content, ?_⟩
    rw [toNat_size_touched now i fits, bytesOf_resized old shrinks]

theorem content_elsewhere {call : Call} (h : s.world.Sound) (performed : s.Performs now call r t) {other : String}
    (c : ByteArray) (apart : ∀ path ∈ call.place?, Path.segments other ≠ Path.segments path) :
    t.content other = .ok c ↔ s.content other = .ok c := by
  obtain ⟨sound, follows⟩ := performed.follows h
  rw [content_eq_ok_iff_file? sound, content_eq_ok_iff_file? h, follows.file?_eq h.outline apart]

theorem content_kept {call : Call} {c : ByteArray} (h : s.world.Sound) (performed : s.Performs now call r t)
    (content : s.content path = .ok c) (apart : ∀ p ∈ call.altered?, Path.segments path ≠ Path.segments p) :
    t.content path = .ok c := by
  obtain ⟨sound, follows⟩ := performed.follows h
  rw [content_eq_ok_iff_file? h] at content
  rw [content_eq_ok_iff_file? sound]
  exact ⟨content.1, follows.file?_kept h.outline content.2 apart⟩

theorem content_read {length : Nat} {c : ByteArray} (h : s.world.Sound) (content : s.content path = .ok c)
    (performed : s.Performs now (.read path offset length) r t) :
    r = .ok (.bytes (c.extract offset.toNat (min (offset.toNat + length) c.size))) ∨
      s.disk.Faulty ∧ ∃ f, r = .error (.ofFault f) := by
  obtain ⟨i, view, found, stored, rfl⟩ := (content_eq_ok h).mp content
  have whole : s.world.outline.read path offset.toNat length =
      .ok ((bytesOf view i.size.toNat).extract offset.toNat (min (offset.toNat + length) (bytesOf view i.size.toNat).size)) := by
    refine read_eq_ok.mpr ⟨i, view, found, stored, ext_byteAt ?_ fun n inside => ?_⟩
    · rw [size_bytesOf, ByteArray.size_extract, size_bytesOf]
      omega
    · rw [size_bytesOf] at inside
      rw [byteAt_bytesOf, if_pos inside, byteAt_extract, size_bytesOf, if_pos (by omega), byteAt_bytesOf, if_pos (by omega)]
  obtain ⟨sound, follows⟩ := performed.follows h
  rcases follows.result with ⟨plan, changes, b, planned, allowed, rfl⟩ | ⟨e, refused, _⟩ | failed
  · rw [whole] at planned
    cases planned
    obtain ⟨_, rfl⟩ := allowed
    exact .inl rfl
  · rw [whole] at refused
    cases refused
  · exact .inr failed

theorem content_write_fits {c : ByteArray} (h : s.world.Sound) (content : s.content path = .ok c)
    (performed : s.Performs now (.write path data offset) r t) (fits : offset.toNat + data.size ≤ maxFileSize) :
    r = .ok (.count data.size) ∨ s.disk.Faulty ∧ ∃ f, r = .error (.ofFault f) := by
  obtain ⟨i, view, found, stored, rfl⟩ := (content_eq_ok h).mp content
  obtain ⟨sound, follows⟩ := performed.follows h
  rcases follows.result with ⟨plan, changes, n, planned, allowed, rfl⟩ | ⟨e, refused, _⟩ | failed
  · refine .inl (congrArg (fun n => Except.ok (Answer.count n)) ?_)
    obtain ⟨_, i, _, ⟨empty, rfl⟩ | ⟨_, old, _, rfl⟩⟩ := planWrite_eq_ok planned
    · obtain ⟨_, rfl⟩ := allowed
      exact (eq_of_beq empty).symm
    · exact allowed.1
  · obtain ⟨plan, planned⟩ := planWrite_isOk found stored fits
    rw [planned] at refused
    cases refused
  · exact .inr failed

theorem content_write_beyond (h : s.world.Sound) (performed : s.Performs now (.write path data offset) r t)
    (beyond : maxFileSize < offset.toNat + data.size) :
    r = .error (.fileTooLarge (min (offset.toNat + data.size) Content.countMax) maxFileSize) ∨
      s.disk.Faulty ∧ ∃ f, r = .error (.ofFault f) := by
  obtain ⟨sound, follows⟩ := performed.follows h
  rcases follows.result with ⟨plan, changes, n, planned, _, _⟩ | ⟨e, refused, rfl⟩ | failed
  · obtain ⟨⟨_, extent⟩, _⟩ := planWrite_eq_ok planned
    exact absurd (World.length_le_of_checkExtent extent) (by omega)
  · have beyond : ¬ min (offset.toNat + data.size) Content.countMax ≤ maxFileSize := by
      have : maxFileSize < Content.countMax := by decide
      omega
    rw [planWrite, Content.checkExtent, dif_neg beyond] at refused
    cases refused
    exact .inl rfl
  · exact .inr failed

theorem content_resize_beyond {size : UInt64} (h : s.world.Sound) (performed : s.Performs now (.resize path size) r t)
    (beyond : maxFileSize < size.toNat) :
    r = .error (.fileTooLarge size.toNat maxFileSize) ∨ s.disk.Faulty ∧ ∃ f, r = .error (.ofFault f) := by
  obtain ⟨sound, follows⟩ := performed.follows h
  rcases follows.result with ⟨plan, changes, n, planned, _, _⟩ | ⟨e, refused, rfl⟩ | failed
  · rw [planResize, if_pos beyond] at planned
    cases planned
  · rw [planResize, if_pos beyond] at refused
    cases refused
    exact .inl rfl
  · exact .inr failed

theorem content_resize_fits {size : UInt64} {c : ByteArray} (h : s.world.Sound) (content : s.content path = .ok c)
    (performed : s.Performs now (.resize path size) r t) (fits : size.toNat ≤ maxFileSize) :
    r = .ok .done ∨ s.disk.Faulty ∧ ∃ f, r = .error (.ofFault f) := by
  obtain ⟨i, view, found, stored, rfl⟩ := (content_eq_ok h).mp content
  obtain ⟨sound, follows⟩ := performed.follows h
  rcases follows.result with ⟨plan, changes, n, planned, allowed, rfl⟩ | ⟨e, refused, _⟩ | failed
  · exact .inl rfl
  · obtain ⟨plan, planned⟩ := planResize_isOk found stored fits
    rw [planned] at refused
    cases refused
  · exact .inr failed

theorem content_spelled {other : String} {c : ByteArray} (h : s.world.Sound)
    (same : Path.segments path = Path.segments other) (checked : Path.check other = .ok ())
    (content : s.content path = .ok c) : s.content other = .ok c := by
  rw [content_eq_ok_iff_file? h] at content ⊢
  exact ⟨checked, same ▸ content.2⟩

theorem ContentLaws.of_sound (h : s.world.Sound) : s.ContentLaws where
  made := content_made h
  written := content_written h
  unwritten := content_unwritten h
  resized := content_resized h
  elsewhere performed _ c := content_elsewhere h performed c
  kept performed := content_kept h performed
  read := content_read h
  write_fits := content_write_fits h
  write_beyond := content_write_beyond h
  resize_fits := content_resize_fits h
  resize_beyond := content_resize_beyond h
  spelled := content_spelled h

/-- Files behave as vectors of bytes in every reachable state. -/
theorem Reachable.contentLaws (h : Reachable s) : s.ContentLaws := .of_sound h.sound

/-- The file that was just made is empty. -/
theorem content_nested : nested.content "/d/f" = .ok .empty := by
  obtain ⟨_, _, displays⟩ := displays_first.succeeds (by decide) 1 (.makeDirectory "/d" 0o755 0 0) (by decide +kernel)
  obtain ⟨_, made, _⟩ := displays.succeeds (by decide) 2 (.makeFile "/d/f" 0o644 0 0) (by decide +kernel)
  rw [nested, nesting, after_cons]
  exact content_made displays.shows.sound made

/-- The file has three bytes. -/
def written : Session := nested.after [(3, .write "/d/f" "old".toUTF8 0)]

def writtenTree : Tree := nestedTree.after 3 (.write "/d/f" "old".toUTF8 0)

theorem displays_written : written.Displays writtenTree (2 + 2 * (2 * maxBlocks) + 2 * maxBlocks) := by
  obtain ⟨_, _, displays⟩ := displays_nested.succeeds (by decide) 3 (.write "/d/f" "old".toUTF8 0) (by decide +kernel)
  exact displays

theorem content_of_written : written.content "/d/f" = .ok "old".toUTF8 := by
  obtain ⟨_, performed, _⟩ := displays_nested.succeeds (by decide) 3 (.write "/d/f" "old".toUTF8 0) (by decide +kernel)
  obtain ⟨_, c, held, after⟩ := content_written displays_nested.shows.sound (by decide +kernel) performed
  cases content_nested.symm.trans held
  exact after.trans (congrArg Except.ok (by decide +kernel))

/-- A file that was shrunk and is grown again has a zero where it had a byte. -/
theorem contentLaws_shrunk : ∃ a b s t, written.Performs 4 (.resize "/d/f" 2) (.ok a) s ∧ s.Reachable ∧ s.ContentLaws ∧
    s.content "/d/f" = .ok "ol".toUTF8 ∧ s.Performs 5 (.resize "/d/f" 3) (.ok b) t ∧
      t.content "/d/f" = .ok ("ol".toUTF8.push 0) := by
  obtain ⟨a, shrunk, displays⟩ := displays_written.succeeds (by decide) 4 (.resize "/d/f" 2) (by decide +kernel)
  obtain ⟨b, grown, _⟩ := displays.succeeds (by decide) 5 (.resize "/d/f" 3) (by decide +kernel)
  obtain ⟨c, held, short⟩ := content_resized displays_written.shows.sound shrunk
  cases content_of_written.symm.trans held
  have laws := Reachable.contentLaws displays.reachable
  obtain ⟨c', held', long⟩ := laws.resized grown
  cases short.symm.trans held'
  refine ⟨a, b, _, _, shrunk, displays.reachable, laws, short.trans ?_, grown, long.trans ?_⟩
  · exact congrArg Except.ok (by decide +kernel)
  · exact congrArg Except.ok (by decide +kernel)

end Session
end RecordFs
