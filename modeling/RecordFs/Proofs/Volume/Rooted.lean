import RecordFs.Proofs.Tree.FullStores
import RecordFs.Proofs.Volume.ContentLaws

/-! What can be found in a store from the root pointer on is a tree: every identifier in it names a
record of the kind that its place asks for, and stands at that place alone. -/
namespace RecordFs
namespace World

/-- The keys of the entries that can be found from the root pointer on. -/
inductive Linked (w : World) : Id → Prop where
  | root {p : RootPointer} (pointer : w.get RootPointer .rootPointer = some p) : Linked w p.root
  | child {id : Id} {i : Inode} {d : Directory} {k : Fin dirEntries} (parent : Linked w id)
      (stored : w.get Inode id = some i) (is : i.isDirectory = true) (table : w.get Directory i.data = some d)
      (used : (d.slots.get k).isFree = false) : Linked w (d.slots.get k).child

/-- The file of an entry that can be found, with its map. -/
structure Mapped (w : World) (id : Id) (i : Inode) (m : BlockMap) : Prop where
  linked : w.Linked id
  stored : w.get Inode id = some i
  file : i.isDirectory = false
  map : w.get BlockMap i.data = some m

/-- The identifiers in the records that can be found, each with the place where it stands. -/
inductive Names (w : World) : Place → Id → Prop where
  | root {p : RootPointer} (pointer : w.get RootPointer .rootPointer = some p) : Names w .root p.root
  | data {id : Id} {i : Inode} (linked : w.Linked id) (stored : w.get Inode id = some i) : Names w (.data id) i.data
  | slot {id : Id} {i : Inode} {d : Directory} {k : Fin dirEntries} (linked : w.Linked id)
      (stored : w.get Inode id = some i) (is : i.isDirectory = true) (table : w.get Directory i.data = some d)
      (used : (d.slots.get k).isFree = false) : Names w (.slot i.data k) (d.slots.get k).child
  | direct {id : Id} {i : Inode} {m : BlockMap} {k : Fin maxBlocks} {j : Fin directBlocks} (mapped : w.Mapped id i m)
      (here : Content.place k = .inl j) (nonzero : m.direct.get j ≠ .zero) : Names w (.block i.data k) (m.direct.get j)
  | indirect {id : Id} {i : Inode} {m : BlockMap} (mapped : w.Mapped id i m) (nonzero : m.indirect ≠ .zero) :
      Names w (.indirect i.data) m.indirect
  | beyond {id : Id} {i : Inode} {m : BlockMap} {t : IndirectMap} {k : Fin maxBlocks} {j : Fin indirectBlocks}
      (mapped : w.Mapped id i m) (some : m.indirect ≠ .zero) (table : w.get IndirectMap m.indirect = .some t)
      (here : Content.place k = .inr j) (nonzero : t.blocks.get j ≠ .zero) : Names w (.block i.data k) (t.blocks.get j)

/-- The records that can be found make up a tree. -/
structure Rooted (w : World) : Prop where
  root : ∃ p i, w.get RootPointer .rootPointer = some p ∧ w.get Inode p.root = some i ∧ i.isDirectory = true
  /-- The root in memory is the one that is stored. -/
  cached : ∃ r p, w.cache = some r ∧ w.get RootPointer .rootPointer = some p ∧ p.root = r.key ∧
    w.get Inode r.key = some r.inode
  entry : ∀ id, w.Linked id → ∃ i, w.get Inode id = some i ∧ i.self = id
  /-- The table of a directory is under its own key; its names can be names, and none occurs twice. -/
  table : ∀ id i, w.Linked id → w.get Inode id = some i → i.isDirectory = true →
    ∃ d, w.get Directory i.data = some d ∧ d.Proper i.data
  file : ∀ id i, w.Linked id → w.get Inode id = some i → i.isDirectory = false →
    i.size.toNat ≤ maxFileSize ∧ ∃ m, w.get BlockMap i.data = some m
  indirect : ∀ map x, w.Names (.indirect map) x → ∃ t, w.get IndirectMap x = some t
  block : ∀ map k x, w.Names (.block map k) x → ∃ b, w.get Block x = some b
  /-- No identifier stands at two places. -/
  single : ∀ p q x, w.Names p x → w.Names q x → p = q

variable {w : World} {p : Place} {x : Id}

theorem target_of_names (names : w.Names p x) : w.target p = some x := by
  cases names with
  | root pointer => rw [target, pointer, Option.map_some]
  | data linked stored => exact target_data stored
  | slot linked stored is table used =>
    rw [target_slot table, Directory.named?_eq_some]
    exact ⟨used, rfl⟩
  | direct mapped here nonzero =>
    rw [Sound.target_block mapped.map, Layout.slot_of_direct here, Id.named?_eq_some]
    exact ⟨nonzero, rfl⟩
  | indirect mapped nonzero =>
    rw [Sound.target_indirect mapped.map, Id.named?_eq_some]
    exact ⟨nonzero, rfl⟩
  | beyond mapped some table here nonzero =>
    rw [Sound.target_block mapped.map, Layout.slot_of_beyond here, Id.named?_eq_some, layout, if_neg some, table]
    exact ⟨nonzero, rfl⟩

theorem Sound.linked_stored (h : w.Sound) (linked : w.Linked x) : ∃ i, w.get Inode x = some i := by
  cases linked with
  | root pointer =>
    obtain ⟨i, stored, _⟩ := h.suited .root _ (target_of_names (.root pointer))
    exact ⟨i, stored⟩
  | child parent stored is table used => exact h.suited (.slot _ _) _ (target_of_names (.slot parent stored is table used))

/-- A sound store with its root in memory is a tree. -/
theorem Sound.rooted_of_cached (h : w.Sound) {r : Root} (cached : w.cache = some r) : w.Rooted := by
  obtain ⟨named, memory⟩ := h.root r cached
  obtain ⟨p, pointer, key⟩ := Option.map_eq_some_iff.mp named
  refine {
    root := ?root
    cached := ⟨r, p, cached, pointer, key, memory⟩
    entry := fun id linked => ?entry
    table := fun id i linked stored is => ?table
    file := fun id i linked stored file => ?file
    indirect := fun map x names => h.suited _ _ (target_of_names names)
    block := fun map k x names => h.suited _ _ (target_of_names names)
    single := fun p q x hp hq => h.unique p q x (target_of_names hp) (target_of_names hq) }
  case root =>
    obtain ⟨i, stored, is⟩ := h.suited _ _ named
    exact ⟨p, i, pointer, key ▸ stored, is⟩
  case entry =>
    obtain ⟨i, stored⟩ := h.linked_stored linked
    exact ⟨i, stored, (h.inode _ _ stored).self⟩
  case table =>
    obtain ⟨d, table⟩ := h.outline.directory _ _ stored is
    exact ⟨d, table, h.table _ _ table⟩
  case file =>
    have data := h.data_suited stored
    rw [file, if_neg Bool.false_ne_true] at data
    exact ⟨(h.inode _ _ stored).size file, data⟩

open Outline

/-- Each step leads from an entry that can be found to one that its table names. -/
theorem Sound.linked_of_foldlM (h : w.Sound) {path : String} {segments : List String} {dir i : Inode}
    (linked : w.Linked dir.self) (stored : w.get Inode dir.self = some dir)
    (walked : segments.foldlM (w.outline.child path) dir = .ok i) : w.Linked i.self := by
  induction segments generalizing dir with
  | nil =>
    cases walked
    exact linked
  | cons name rest ih =>
    rw [List.foldlM_cons] at walked
    obtain ⟨j, step, walked⟩ := bind_eq_ok.mp walked
    obtain ⟨d, id, listed, found, inode⟩ := child_eq_ok.mp step
    obtain ⟨is, table⟩ := directory_eq_ok.mp listed
    obtain ⟨k, used, _, rfl⟩ := Directory.exists_of_find? found
    have self : j.self = (d.slots.get k).child := (h.inode _ _ inode).self
    exact ih (self ▸ .child linked stored is table used) (self ▸ inode) walked

/-- What a path leads to can be found from the root pointer on. -/
theorem Sound.linked_of_walk (h : w.Sound) {path : String} {segments : List String} {i : Inode}
    (walked : w.outline.walk path segments = .ok i) : w.Linked i.self := by
  obtain ⟨root, there, walked⟩ := walk_eq_ok.mp walked
  obtain ⟨r, cached, rfl⟩ := Option.map_eq_some_iff.mp there
  obtain ⟨named, stored⟩ := h.root r cached
  obtain ⟨p, pointer, key⟩ := Option.map_eq_some_iff.mp named
  have self : r.inode.self = r.key := (h.inode _ _ stored).self
  exact h.linked_of_foldlM (self ▸ key ▸ .root pointer) (self ▸ stored) walked

/-- Bytes that are not zero stand behind the direct blocks only where there is a table for them. -/
theorem indirect_ne_zero {m : BlockMap} {n : Nat} (beyond : directBlocks * blockSize ≤ n)
    (byte : (w.layout m).view w n ≠ 0) : m.indirect ≠ .zero := by
  intro zero
  apply byte
  rw [Layout.view]
  split
  · rename_i small
    have past : ¬ n / blockSize < directBlocks := by
      rw [Nat.div_lt_iff_lt_mul (by decide)]
      omega
    have place : Content.place (blockIndex n small) = .inr ⟨n / blockSize - directBlocks, _⟩ := dif_neg past
    have slot : (w.layout m).slot (blockIndex n small) = .zero := by
      rw [Layout.slot_of_beyond place, layout, if_pos zero]
      exact Vector.get_replicate ..
    rw [Layout.block_of_zero slot, Block.byteAt_zero]
  · rfl

end World

namespace Session
variable {s : Session}

/-- The store of every reachable volume is a tree. -/
theorem Reachable.rooted (h : Reachable s) : s.world.Rooted := by
  obtain ⟨r, cached⟩ := h.exists_cached
  exact h.sound.rooted_of_cached cached

/-- The file in the directory has one byte, behind its direct blocks. -/
def far : Session := nested.after [(3, .write "/d/f" "x".toUTF8 49152)]

def farTree : Tree := nestedTree.after 3 (.write "/d/f" "x".toUTF8 49152)

theorem displays_far : far.Displays farTree (2 + 2 * (2 * maxBlocks) + 2 * maxBlocks) := by
  obtain ⟨_, _, displays⟩ := displays_nested.succeeds (by decide) 3 (.write "/d/f" "x".toUTF8 49152) (by decide +kernel)
  exact displays

theorem content_far : far.content "/d/f" = .ok (splice .empty "x".toUTF8 49152) := by
  obtain ⟨_, performed, _⟩ := displays_nested.succeeds (by decide) 3 (.write "/d/f" "x".toUTF8 49152) (by decide +kernel)
  obtain ⟨_, c, held, after⟩ := content_written displays_nested.shows.sound (by decide +kernel) performed
  cases content_nested.symm.trans held
  exact after

/-- A file in a directory, with a block that its table names, after a write that failed. -/
theorem rooted_far : ∃ f t, far.full.Performs 4 (.write "/d/f" "y".toUTF8 0) (.error (.ofFault f)) t ∧
    t.Reachable ∧ t.world.Rooted ∧
      ∃ i m, t.world.outline.resolve "/d/f" = .ok i ∧ t.world.Mapped i.self i m ∧ m.indirect ≠ .zero := by
  obtain ⟨f, t, failed, kept⟩ :=
    displays_far.fails_of_full (by decide) 4 (.write "/d/f" "y".toUTF8 0) "/d/f" (by decide +kernel)
  have reachable := displays_far.reachable.full.called failed
  have rooted := Reachable.rooted reachable
  have sound := reachable.sound
  have content : t.content "/d/f" = .ok (splice .empty "x".toUTF8 49152) :=
    (kept.content_eq displays_far.shows.sound sound "/d/f").trans content_far
  obtain ⟨i, view, resolved, stored, bytes⟩ := (content_eq_ok sound).mp content
  obtain ⟨found, file⟩ := Outline.resolveFile_eq_ok.mp resolved
  have inode := sound.outline.resolve_stored found
  have linked := sound.linked_of_walk (Outline.resolve_eq_ok.mp found).2
  obtain ⟨_, m, map⟩ := rooted.file _ _ linked inode file
  refine ⟨f, t, failed, reachable, rooted, i, m, found, ⟨linked, inode, file, map⟩, ?_⟩
  have same : view = (t.world.layout m).view t.world := by
    rw [World.outline_content, World.content, map] at stored
    exact (Option.some.inj stored).symm
  have byte : byteAt (bytesOf view i.size.toNat) 49152 = 120 := by
    rw [bytes, byteAt_splice, if_pos (by decide +kernel)]
    decide +kernel
  apply World.indirect_ne_zero (n := 49152) (by decide)
  rw [byteAt_bytesOf] at byte
  split at byte
  · rw [← same, byte]
    decide
  · cases byte

end Session
end RecordFs
