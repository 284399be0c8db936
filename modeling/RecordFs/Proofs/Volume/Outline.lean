import RecordFs.Proofs.Volume.Graph

/-! What calls can tell of a store: the root in memory, the inodes, the tables, and the bytes of
files. Which blocks hold these bytes does not show. -/
namespace RecordFs
open Function

structure Outline where
  root : Option Inode
  inode : Id → Option Inode
  table : Id → Option Directory
  /-- By the key of the map, as far as files can reach. -/
  content : Id → Option (Nat → UInt8)

namespace Outline

def setInode (o : Outline) (i : Inode) : Outline :=
  { o with
    root := o.root.map fun root => if root.self = i.self then i else root
    inode := update o.inode i.self (some i) }

def setTable (o : Outline) (d : Directory) : Outline := { o with table := update o.table d.self (some d) }

def setContent (o : Outline) (id : Id) (view : Nat → UInt8) : Outline :=
  { o with content := update o.content id (some view) }

theorem inode_setInode (o : Outline) (i : Inode) : (o.setInode i).inode i.self = some i := update_self ..

theorem table_setTable (o : Outline) (d : Directory) : (o.setTable d).table d.self = some d := update_self ..

theorem content_setContent (o : Outline) (id : Id) (view : Nat → UInt8) :
    (o.setContent id view).content id = some view := update_self ..

theorem content_setContent_of_ne (o : Outline) {id x : Id} (view : Nat → UInt8) (other : x ≠ id) :
    (o.setContent id view).content x = o.content x := update_of_ne other ..

/-- What a sound store shows: directories have tables, files have bytes, and every entry but the
root is the child in one slot of one table. -/
structure Sound (o : Outline) : Prop where
  inode : ∀ id i, o.inode id = some i → i.Proper id
  table : ∀ id d, o.table id = some d → d.Proper id
  directory : ∀ id i, o.inode id = some i → i.isDirectory = true → ∃ d, o.table i.data = some d
  file : ∀ id i, o.inode id = some i → i.isDirectory = false → ∃ view, o.content i.data = some view
  child : ∀ id d k x, o.table id = some d → d.named? k = some x → ∃ i, o.inode x = some i
  unique_data : ∀ a b i j, o.inode a = some i → o.inode b = some j → i.data = j.data → a = b
  unique_child : ∀ a b d e j k x, o.table a = some d → o.table b = some e → d.named? j = some x →
    e.named? k = some x → a = b ∧ j = k
  root : ∀ r, o.root = some r → o.inode r.self = some r ∧ r.isDirectory = true
  unnamed_root : ∀ r id d k, o.root = some r → o.table id = some d → d.named? k ≠ some r.self

theorem Sound.setContent {o : Outline} (h : o.Sound) (id : Id) (view : Nat → UInt8) : (o.setContent id view).Sound :=
  { h with
    file := fun x i stored file => by
      change ∃ v, update o.content id (some view) i.data = some v
      by_cases here : i.data = id
      · exact ⟨view, by rw [here, update_self]⟩
      · rw [update_of_ne here]
        exact h.file x i stored file }

end Outline

namespace World
variable {w w' : World}

/-- The bytes of the file whose map stands under the key. -/
def content (w : World) (id : Id) : Option (Nat → UInt8) := (w.get BlockMap id).map fun m => (w.layout m).view w

def outline (w : World) : Outline where
  root := w.cache.map (·.inode)
  inode := w.get Inode
  table := w.get Directory
  content := w.content

@[simp] theorem outline_inode : w.outline.inode = w.get Inode := rfl

@[simp] theorem outline_table : w.outline.table = w.get Directory := rfl

@[simp] theorem outline_content : w.outline.content = w.content := rfl

theorem target_data {id : Id} {i : Inode} (stored : w.get Inode id = some i) : w.target (.data id) = some i.data := by
  rw [target, stored, Option.map_some]

theorem Sound.data_suited (h : w.Sound) {id : Id} {i : Inode} (stored : w.get Inode id = some i) :
    if i.isDirectory then ∃ d, w.get Directory i.data = some d else ∃ m, w.get BlockMap i.data = some m := by
  obtain ⟨j, same, data⟩ := h.suited _ _ (target_data stored)
  rw [stored] at same
  obtain rfl := Option.some.inj same
  exact data

theorem target_slot {id : Id} {d : Directory} (stored : w.get Directory id = some d) (k : Fin dirEntries) :
    w.target (.slot id k) = d.named? k := by
  rw [target, stored, Option.bind_some]

theorem Sound.outline (h : w.Sound) : w.outline.Sound where
  inode := h.inode
  table := h.table
  directory id i stored is := by
    have data := h.data_suited stored
    rwa [is, if_pos rfl] at data
  file id i stored is := by
    have data := h.data_suited stored
    rw [is, if_neg Bool.false_ne_true] at data
    obtain ⟨m, map⟩ := data
    exact ⟨(w.layout m).view w, by rw [outline_content, content, map, Option.map_some]⟩
  child id d k x stored named := h.suited (.slot id k) x (by rw [target_slot stored, named])
  unique_data a b i j ha hb same := by
    have key := h.unique (.data a) (.data b) i.data (target_data ha) (same ▸ target_data hb)
    cases key
    rfl
  unique_child a b d e j k x ha hb hj hk := by
    have key := h.unique (.slot a j) (.slot b k) x (by rw [target_slot ha, hj]) (by rw [target_slot hb, hk])
    cases key
    exact ⟨rfl, rfl⟩
  root r cached := by
    obtain ⟨root, held, rfl⟩ := Option.map_eq_some_iff.mp cached
    obtain ⟨named, stored⟩ := h.root root held
    obtain ⟨i, inode, dir⟩ := h.suited _ _ named
    rw [stored] at inode
    obtain rfl := Option.some.inj inode
    exact ⟨by rw [(h.inode _ _ stored).self]; exact stored, dir⟩
  unnamed_root r id d k cached table named := by
    obtain ⟨root, held, rfl⟩ := Option.map_eq_some_iff.mp cached
    obtain ⟨here, stored⟩ := h.root root held
    rw [(h.inode _ _ stored).self] at named
    cases h.unique (.slot id k) .root root.key (by rw [target_slot table, named]) here

theorem layout_of_get (same : w'.get IndirectMap = w.get IndirectMap) : w'.layout = w.layout := by
  funext m
  rw [layout, layout, same]

theorem view_of_get (same : w'.get Block = w.get Block) (l : Layout) : l.view w' = l.view w := by
  funext n
  unfold Layout.view Layout.block
  rw [same]

theorem content_of_get (map : w'.get BlockMap = w.get BlockMap) (indirect : w'.get IndirectMap = w.get IndirectMap)
    (block : w'.get Block = w.get Block) : w'.content = w.content := by
  funext id
  rw [content, content, map, layout_of_get indirect]
  simp only [view_of_get block]

section save_inode
variable {i : Inode} (room : w.Room .inode i.self)
include room

theorem get_save_inode {ρ : Type} [Stored ρ] (different : Stored.kind ρ ≠ .inode) :
    (w.save i.self i).get ρ = w.get ρ :=
  get_save_of_room room i different

theorem outline_save_inode (h : w.Sound) : (w.save i.self i).outline = w.outline.setInode i := by
  have content := content_of_get (get_save_inode room (by decide)) (get_save_inode room (by decide))
    (get_save_inode room (by decide))
  have root : ((w.save i.self i).cache.map fun r => r.inode) =
      (w.cache.map fun r => r.inode).map fun root => if root.self = i.self then i else root := by
    rw [save, cache_put, Cache.refresh, Option.map_map, Option.map_map]
    cases cached : w.cache with
    | none => rfl
    | some r =>
      have self : r.inode.self = r.key := (h.inode _ _ (h.root r cached).2).self
      have read : Stored.read Inode (Stored.encode i) = .ok i := Stored.Exact.reads_back i
      by_cases same : r.key = i.self
      · simp [self, same, read, Except.toOption]
      · simp [self, same]
  rw [outline, root, get_save, get_save_inode room (by decide), content]
  rfl

theorem target_save_inode : (w.save i.self i).target = update w.target (.data i.self) (some i.data) := by
  have layout := layout_of_get (get_save_inode room (by decide) (ρ := IndirectMap))
  funext p
  cases p with
  | root => simp [target, get_save_inode room (by decide) (ρ := RootPointer)]
  | data id =>
    by_cases same : id = i.self
    · simp [target, same]
    · simp [target, same]
  | slot id k => simp [target, get_save_inode room (by decide) (ρ := Directory)]
  | block id k => simp [target, get_save_inode room (by decide) (ρ := BlockMap), layout]
  | indirect id => simp [target, get_save_inode room (by decide) (ρ := BlockMap)]

end save_inode

section save_table
variable {d : Directory} (room : w.Room .directory d.self)
include room

theorem get_save_table {ρ : Type} [Stored ρ] (different : Stored.kind ρ ≠ .directory) :
    (w.save d.self d).get ρ = w.get ρ :=
  get_save_of_room room d different

theorem outline_save_table (h : w.Sound) (proper : d.Proper d.self) :
    (w.save d.self d).outline = w.outline.setTable d := by
  have content := content_of_get (get_save_table room (by decide)) (get_save_table room (by decide))
    (get_save_table room (by decide))
  have cache := cache_save_of_apart (h.apart_of_room room (by decide)) d
  rw [outline, cache, get_save_of_readsBack w d.self (Directory.readsBack proper.fits),
    get_save_table room (by decide), content]
  rfl

omit room in
theorem target_save_table (proper : d.Proper d.self) (k : Fin dirEntries) :
    (w.save d.self d).target (.slot d.self k) = d.named? k := by
  rw [target, get_save_of_readsBack w d.self (Directory.readsBack proper.fits), update_self, Option.bind_some]

theorem target_save_table_of_ne (proper : d.Proper d.self) {p : Place} (other : ∀ k, p ≠ .slot d.self k) :
    (w.save d.self d).target p = w.target p := by
  have layout := layout_of_get (get_save_table room (by decide) (ρ := IndirectMap))
  cases p with
  | root => rw [target, target, get_save_table room (by decide)]
  | data id => rw [target, target, get_save_table room (by decide)]
  | slot id k =>
    have away : id ≠ d.self := fun same => other k (by rw [same])
    rw [target, target, get_save_of_readsBack w d.self (Directory.readsBack proper.fits), update_of_ne away]
  | block id k => rw [target, target, get_save_table room (by decide), layout]
  | indirect id => rw [target, target, get_save_table room (by decide)]

end save_table

theorem layout_empty (w : World) : w.layout .empty = ⟨.empty, .empty⟩ := by
  rw [layout, BlockMap.empty, if_pos rfl]

theorem slot_empty (k : Fin maxBlocks) : Layout.slot ⟨.empty, .empty⟩ k = .zero := by
  rw [Layout.slot]
  split
  · exact Vector.get_replicate ..
  · exact Vector.get_replicate ..

theorem view_empty (w : World) (n : Nat) : Layout.view ⟨.empty, .empty⟩ w n = 0 := by
  rw [Layout.view]
  split
  · rw [Layout.block_of_zero (slot_empty _), Block.byteAt_zero]
  · rfl

section save_map
variable {id : Id} (room : w.Room .blockMap id)
include room

theorem get_save_map {ρ : Type} [Stored ρ] (m : BlockMap) (different : Stored.kind ρ ≠ .blockMap) :
    (w.save id m).get ρ = w.get ρ :=
  get_save_of_room room m different

theorem content_save_map : (w.save id BlockMap.empty).content = update w.content id (some fun _ => 0) := by
  have layout := layout_of_get (get_save_map room .empty (by decide) (ρ := IndirectMap))
  have view := view_of_get (get_save_map room .empty (by decide) (ρ := Block))
  funext x
  by_cases here : x = id
  · rw [here, content, get_save, update_self, update_self, Option.map_some, layout, layout_empty]
    exact congrArg some (funext (view_empty _))
  · rw [content, get_save, update_of_ne here, update_of_ne here, layout]
    simp only [view]
    rfl

theorem outline_save_map (h : w.Sound) : (w.save id BlockMap.empty).outline = w.outline.setContent id fun _ => 0 := by
  have cache := cache_save_of_apart (h.apart_of_room room (by decide)) BlockMap.empty
  rw [outline, cache, get_save_map room .empty (by decide), get_save_map room .empty (by decide),
    content_save_map room]
  rfl

theorem target_save_map (none : w.find id = none) : (w.save id BlockMap.empty).target = w.target := by
  have layout := layout_of_get (get_save_map room .empty (by decide) (ρ := IndirectMap))
  have before : w.get BlockMap id = Option.none := get_of_find_none none
  funext p
  cases p with
  | root => rw [target, target, get_save_map room .empty (by decide)]
  | data id => rw [target, target, get_save_map room .empty (by decide)]
  | slot id k => rw [target, target, get_save_map room .empty (by decide)]
  | block x k =>
    rw [target, target, get_save, layout]
    by_cases here : x = id
    · rw [here, update_self, before, Option.bind_some, Option.bind_none, layout_empty, slot_empty]
      rfl
    · rw [update_of_ne here]
  | indirect x =>
    rw [target, target, get_save]
    by_cases here : x = id
    · rw [here, update_self, before]
      rfl
    · rw [update_of_ne here]

end save_map

end World
end RecordFs
