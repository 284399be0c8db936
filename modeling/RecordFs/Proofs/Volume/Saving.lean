import RecordFs.Proofs.Volume.Outline

/-! Storing one record of a sound store. An inode or a table is stored again with what it named, or
anew with what nothing else names; the store stays sound and its outline changes there alone. -/
namespace RecordFs.World
open Function

variable {w : World}

section inode
variable {i : Inode}

private theorem keeps_save_inode (room : w.Room .inode i.self)
    (kind : ∀ old, w.get Inode i.self = some old → i.isDirectory = old.isDirectory) : Keeps w (w.save i.self i) where
  inode id j stored := by
    rw [get_save]
    by_cases here : id = i.self
    · exact ⟨i, by rw [here, update_self], kind j (here ▸ stored)⟩
    · exact ⟨j, by rw [update_of_ne here, stored], rfl⟩
  table := kept_of_eq (get_save_inode room (by decide))
  map := kept_of_eq (get_save_inode room (by decide))
  block := kept_of_eq (get_save_inode room (by decide))
  indirect := kept_of_eq (get_save_inode room (by decide))

private theorem root_save_inode (h : w.Sound) (room : w.Room .inode i.self) {r : Root}
    (cached : (w.save i.self i).cache = some r) :
    (w.save i.self i).target .root = some r.key ∧ (w.save i.self i).get Inode r.key = some r.inode := by
  rw [save, cache_put, Cache.refresh, Option.map_eq_some_iff] at cached
  obtain ⟨old, cached, rfl⟩ := cached
  obtain ⟨root, stored⟩ := h.root old cached
  have read : Stored.read Inode (Stored.encode i) = .ok i := Stored.Exact.reads_back i
  have other : Place.root ≠ .data i.self := Place.noConfusion
  rw [target_save_inode room, update_of_ne other, get_save]
  by_cases here : old.key = i.self
  · simp only [if_pos here, read]
    exact ⟨root, by rw [here, update_self]; rfl⟩
  · simp only [if_neg here]
    exact ⟨root, by rw [update_of_ne here, stored]⟩

private theorem sound_save_inode (h : w.Sound) (room : w.Room .inode i.self) (used : w.taken i.self)
    (proper : i.Proper i.self) (kind : ∀ old, w.get Inode i.self = some old → i.isDirectory = old.isDirectory)
    (named : w.target (.data i.self) = some i.data ∨ (∀ q, w.target q ≠ some i.data) ∧
      if i.isDirectory then ∃ d, w.get Directory i.data = some d else ∃ m, w.get BlockMap i.data = some m) :
    (w.save i.self i).Sound := by
  have names : w.target (.data i.self) = some i.data ∨ (w.save i.self i).Suits (.data i.self) i.data ∧
      ∀ q, w.target q ≠ some i.data := by
    refine named.imp_right fun ⟨new, stored⟩ => ⟨⟨i, by rw [get_save, update_self], ?_⟩, new⟩
    rwa [get_save_inode room (by decide), get_save_inode room (by decide)]
  refine h.evolve (keeps_save_inode room kind) (h.closed.save used i)
    (fun p x => named_of_update (target_save_inode room) names) (fun id j stored => ?inode) (fun id d stored => ?table)
    fun r => root_save_inode h room
  case inode =>
    rw [get_save] at stored
    by_cases here : id = i.self
    · rw [here, update_self] at stored
      cases stored
      exact here ▸ proper
    · rw [update_of_ne here] at stored
      exact h.inode id j stored
  case table =>
    rw [get_save_inode room (by decide)] at stored
    exact h.table id d stored

/-- An inode is stored again: its data and its type stay. -/
theorem Sound.update_inode (h : w.Sound) {old : Inode} (stored : w.get Inode i.self = some old)
    (data : i.data = old.data) (kind : i.isDirectory = old.isDirectory) (proper : i.Proper i.self) :
    (w.save i.self i).Sound ∧ (w.save i.self i).outline = w.outline.setInode i := by
  have room := room_of_get stored
  refine ⟨sound_save_inode h room (h.closed.taken_of_get stored) proper (fun j hj => ?_) (.inl ?_),
    outline_save_inode room h⟩
  · rw [stored] at hj
    cases hj
    exact kind
  · rw [target, stored, Option.map_some, data]

/-- A new inode is stored after its data, which nothing names yet. -/
theorem Sound.add_inode (h : w.Sound) (none : w.find i.self = none) (used : w.taken i.self)
    (proper : i.Proper i.self) (unnamed : ∀ q, w.target q ≠ some i.data)
    (data : if i.isDirectory then ∃ d, w.get Directory i.data = some d else ∃ m, w.get BlockMap i.data = some m) :
    (w.save i.self i).Sound ∧ (w.save i.self i).outline = w.outline.setInode i := by
  have room := room_of_none none
  refine ⟨sound_save_inode h (room _) used proper (fun j hj => ?_) (.inr ⟨unnamed, data⟩),
    outline_save_inode (room _) h⟩
  rw [get_of_find_none none] at hj
  cases hj

theorem unnamed_save_inode (none : w.find i.self = none) {x : Id} (unnamed : ∀ q, w.target q ≠ some x)
    (other : x ≠ i.data) (q : Place) : (w.save i.self i).target q ≠ some x := by
  rw [target_save_inode (room_of_none none _)]
  by_cases here : q = .data i.self
  · rw [here, update_self]
    exact fun same => other (Option.some.inj same).symm
  · rw [update_of_ne here]
    exact unnamed q

end inode

section table
variable {d : Directory}

private theorem sound_save_table (h : w.Sound) (room : w.Room .directory d.self) (used : w.taken d.self)
    (proper : d.Proper d.self)
    (named : ∀ k x, d.named? k = some x → w.target (.slot d.self k) = some x ∨
      (∃ i, w.get Inode x = some i) ∧ (∀ q, w.target q ≠ some x) ∧ ∀ j, d.named? j = some x → j = k) :
    (w.save d.self d).Sound := by
  have gets := get_save_of_readsBack w d.self (Directory.readsBack proper.fits)
  have target := target_save_table (w := w) proper
  have elsewhere {p : Place} := target_save_table_of_ne room proper (p := p)
  have cache := cache_save_of_apart (h.apart_of_room room (by decide)) d
  have keeps : Keeps w (w.save d.self d) := {
    inode := fun id j stored => ⟨j, by rw [get_save_table room (by decide), stored], rfl⟩
    table := kept_of_update gets
    map := kept_of_eq (get_save_table room (by decide))
    block := kept_of_eq (get_save_table room (by decide))
    indirect := kept_of_eq (get_save_table room (by decide)) }
  refine h.evolve keeps (h.closed.save used d) (fun p x hx => ?targets) (fun id j stored => ?inode)
    (fun id e stored => ?table) (fun r cached => ?root)
  case targets =>
    by_cases here : ∃ k, p = .slot d.self k
    · obtain ⟨k, rfl⟩ := here
      rw [target] at hx
      refine (named k x hx).imp_right fun ⟨stored, new, only⟩ => ⟨?_, new, fun q hq => ?_⟩
      · rwa [Suits, get_save_table room (by decide)]
      · by_cases other : ∃ j, q = .slot d.self j
        · obtain ⟨j, rfl⟩ := other
          rw [target] at hq
          rw [only j hq]
        · rw [elsewhere fun j same => other ⟨j, same⟩] at hq
          exact absurd hq (new q)
    · rw [elsewhere fun k same => here ⟨k, same⟩] at hx
      exact .inl hx
  case inode =>
    rw [get_save_table room (by decide)] at stored
    exact h.inode id j stored
  case table =>
    rw [gets] at stored
    by_cases here : id = d.self
    · rw [here, update_self] at stored
      cases stored
      exact here ▸ proper
    · rw [update_of_ne here] at stored
      exact h.table id e stored
  case root =>
    rw [cache] at cached
    rw [get_save_table room (by decide), elsewhere fun _ same => by cases same]
    exact h.root r cached

/-- A table is stored again with the same children, some of them gone. -/
theorem Sound.drop_child (h : w.Sound) {old : Directory} (stored : w.get Directory d.self = some old)
    (proper : d.Proper d.self) (fewer : ∀ k x, d.named? k = some x → old.named? k = some x) :
    (w.save d.self d).Sound ∧ (w.save d.self d).outline = w.outline.setTable d := by
  have room := room_of_get stored
  refine ⟨sound_save_table h room (h.closed.taken_of_get stored) proper fun k x hx => .inl ?_,
    outline_save_table room h proper⟩
  rw [target, stored, Option.bind_some]
  exact fewer k x hx

/-- A table is stored again with one more child, which is stored and which nothing names yet. -/
theorem Sound.add_child (h : w.Sound) {old : Directory} (stored : w.get Directory d.self = some old)
    (proper : d.Proper d.self) {k : Fin dirEntries} {child : Id} {i : Inode} (inode : w.get Inode child = some i)
    (unnamed : ∀ q, w.target q ≠ some child) (here : d.named? k = some child)
    (others : ∀ j, j ≠ k → d.named? j = old.named? j) :
    (w.save d.self d).Sound ∧ (w.save d.self d).outline = w.outline.setTable d := by
  have room := room_of_get stored
  have kept (j) (other : j ≠ k) : d.named? j = w.target (.slot d.self j) := by
    rw [target, stored, Option.bind_some, others j other]
  refine ⟨sound_save_table h room (h.closed.taken_of_get stored) proper fun j x hx => ?_,
    outline_save_table room h proper⟩
  by_cases same : j = k
  · subst same
    obtain rfl := Option.some.inj (here.symm.trans hx)
    refine .inr ⟨⟨i, inode⟩, unnamed, fun l hl => Decidable.byContradiction fun other => ?_⟩
    exact unnamed _ ((kept l other).symm.trans hl)
  · exact .inl ((kept j same).symm.trans hx)

/-- A new table has no children yet. -/
theorem Sound.add_table (h : w.Sound) {id : Id} (none : w.find id = none) (used : w.taken id) :
    (w.save id (Directory.empty id)).Sound ∧
      (w.save id (Directory.empty id)).outline = w.outline.setTable (.empty id) := by
  have room := room_of_none none .directory
  have proper := Directory.proper_empty id
  refine ⟨sound_save_table h room used proper fun k x hx => ?_, outline_save_table room h proper⟩
  rw [Directory.named?_empty] at hx
  cases hx

theorem target_add_table {id : Id} (none : w.find id = none) : (w.save id (Directory.empty id)).target = w.target := by
  have proper := Directory.proper_empty id
  funext q
  by_cases here : ∃ k, q = .slot id k
  · obtain ⟨k, rfl⟩ := here
    have before : w.get Directory id = Option.none := get_of_find_none none
    have after := target_save_table (w := w) proper k
    rw [Directory.named?_empty] at after
    exact after.trans (by rw [target, before, Option.bind_none])
  · exact target_save_table_of_ne (room_of_none none _) proper fun k same => here ⟨k, same⟩

end table

/-- A new map names nothing yet. -/
theorem Sound.add_map (h : w.Sound) {id : Id} (none : w.find id = none) (used : w.taken id) :
    (w.save id BlockMap.empty).Sound ∧
      (w.save id BlockMap.empty).outline = w.outline.setContent id fun _ => 0 := by
  have room := room_of_none none .blockMap
  have target := target_save_map room none
  have cache := cache_save_of_apart (h.apart_of_room room (by decide)) BlockMap.empty
  have keeps : Keeps w (w.save id BlockMap.empty) := {
    inode := fun id j stored => ⟨j, by rw [get_save_map room .empty (by decide), stored], rfl⟩
    table := kept_of_eq (get_save_map room .empty (by decide))
    map := kept_of_update (get_save w id BlockMap.empty)
    block := kept_of_eq (get_save_map room .empty (by decide))
    indirect := kept_of_eq (get_save_map room .empty (by decide)) }
  refine ⟨h.evolve keeps (h.closed.save used _) (fun p x hx => .inl (target ▸ hx)) ?inode ?table ?root,
    outline_save_map room h⟩
  case inode =>
    rw [get_save_map room .empty (by decide)]
    exact h.inode
  case table =>
    rw [get_save_map room .empty (by decide)]
    exact h.table
  case root =>
    rw [cache, target, get_save_map room .empty (by decide)]
    exact h.root

end RecordFs.World
