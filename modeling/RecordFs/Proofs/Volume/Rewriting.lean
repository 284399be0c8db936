import RecordFs.Proofs.Volume.Outline

/-! Rewriting the content of one file of a sound store. What the file names anew is new, so no
other file shares it, and of the outline only the bytes of this file change. -/
namespace RecordFs.World
open Content Function

variable {w w' : World} {mapId : Id} {m : BlockMap} {l : Layout}

private theorem get_none_of_piece {ρ : Type} [Stored ρ] {w : World} {id : Id} (piece : w.Piece id)
    (block : Stored.kind ρ ≠ .dataBlock) (indirect : Stored.kind ρ ≠ .indirectMap) :
    w.get ρ id = none :=
  piece.elim (fun ⟨_, hb⟩ => get_none_of_kind hb block) fun ⟨_, ht⟩ => get_none_of_kind ht indirect

private theorem target_of_piece_names (stored : w.get BlockMap mapId = some m) {id : Id} (nonzero : id ≠ .zero)
    (names : (w.layout m).Names id) : (∃ k, w.target (.block mapId k) = some id) ∨ w.target (.indirect mapId) = some id := by
  rcases names with ⟨k, slot⟩ | table
  · refine .inl ⟨k, ?_⟩
    rw [Sound.target_block stored, Id.named?_eq_some]
    exact ⟨nonzero, slot⟩
  · refine .inr ?_
    rw [Sound.target_indirect stored, Id.named?_eq_some]
    exact ⟨nonzero, table⟩

/-- Under an identifier that is new, or that the file names, stands no record of another kind. -/
private theorem get_none_of_names {ρ : Type} [Stored ρ] (h : w.Sound) (stored : w.get BlockMap mapId = some m) {id : Id}
    (names : w.taken id → id ≠ .zero ∧ (w.layout m).Names id) (block : Stored.kind ρ ≠ .dataBlock)
    (indirect : Stored.kind ρ ≠ .indirectMap) : w.get ρ id = none := by
  by_cases old : w.taken id
  · obtain ⟨nonzero, names⟩ := names old
    rcases target_of_piece_names stored nonzero names with ⟨k, named⟩ | named
    · exact get_none_of_piece (.inl (h.suited _ _ named)) block indirect
    · exact get_none_of_piece (.inr (h.suited _ _ named)) block indirect
  · exact get_of_find_none (h.closed.find_of_new old)

section
variable (h : w.Sound) (stored : w.get BlockMap mapId = some m) (re : Rewritten (w.layout m) mapId w l w')
include h stored re

/-- Records that are no part of a file are untouched. -/
theorem get_rewritten {ρ : Type} [Stored ρ] (map : Stored.kind ρ ≠ .blockMap)
    (block : Stored.kind ρ ≠ .dataBlock) (indirect : Stored.kind ρ ≠ .indirectMap) :
    w'.get ρ = w.get ρ := by
  funext id
  rcases re.find id with same | rfl | ⟨piece, names⟩
  · exact get_of_find_eq same
  · rw [get_none_of_kind re.map map, get_none_of_kind stored map]
  · rw [get_none_of_piece piece block indirect, get_none_of_names h stored names block indirect]

theorem get_map_rewritten : w'.get BlockMap = update (w.get BlockMap) mapId (some l.map) := by
  funext id
  by_cases here : id = mapId
  · rw [here, update_self, re.map]
  · rw [update_of_ne here]
    rcases re.find id with same | same | ⟨piece, names⟩
    · exact get_of_find_eq same
    · exact absurd same here
    · rw [get_none_of_piece piece (by decide) (by decide),
        get_none_of_names h stored names (by decide) (by decide)]

/-- What another place names is untouched, unless it is the map itself. -/
theorem find_rewritten {p : Place} {x : Id} (named : w.target p = some x) (other : x ≠ mapId)
    (block : ∀ k, p ≠ .block mapId k) (indirect : p ≠ .indirect mapId) : w'.find x = w.find x := by
  rcases re.find x with same | same | ⟨_, names⟩
  · exact same
  · exact absurd same other
  · have ⟨nonzero, names⟩ := names (h.taken named)
    rcases target_of_piece_names stored nonzero names with ⟨k, here⟩ | here
    · exact absurd (h.unique _ _ _ named here) (block k)
    · exact absurd (h.unique _ _ _ named here) indirect

/-- Another file is untouched. -/
theorem file_rewritten {id : Id} (other : id ≠ mapId) {n : BlockMap} (file : w.get BlockMap id = some n) :
    w'.layout n = w.layout n ∧ (w.layout n).view w' = (w.layout n).view w := by
  have apart {x : Id} (piece : w.Piece x) : x ≠ mapId := by
    rintro rfl
    rw [get_none_of_piece piece (by decide) (by decide)] at stored
    cases stored
  refine ⟨?_, ?_⟩
  · by_cases zero : n.indirect = .zero
    · rw [layout, layout, if_pos zero, if_pos zero]
    · have named : w.target (.indirect id) = some n.indirect := by
        rw [Sound.target_indirect file, Id.named?_eq_some]
        exact ⟨zero, rfl⟩
      have same := find_rewritten h stored re named (apart (.inr (h.suited _ _ named))) (fun _ => Place.noConfusion)
        fun here => other (by cases here; rfl)
      rw [layout, layout, get_of_find_eq same]
  · funext n
    refine Layout.view_congr (fun _ => rfl) (fun k nonzero => ?_) n
    have named := Sound.target_block file k
    rw [Id.named?, if_neg nonzero] at named
    exact find_rewritten h stored re named (apart (.inl (h.suited _ _ named)))
      (fun j here => other (by cases here; rfl)) Place.noConfusion

theorem content_rewritten : w'.content = update w.content mapId (some (l.view w')) := by
  funext id
  rw [content, get_map_rewritten h stored re]
  by_cases here : id = mapId
  · rw [here, update_self, update_self, Option.map_some, layout_held re.held]
  · rw [update_of_ne here, update_of_ne here, content]
    cases file : w.get BlockMap id with
    | none => rfl
    | some n =>
      obtain ⟨layout, view⟩ := file_rewritten h stored re here file
      rw [Option.map_some, Option.map_some, layout, view]

theorem outline_rewritten : w'.outline = w.outline.setContent mapId (l.view w') := by
  rw [outline, re.cache, get_rewritten h stored re (by decide) (by decide) (by decide),
    get_rewritten h stored re (by decide) (by decide) (by decide), content_rewritten h stored re]
  rfl

/-- Places outside the file name what they named. -/
theorem target_rewritten {p : Place} (block : ∀ k, p ≠ .block mapId k) (indirect : p ≠ .indirect mapId) :
    w'.target p = w.target p := by
  cases p with
  | root => rw [target, target, get_rewritten h stored re (by decide) (by decide) (by decide)]
  | data id => rw [target, target, get_rewritten h stored re (by decide) (by decide) (by decide)]
  | slot id k => rw [target, target, get_rewritten h stored re (by decide) (by decide) (by decide)]
  | block id k =>
    have other : id ≠ mapId := fun same => block k (by rw [same])
    rw [target, target, get_map_rewritten h stored re, update_of_ne other]
    cases file : w.get BlockMap id with
    | none => rfl
    | some n => rw [Option.bind_some, Option.bind_some, (file_rewritten h stored re other file).1]
  | indirect id =>
    have other : id ≠ mapId := fun same => indirect (by rw [same])
    rw [target, target, get_map_rewritten h stored re, update_of_ne other]

private theorem keeps_rewritten : Keeps w w' := by
  have inodes := get_rewritten h stored re (by decide) (by decide) (by decide) (ρ := Inode)
  have tables := get_rewritten h stored re (by decide) (by decide) (by decide) (ρ := Directory)
  refine {
    inode := fun id i before => ⟨i, by rw [inodes, before], rfl⟩
    table := kept_of_eq tables
    map := kept_of_update (get_map_rewritten h stored re)
    block := fun id b before => ?block
    indirect := fun id t before => ?indirect }
  case block =>
    rcases re.find id with same | rfl | ⟨_, names⟩
    · exact ⟨b, (get_of_find_eq same).trans before⟩
    · rw [get_none_of_kind stored (by decide)] at before
      cases before
    · obtain ⟨nonzero, ⟨k, slot⟩ | table⟩ := names (h.closed.taken_of_get before)
      · obtain rfl := (re.grown.slot_of_ne (slot ▸ nonzero)).trans slot
        exact re.held.blocks k nonzero
      · have kind := get_none_of_kind (σ := Block) ((h.held stored).table_of_ne (table ▸ nonzero)) (by decide)
        rw [table, before] at kind
        cases kind
  case indirect =>
    rcases re.find id with same | rfl | ⟨_, names⟩
    · exact ⟨t, (get_of_find_eq same).trans before⟩
    · rw [get_none_of_kind stored (by decide)] at before
      cases before
    · obtain ⟨nonzero, ⟨k, slot⟩ | table⟩ := names (h.closed.taken_of_get before)
      · obtain ⟨b, block⟩ := (h.held stored).blocks k (slot ▸ nonzero)
        have kind := get_none_of_kind (σ := IndirectMap) block (by decide)
        rw [slot, before] at kind
        cases kind
      · obtain rfl := (re.grown.indirect_of_ne (table ▸ nonzero)).trans table
        exact ⟨_, re.held.table_of_ne nonzero⟩

/-- What the file names is what it named or is new. -/
private theorem targets_rewritten (p : Place) (x : Id) (named : w'.target p = some x) :
    w.target p = some x ∨ w'.Suits p x ∧ (∀ q, w.target q ≠ some x) ∧ ∀ q, w'.target q = some x → q = p := by
  have layout := layout_held re.held
  have block (k) := Sound.target_block re.map k
  have indirect := Sound.target_indirect re.map
  rw [layout] at block
  -- A block and an indirect map cannot stand under one key.
  have apart (k) (y : Id) (hk : w'.target (.block mapId k) = some y) (ht : w'.target (.indirect mapId) = some y) :
      False := by
    rw [block, Id.named?_eq_some] at hk
    rw [indirect, Id.named?_eq_some] at ht
    obtain ⟨b, stored⟩ := re.held.blocks k (hk.2 ▸ hk.1)
    have kind := get_none_of_kind (σ := IndirectMap) stored (by decide)
    rw [hk.2, ← ht.2, re.held.table_of_ne (ht.2 ▸ ht.1)] at kind
    cases kind
  have elsewhere {q : Place} (new : ¬ w.taken x) (hq : w'.target q = some x) (blocks : ∀ k, q ≠ .block mapId k)
      (table : q ≠ .indirect mapId) : False := by
    rw [target_rewritten h stored re blocks table] at hq
    exact h.untargeted new q hq
  by_cases blocks : ∃ k, p = .block mapId k
  · obtain ⟨k, rfl⟩ := blocks
    have here := named
    rw [block, Id.named?_eq_some] at here
    obtain ⟨nonzero, rfl⟩ := here
    refine (re.grown.slots k).imp (fun old => ?_) fun ⟨_, new, _⟩ =>
      ⟨re.held.blocks k nonzero, h.untargeted new, fun q hq => Decidable.byContradiction fun other => ?_⟩
    · rw [Sound.target_block stored, Id.named?_eq_some]
      exact ⟨nonzero, old.symm⟩
    · refine elsewhere new hq (fun j same => ?_) fun same => apart k _ named (same ▸ hq)
      rw [same, block, Id.named?_eq_some] at hq
      exact other (same.trans (congrArg _ (re.held.distinct j k (hq.2 ▸ nonzero) hq.2)))
  · by_cases table : p = .indirect mapId
    · subst table
      have here := named
      rw [indirect, Id.named?_eq_some] at here
      obtain ⟨nonzero, rfl⟩ := here
      refine re.grown.indirect.imp (fun old => ?_) fun ⟨_, new, _⟩ =>
        ⟨⟨_, re.held.table_of_ne nonzero⟩, h.untargeted new, fun q hq => Decidable.byContradiction fun other => ?_⟩
      · rw [Sound.target_indirect stored, Id.named?_eq_some]
        exact ⟨nonzero, old.symm⟩
      · exact elsewhere new hq (fun j same => apart j _ (same ▸ hq) named) other
    · rw [target_rewritten h stored re (fun k same => blocks ⟨k, same⟩) table] at named
      exact .inl named

/-- A sound store stays sound when a file is rewritten, and only the bytes of that file change. -/
theorem Sound.rewrite : w'.Sound ∧ w'.outline = w.outline.setContent mapId (l.view w') := by
  refine ⟨h.evolve (keeps_rewritten h stored re) re.closed (targets_rewritten h stored re) ?_ ?_ ?_,
    outline_rewritten h stored re⟩
  · rw [get_rewritten h stored re (by decide) (by decide) (by decide)]
    exact h.inode
  · rw [get_rewritten h stored re (by decide) (by decide) (by decide)]
    exact h.table
  · rw [re.cache, target_rewritten h stored re (fun _ => Place.noConfusion) Place.noConfusion,
      get_rewritten h stored re (by decide) (by decide) (by decide)]
    exact h.root

end
end RecordFs.World
