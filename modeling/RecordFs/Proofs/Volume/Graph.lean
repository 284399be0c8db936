import RecordFs.Proofs.Content.Written
import RecordFs.Proofs.Record.Modes
import RecordFs.Proofs.Record.Table

/-! The graph that the records of a store make up. Each identifier in a record stands at a place;
what it names is stored as the place asks for, and no two places name the same. -/
namespace RecordFs

/-- A place where an identifier stands. The blocks of a file count as places of its map. -/
inductive Place where
  | root
  | data (inode : Id)
  | slot (table : Id) (i : Fin dirEntries)
  | block (map : Id) (k : Fin maxBlocks)
  | indirect (map : Id)
  deriving DecidableEq

/-- Zero names nothing. -/
def Id.named? (id : Id) : Option Id := if id = .zero then none else some id

/-- An inode under its own key. Its mode has one of the two types, and no file is too long. -/
structure Inode.Proper (inode : Inode) (id : Id) : Prop where
  self : inode.self = id
  mode : inode.Typed
  size : inode.isDirectory = false → inode.size.toNat ≤ maxFileSize

namespace World

/-- The identifier at a place, if there is such a place and it names something. -/
def target (w : World) : Place → Option Id
  | .root => (w.get RootPointer .rootPointer).map (·.root)
  | .data id => (w.get Inode id).map (·.data)
  | .slot id i => (w.get Directory id).bind (·.named? i)
  | .block id k => (w.get BlockMap id).bind fun m => ((w.layout m).slot k).named?
  | .indirect id => (w.get BlockMap id).bind fun m => m.indirect.named?

/-- What is stored under an identifier is what its place asks for. -/
def Suits (w : World) : Place → Id → Prop
  | .root, x => ∃ i, w.get Inode x = some i ∧ i.isDirectory
  | .data id, x => ∃ i, w.get Inode id = some i ∧
      if i.isDirectory then ∃ d, w.get Directory x = some d else ∃ m, w.get BlockMap x = some m
  | .slot _ _, x => ∃ i, w.get Inode x = some i
  | .block _ _, x => ∃ b, w.get Block x = some b
  | .indirect _, x => ∃ t, w.get IndirectMap x = some t

structure Sound (w : World) : Prop where
  closed : w.Closed
  suited : ∀ p x, w.target p = some x → w.Suits p x
  unique : ∀ p q x, w.target p = some x → w.target q = some x → p = q
  inode : ∀ id i, w.get Inode id = some i → i.Proper id
  table : ∀ id d, w.get Directory id = some d → d.Proper id
  root : ∀ r, w.cache = some r → w.target .root = some r.key ∧ w.get Inode r.key = some r.inode

end World

theorem Id.named?_eq_some {id x : Id} : id.named? = some x ↔ x ≠ .zero ∧ id = x := by
  unfold named?
  split
  · rename_i zero
    simp only [reduceCtorEq, false_iff]
    rintro ⟨nonzero, rfl⟩
    exact nonzero zero
  · rename_i nonzero
    rw [Option.some.injEq]
    exact ⟨fun same => ⟨same ▸ nonzero, same⟩, fun h => h.2⟩

namespace World.Sound
variable {w : World}

theorem stored_of_suits {p : Place} {x : Id} (h : w.Suits p x) : ∃ bytes, w.find x = some bytes := by
  have go {ρ : Type} [Stored ρ] {r : ρ} (h : w.get ρ x = some r) : ∃ bytes, w.find x = some bytes :=
    have ⟨bytes, found, _⟩ := find_of_get h
    ⟨bytes, found⟩
  cases p with
  | root => exact h.elim fun _ h => go h.1
  | data id =>
    obtain ⟨i, _, h⟩ := h
    split at h <;> exact h.elim fun _ h => go h
  | slot id i => exact h.elim fun _ h => go h
  | block id k => exact h.elim fun _ h => go h
  | indirect id => exact h.elim fun _ h => go h

theorem taken (h : w.Sound) {p : Place} {x : Id} (named : w.target p = some x) : w.taken x :=
  have ⟨bytes, found⟩ := stored_of_suits (h.suited p x named)
  h.closed.stored x bytes found

theorem take (h : w.Sound) (id : Id) : (w.take id).Sound :=
  ⟨h.closed.take id, h.suited, h.unique, h.inode, h.table, h.root⟩

/-- What is new is no target. -/
theorem untargeted (h : w.Sound) {x : Id} (new : ¬ w.taken x) (p : Place) : w.target p ≠ some x :=
  fun named => new (h.taken named)

theorem target_block {id : Id} {m : BlockMap} (stored : w.get BlockMap id = some m) (k : Fin maxBlocks) :
    w.target (.block id k) = ((w.layout m).slot k).named? := by
  rw [target, stored, Option.bind_some]

theorem target_indirect {id : Id} {m : BlockMap} (stored : w.get BlockMap id = some m) :
    w.target (.indirect id) = m.indirect.named? := by
  rw [target, stored, Option.bind_some]

theorem apart (h : w.Sound) {p : Place} {x : Id} (named : w.target p = some x) (other : p ≠ .root) : w.Apart x := by
  rintro r cached rfl
  exact other (h.unique _ _ _ named (h.root r cached).1)

theorem apart_of_room (h : w.Sound) {κ : Kind} {x : Id} (room : w.Room κ x)
    (other : κ ≠ .inode) : w.Apart x := by
  rintro r cached rfl
  have none := get_none_of_room (σ := Inode) room other.symm
  rw [(h.root r cached).2] at none
  cases none

/-- The file of every stored map is stored. -/
theorem held (h : w.Sound) {id : Id} {m : BlockMap} (stored : w.get BlockMap id = some m) : (w.layout m).Held w := by
  have block (k) (nonzero : (w.layout m).slot k ≠ .zero) : w.target (.block id k) = some ((w.layout m).slot k) := by
    rw [target_block stored, Id.named?_eq_some]
    exact ⟨nonzero, rfl⟩
  have indirect (nonzero : m.indirect ≠ .zero) : w.target (.indirect id) = some m.indirect := by
    rw [target_indirect stored, Id.named?_eq_some]
    exact ⟨nonzero, rfl⟩
  refine ⟨⟨fun k hk => h.suited _ _ (block k hk), fun j k hj same => ?_, fun k hk => h.apart (block k hk) nofun⟩, ?_,
    fun nonzero => h.apart (indirect nonzero) nofun⟩
  · have place := h.unique _ _ _ (block j hj) (same ▸ block k (same ▸ hj))
    cases place
    rfl
  · change if m.indirect = .zero then (w.layout m).table = .empty else _
    split
    · rename_i zero
      rw [layout, if_pos zero]
    · rename_i nonzero
      obtain ⟨t, table⟩ := h.suited _ _ (indirect nonzero)
      rw [layout, if_neg nonzero]
      exact table.trans (congrArg some (by rw [table]; rfl))

end World.Sound

/-- Whatever was stored is still a record of its kind. -/
structure World.Keeps (w w' : World) : Prop where
  inode : ∀ id i, w.get Inode id = some i → ∃ i', w'.get Inode id = some i' ∧ i'.isDirectory = i.isDirectory
  table : ∀ id d, w.get Directory id = some d → ∃ d', w'.get Directory id = some d'
  map : ∀ id m, w.get BlockMap id = some m → ∃ m', w'.get BlockMap id = some m'
  block : ∀ id b, w.get Block id = some b → ∃ b', w'.get Block id = some b'
  indirect : ∀ id t, w.get IndirectMap id = some t → ∃ t', w'.get IndirectMap id = some t'

namespace World
variable {ρ : Type} [Stored ρ] {w w' : World}

theorem kept_of_eq (same : w'.get ρ = w.get ρ) (id : Id) (r : ρ) (stored : w.get ρ id = some r) :
    ∃ r', w'.get ρ id = some r' := ⟨r, same ▸ stored⟩

theorem kept_of_update {x : Id} {new : ρ} (same : w'.get ρ = Function.update (w.get ρ) x (some new)) (id : Id)
    (r : ρ) (stored : w.get ρ id = some r) : ∃ r', w'.get ρ id = some r' := by
  rw [same]
  by_cases here : id = x
  · exact ⟨new, by rw [here, Function.update_self]⟩
  · exact ⟨r, by rw [Function.update_of_ne here, stored]⟩

theorem Keeps.suits (h : Keeps w w') {p : Place} {x : Id} (suits : w.Suits p x) : w'.Suits p x := by
  cases p with
  | root =>
    obtain ⟨i, stored, dir⟩ := suits
    obtain ⟨i', stored', same⟩ := h.inode x i stored
    exact ⟨i', stored', same.trans dir⟩
  | data id =>
    obtain ⟨i, stored, data⟩ := suits
    obtain ⟨i', stored', same⟩ := h.inode id i stored
    refine ⟨i', stored', ?_⟩
    rw [same]
    split at data
    · rename_i dir
      rw [if_pos dir]
      exact data.elim fun d hd => h.table x d hd
    · rename_i file
      rw [if_neg file]
      exact data.elim fun m hm => h.map x m hm
  | slot id i => exact suits.elim fun j hj => (h.inode x j hj).imp fun _ hi => hi.1
  | block id k => exact suits.elim fun b hb => h.block x b hb
  | indirect id => exact suits.elim fun t ht => h.indirect x t ht

/-- One place names something, which it named before or which nothing named. -/
theorem named_of_update {p q : Place} {x y : Id} (target : w'.target = Function.update w.target p (some x))
    (names : w.target p = some x ∨ w'.Suits p x ∧ ∀ q, w.target q ≠ some x) (named : w'.target q = some y) :
    w.target q = some y ∨ w'.Suits q y ∧ (∀ r, w.target r ≠ some y) ∧ ∀ r, w'.target r = some y → r = q := by
  by_cases here : q = p
  · subst here
    rw [target, Function.update_self] at named
    cases named
    refine names.imp_right fun ⟨suits, new⟩ => ⟨suits, new, fun r again => ?_⟩
    by_contra other
    rw [target, Function.update_of_ne other] at again
    exact new r again
  · rw [target, Function.update_of_ne here] at named
    exact .inl named

/-- A sound store stays sound when what places name anew was named by none and is named by one. -/
theorem Sound.evolve (h : w.Sound) (keeps : Keeps w w') (closed : w'.Closed)
    (targets : ∀ p x, w'.target p = some x → w.target p = some x ∨
      w'.Suits p x ∧ (∀ q, w.target q ≠ some x) ∧ ∀ q, w'.target q = some x → q = p)
    (inode : ∀ id i, w'.get Inode id = some i → i.Proper id)
    (table : ∀ id d, w'.get Directory id = some d → d.Proper id)
    (root : ∀ r, w'.cache = some r → w'.target .root = some r.key ∧ w'.get Inode r.key = some r.inode) : w'.Sound where
  closed := closed
  suited p x named := by
    rcases targets p x named with old | ⟨suits, _⟩
    · exact keeps.suits (h.suited p x old)
    · exact suits
  unique p q x hp hq := by
    rcases targets p x hp with oldp | ⟨_, new, only⟩
    · rcases targets q x hq with oldq | ⟨_, new, _⟩
      · exact h.unique p q x oldp oldq
      · exact absurd oldp (new p)
    · exact (only q hq).symm
  inode := inode
  table := table
  root := root

end World
end RecordFs
