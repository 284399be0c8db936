import RecordFs.Content.Mapping
import RecordFs.Proofs.Renaming.Mirroring

/-! The bytes of files under other names: blocks are found where the map has them, and a block that
is new gets a new name. -/
namespace RecordFs
open Renaming

namespace Content
variable {σ : Renaming} (map : BlockMap) (indirect : Option IndirectMap)

theorem mirrors_blockAt (index : Fin maxBlocks) :
    Mirrors σ (Renamed σ) (blockAt map indirect index) (blockAt (rename σ map) (rename σ indirect) index) := by
  rw [blockAt, blockAt]
  cases place index with
  | inl i => exact .pure (Prod.ext (direct_rename σ map i) rfl)
  | inr i =>
    apply Mirrors.ite (rename_eq_zero σ)
    · intro _
      exact .pure (Prod.ext (rename_zero σ).symm rfl)
    · intro _
      have found (table : IndirectMap) : Mirrors σ (Renamed σ) (pure (table.blocks[i], some table) : Action _)
          (pure ((rename σ table).blocks[i], some (rename σ table))) := .pure (Prod.ext (blocks_rename σ table i) rfl)
      cases indirect with
      | some table => exact found table
      | none =>
        apply (Store.mirrors_load σ IndirectMap map.indirect).bind
        rintro table _ rfl
        exact found table

theorem mirrors_readSpans (l : List Span) (out : ByteArray) :
    Mirrors σ (Renamed σ) (readSpans map l indirect out) (readSpans (rename σ map) l (rename σ indirect) out) := by
  induction l generalizing indirect out with
  | nil => exact .pure rfl
  | cons span rest ih =>
    apply (mirrors_blockAt map indirect span.index).bind
    rintro ⟨id, indirect⟩ _ rfl
    apply Mirrors.ite (rename_eq_zero σ)
    · intro _
      exact ih _ _
    · intro _
      apply (Store.mirrors_load σ Block id).bind
      rintro block _ rfl
      exact ih _ _

theorem mirrors_read (offset length : Nat) : Mirrors σ (Renamed σ) (read map offset length) (read (rename σ map) offset length) :=
  mirrors_readSpans map none _ _

theorem mirrors_clearSpans (l : List Span) :
    Mirrors σ (Renamed σ) (clearSpans map l indirect) (clearSpans (rename σ map) l (rename σ indirect)) := by
  induction l generalizing indirect with
  | nil => exact .pure rfl
  | cons span rest ih =>
    apply (mirrors_blockAt map indirect span.index).bind
    rintro ⟨id, indirect⟩ _ rfl
    apply Mirrors.ite (rename_eq_zero σ)
    · intro _
      exact ih _
    · intro _
      apply (Store.mirrors_load σ Block id).bind
      rintro _ block rfl
      apply (Store.mirrors_save σ id (block.overlay span.start (zeros span.length) _)).bind
      intro _ _ _
      exact ih _

theorem mirrors_clear (start stop : Nat) : Mirrors σ (Renamed σ) (clear map start stop) (clear (rename σ map) start stop) :=
  mirrors_clearSpans map none _

/-- A block map that is being filled, under other names. -/
instance : Renames Allocation := ⟨fun σ a => { a with map := rename σ a.map, indirect := rename σ a.indirect }⟩

variable {α β γ δ : Type} {R : α → β → Prop} {S : γ → δ → Prop}

/-- Both allocate the same under other names, from the same maps under other names on. -/
def MirrorsAllocating (σ : Renaming) (R : α → β → Prop) (x : Allocating α) (y : Allocating β) : Prop :=
  ∀ a c, ((x.run.run a).run c).Mirrors σ
    (fun r r' => Outcome σ R r.1.1 r'.1.1 ∧ Renamed σ r.1.2 r'.1.2 ∧ Renamed σ r.2 r'.2)
    ((y.run.run (rename σ a)).run (rename σ c))

namespace MirrorsAllocating

theorem pure {a : α} {b : β} (same : R a b) : MirrorsAllocating σ R (pure a) (pure b) := fun _ _ => ⟨same, rfl, rfl⟩

theorem bind {x : Allocating α} {y : Allocating β} {f : α → Allocating γ} {g : β → Allocating δ}
    (h : MirrorsAllocating σ R x y) (next : ∀ a b, R a b → MirrorsAllocating σ S (f a) (g b)) :
    MirrorsAllocating σ S (x >>= f) (y >>= g) := by
  intro a c
  apply Access.mirrors_bind (h a c)
  rintro ⟨⟨r, a⟩, c⟩ ⟨⟨r', a'⟩, c'⟩ ⟨same, maps, cache⟩
  cases maps
  cases cache
  cases r with
  | ok v =>
    cases r' with
    | ok v' => exact next v v' same a c
    | error e' => exact same.elim
  | error e =>
    cases r' with
    | ok v' => exact same.elim
    | error e' => exact ⟨same, rfl, rfl⟩

theorem ite {p q : Prop} [Decidable p] [Decidable q] {x x' : Allocating α} {y y' : Allocating β} (same : q ↔ p)
    (first : p → MirrorsAllocating σ R x y) (second : ¬ p → MirrorsAllocating σ R x' y') :
    MirrorsAllocating σ R (if p then x else x') (if q then y else y') := by
  by_cases h : p
  · rw [if_pos h, if_pos (same.mpr h)]
    exact first h
  · rw [if_neg h, if_neg (mt same.mp h)]
    exact second h

theorem ofExcept {v : Except Failure α} {v' : Except Failure β} (same : Outcome σ R v v') :
    MirrorsAllocating σ R (MonadExcept.ofExcept v) (MonadExcept.ofExcept v') := by
  cases v with
  | ok a =>
    cases v' with
    | ok b => exact .pure same
    | error e' => exact same.elim
  | error e =>
    cases v' with
    | ok b => exact same.elim
    | error e' => exact fun _ _ => ⟨same, rfl, rfl⟩

end MirrorsAllocating

theorem mirrors_act {x : Action α} {y : Action β} (h : Mirrors σ R x y) : MirrorsAllocating σ R (act x) (act y) := by
  intro a c
  apply Access.mirrors_bind (h c)
  rintro ⟨r, c⟩ ⟨r', c'⟩ ⟨same, cache⟩
  exact ⟨same, rfl, cache⟩

theorem mirrors_allocation (σ : Renaming) : MirrorsAllocating σ (Renamed σ) allocation allocation :=
  fun _ _ => ⟨rfl, rfl, rfl⟩

theorem mirrors_set {a b : Allocation} (same : b = rename σ a) :
    MirrorsAllocating σ (Renamed σ) (set a : Allocating PUnit) (set b : Allocating PUnit) :=
  fun _ _ => ⟨rfl, same, rfl⟩

theorem mirrors_modify {f g : Allocation → Allocation} (same : ∀ a, g (rename σ a) = rename σ (f a)) :
    MirrorsAllocating σ (Renamed σ) (modify f : Allocating PUnit) (modify g : Allocating PUnit) :=
  fun a _ => ⟨rfl, same a, rfl⟩

theorem mirrors_indirectMap (σ : Renaming) : MirrorsAllocating σ (Renamed σ) indirectMap indirectMap := by
  apply (mirrors_allocation σ).bind
  rintro a _ rfl
  apply MirrorsAllocating.ite (rename_eq_zero σ)
  · intro _
    apply (mirrors_act (Store.mirrors_freshId σ)).bind
    rintro id _ rfl
    have empty := rename_emptyTable σ
    have taken : ({ map := { rename σ a.map with indirect := rename σ id }, indirect := some .empty, changed := true } : Allocation) =
        rename σ { map := { a.map with indirect := id }, indirect := some .empty, changed := true } :=
      congrArg (fun table => (⟨_, some table, true⟩ : Allocation)) empty.symm
    apply (mirrors_set taken).bind
    intro _ _ _
    exact .pure empty.symm
  · intro _
    cases indirect : a.indirect with
    | some table =>
      have renamed : (rename σ a).indirect = some (rename σ table) := congrArg (rename σ) indirect
      rw [renamed]
      exact .pure rfl
    | none =>
      have renamed : (rename σ a).indirect = none := congrArg (rename σ) indirect
      rw [renamed]
      apply (mirrors_act (Store.mirrors_load σ IndirectMap a.map.indirect)).bind
      rintro table _ rfl
      apply (mirrors_set rfl).bind
      intro _ _ _
      exact .pure rfl

theorem mirrors_blockFor (σ : Renaming) (index : Fin maxBlocks) :
    MirrorsAllocating σ (Renamed σ) (blockFor index) (blockFor index) := by
  rw [blockFor]
  cases place index with
  | inl i =>
    apply (mirrors_allocation σ).bind
    rintro a _ rfl
    have block : (rename σ a).map.direct[i] = rename σ a.map.direct[i] := direct_rename σ a.map i
    apply MirrorsAllocating.ite (by rw [block, ne_eq, rename_eq_zero])
    · intro _
      exact .pure (Prod.ext block rfl)
    · intro _
      apply (mirrors_act (Store.mirrors_freshId σ)).bind
      rintro id _ rfl
      have added : ({ rename σ a with map := { rename σ a.map with direct := (rename σ a.map).direct.set i (rename σ id) } } : Allocation) =
          rename σ { a with map := { a.map with direct := a.map.direct.set i id } } :=
        congrArg (fun map => ({ rename σ a with map } : Allocation)) (rename_setDirect σ a.map i id).symm
      apply (mirrors_set added).bind
      intro _ _ _
      exact .pure rfl
  | inr i =>
    apply (mirrors_indirectMap σ).bind
    rintro table _ rfl
    have block : (rename σ table).blocks[i] = rename σ table.blocks[i] := blocks_rename σ table i
    apply MirrorsAllocating.ite (by rw [block, ne_eq, rename_eq_zero])
    · intro _
      exact .pure (Prod.ext block rfl)
    · intro _
      apply (mirrors_act (Store.mirrors_freshId σ)).bind
      rintro id _ rfl
      apply (mirrors_modify ?_).bind
      · intro _ _ _
        exact .pure rfl
      · intro a
        exact congrArg (fun table => ({ rename σ a with indirect := some table, changed := true } : Allocation))
          (rename_setBlock σ table i id).symm

theorem mirrors_writeSpans (data : ByteArray) (l : List Span) (position : Nat) :
    MirrorsAllocating σ (Renamed σ) (writeSpans data l position) (writeSpans data l position) := by
  induction l generalizing position with
  | nil => exact .pure rfl
  | cons span rest ih =>
    apply (mirrors_blockFor σ span.index).bind
    rintro ⟨id, isNew⟩ _ rfl
    have stored (block : Block) : MirrorsAllocating σ (Renamed σ) (act (Store.save id block)) (act (Store.save (rename σ id) block)) :=
      mirrors_act (Store.mirrors_save σ id block)
    apply MirrorsAllocating.ite Iff.rfl
    · intro _
      apply MirrorsAllocating.bind (R := Renamed σ) (.pure rfl)
      rintro _ block rfl
      apply (stored _).bind
      intro _ _ _
      exact ih _
    · intro _
      apply (mirrors_act (Store.mirrors_load σ Block id)).bind
      rintro _ block rfl
      apply (stored _).bind
      intro _ _ _
      exact ih _

theorem outcome_checkExtent (σ : Renaming) (offset length : Nat) :
    Outcome σ Eq (checkExtent offset length) (checkExtent offset length) := by
  rw [checkExtent]
  split
  · exact rfl
  · exact rfl

variable (mapId : Id) (data : ByteArray) (offset : Nat)

theorem mirrors_writeBlocks :
    MirrorsAllocating σ (Renamed σ) (writeBlocks mapId data offset) (writeBlocks (rename σ mapId) data offset) := by
  apply (MirrorsAllocating.ofExcept (outcome_checkExtent σ offset data.size)).bind
  rintro stop _ rfl
  apply (mirrors_writeSpans data _ 0).bind
  intro _ _ _
  apply (mirrors_allocation σ).bind
  rintro a _ rfl
  have last : MirrorsAllocating σ (Renamed σ) (do act (Store.save mapId a.map); return data.size)
      (do act (Store.save (rename σ mapId) (rename σ a.map)); return data.size) := by
    apply (mirrors_act (Store.mirrors_save σ mapId a.map)).bind
    intro _ _ _
    exact .pure rfl
  apply MirrorsAllocating.ite Iff.rfl
  · intro _
    cases indirect : a.indirect with
    | none =>
      have renamed : (rename σ a).indirect = none := congrArg (rename σ) indirect
      rw [renamed]
      exact last
    | some table =>
      have renamed : (rename σ a).indirect = some (rename σ table) := congrArg (rename σ) indirect
      rw [renamed]
      apply (mirrors_act (Store.mirrors_save σ a.map.indirect table)).bind
      intro _ _ _
      exact last
  · intro _
    exact last

theorem mirrors_write (map : BlockMap) :
    Mirrors σ (Renamed σ) (write mapId map data offset) (write (rename σ mapId) (rename σ map) data offset) := by
  intro c
  have blocks := mirrors_writeBlocks (σ := σ) mapId data offset { map } c
  have maps : ((writeMap mapId map data offset).run c).Mirrors σ
      (fun r r' => Outcome σ (Renamed σ) r.1.1 r'.1.1 ∧ Renamed σ r.2 r'.2)
      ((writeMap (rename σ mapId) (rename σ map) data offset).run (rename σ c)) := by
    apply Access.mirrors_bind blocks
    rintro ⟨⟨r, a⟩, c⟩ ⟨⟨r', a'⟩, c'⟩ ⟨same, _, cache⟩
    exact ⟨same, cache⟩
  apply Access.mirrors_bind maps
  rintro ⟨⟨r, map⟩, c⟩ ⟨⟨r', map'⟩, c'⟩ same
  exact same

end Content
end RecordFs
