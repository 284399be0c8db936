import RecordFs.Proofs.Volume.Elsewhere

/-! Which entry stands at a path. An entry that is at some path stays there until it is removed, and
once it is at no path it never comes back: what is made later is another entry. -/
namespace RecordFs
open Function Volume

namespace Outline
variable {faulty : Prop} {o o' o'' : Outline} {path : String} {now : Int64} {segments place : List String} {id : Id}

/-- The identifier of the entry at the end of these segments. -/
def occupant? (o : Outline) (segments : List String) : Option Id :=
  match o.walk "" segments with
  | .ok i => some i.self
  | .error _ => none

theorem occupant?_of_walk {i : Inode} (found : o.walk path segments = .ok i) : o.occupant? segments = some i.self := by
  rw [occupant?, walk_congr_path "" found]

theorem occupant?_of_error {e : Failure} (lost : o.walk path segments = .error e) : o.occupant? segments = none := by
  rw [occupant?]
  cases walked : o.walk "" segments with
  | ok i =>
    rw [walk_congr_path path walked] at lost
    cases lost
  | error e => rfl

theorem occupant?_eq_some (path : String) : o.occupant? segments = some id ↔ ∃ i, o.walk path segments = .ok i ∧ i.self = id := by
  constructor
  · intro here
    cases walked : o.walk path segments with
    | ok i =>
      rw [occupant?_of_walk walked] at here
      exact ⟨i, rfl, Option.some.inj here⟩
    | error e =>
      rw [occupant?_of_error walked] at here
      cases here
  · rintro ⟨i, walked, rfl⟩
    exact occupant?_of_walk walked

theorem occupant?_congr (same : o'.walk "" segments = o.walk "" segments) : o'.occupant? segments = o.occupant? segments := by
  rw [occupant?, occupant?, same]

theorem Sound.occupant_stored (h : o.Sound) (here : o.occupant? segments = some id) : (o.inode id).isSome := by
  obtain ⟨i, walked, rfl⟩ := (occupant?_eq_some "").mp here
  rw [h.walk_stored walked]
  rfl

/-- No entry is at two paths. -/
theorem Sound.occupant?_injective (h : o.Sound) {other : List String} (here : o.occupant? segments = some id)
    (there : o.occupant? other = some id) : segments = other := by
  obtain ⟨i, walked, rfl⟩ := (occupant?_eq_some "").mp here
  obtain ⟨j, walked', same⟩ := (occupant?_eq_some "").mp there
  exact h.walk_injective walked walked' same.symm

/-- What was stored is stored still, and where it is now it was before. -/
structure Ages (o o' : Outline) : Prop where
  stored : ∀ id, (o.inode id).isSome → (o'.inode id).isSome
  back : ∀ id segments, (o.inode id).isSome → o'.occupant? segments = some id → o.occupant? segments = some id

namespace Ages

theorem refl (o : Outline) : Ages o o := ⟨fun _ => id, fun _ _ _ => id⟩

theorem trans (h : Ages o o') (k : Ages o' o'') : Ages o o'' where
  stored id there := k.stored id (h.stored id there)
  back id segments there here := h.back id segments there (k.back id segments (h.stored id there) here)

/-- An entry stays at its path or is at no path any more. -/
theorem kept_or_gone (h : Ages o o') (sound : o.Sound) (here : o.occupant? segments = some id) :
    o'.occupant? segments = some id ∨ ∀ other, o'.occupant? other ≠ some id := by
  by_cases kept : o'.occupant? segments = some id
  · exact .inl kept
  · right
    intro other there
    have same := sound.occupant?_injective here (h.back id other (sound.occupant_stored here) there)
    exact kept (same ▸ there)

/-- An entry that is at no path comes back to none. -/
theorem gone (h : Ages o o') (there : (o.inode id).isSome) (gone : ∀ other, o.occupant? other ≠ some id) (other : List String) :
    o'.occupant? other ≠ some id := fun here => gone other (h.back id other there here)

end Ages

theorem isSome_inode_apply (c : Change) (there : (o.inode id).isSome) : ((o.apply c).inode id).isSome := by
  cases c with
  | inode i =>
    change (update o.inode i.self (some i) id).isSome
    by_cases same : id = i.self
    · rw [same, update_self]
      rfl
    · rwa [update_of_ne same]
  | table d => exact there
  | content id view => exact there

theorem ages_of_walk {c : Change} (same : ∀ segments, (o.apply c).walk "" segments = o.walk "" segments) : Ages o (o.apply c) where
  stored _ := isSome_inode_apply c
  back _ segments _ here := by rwa [occupant?_congr (same segments)] at here

/-- An entry that changes keeps its identifier. -/
theorem ages_setInode {i j : Inode} (h : o.Sound) (found : o.walk path place = .ok i) (self : j.self = i.self) (data : j.data = i.data)
    (kind : j.isDirectory = i.isDirectory) : Ages o (o.setInode j) where
  stored _ := isSome_inode_apply (.inode j)
  back id segments _ here := by
    have found := walk_congr_path "" found
    have walk := h.walk_setInode found self data kind segments
    by_cases same : segments = place
    · rw [if_pos same] at walk
      rw [occupant?_of_walk walk, self] at here
      rw [same, occupant?_of_walk found, here]
    · rw [if_neg same] at walk
      rwa [occupant?_congr walk] at here

section carried
variable {α β : Type} {r : Except Failure α} {answer : α} {i j parent : Inode} {d : Directory} {opening : Opening}

theorem ages_of_alike (h : o.Sound) (found : o.walk path segments = .ok i) (alike : i.Alike j)
    (carried : Carried faulty [.inode j] answer o r o') : Ages o o' := by
  rcases carried.cons with rfl | ⟨_, rest⟩
  · exact .refl _
  · rw [rest.nil]
    exact ages_setInode h found alike.self alike.data alike.isDirectory

theorem ages_of_make (h : o.Sound) (opens : opening.Open o path) (new : o.New i)
    (carried : Carried faulty (opening.changes now i) answer o r o') : Ages o o' := by
  rw [Opening.changes] at carried
  rcases carried.cons with rfl | ⟨h₁, rest⟩
  · exact .refl _
  have ages₁ : Ages o (o.apply (emptyData i.data i.kind)) := ages_of_walk (walk_emptyData h new "")
  rcases rest.cons with rfl | ⟨h₂, rest⟩
  · exact ages₁
  have walk₂ (segments : List String) : ((o.apply (emptyData i.data i.kind)).setInode i).walk "" segments =
      o.walk "" segments := walk_unlinked h h₁ new segments
  have ages₂ : Ages o ((o.apply (emptyData i.data i.kind)).setInode i) := by
    refine ages₁.trans (ages_of_walk (c := .inode i) fun segments => ?_)
    exact (walk₂ segments).trans (walk_emptyData h new "" segments).symm
  have awaited := awaited_of_new h h₁ new opens
  rcases rest.cons with rfl | ⟨h₃, rest⟩
  · exact ages₂
  have ages₃ : Ages o (((o.apply (emptyData i.data i.kind)).setInode i).setTable (opening.filled i.self)) := by
    -- What comes to stand somewhere is the new entry, and nothing was stored under its identifier.
    refine ⟨ages₂.stored, fun id segments there here => ?_⟩
    have walk := awaited.walk_linked h₂ "" segments
    split at walk
    · rw [occupant?_of_walk walk] at here
      cases here
      rw [new.self.inode] at there
      cases there
    · split at walk
      · rw [occupant?_of_error walk] at here
        cases here
      · rwa [occupant?_congr (walk.trans (walk₂ segments))] at here
  rcases rest.cons with rfl | ⟨_, rest⟩
  · exact ages₃
  rw [rest.nil]
  exact ages₃.trans (ages_setInode (j := touched now opening.parent _) h₃ (awaited.found_linked h₂) rfl rfl rfl)

theorem ages_of_removal {k : Fin dirEntries} {n : Nat} (h : o.Sound) (removal : Removal o path parent d k)
    (carried : Carried faulty [.table (d.put k {}), .inode (touched now parent n)] answer o r o') : Ages o o' := by
  rcases carried.cons with rfl | ⟨h₁, rest⟩
  · exact .refl _
  have ages₁ : Ages o (o.setTable (d.put k {})) := by
    refine ⟨fun _ => id, fun id segments _ here => ?_⟩
    have walk := removal.walk_removed h "" segments
    split at walk
    · rw [occupant?_of_error walk] at here
      cases here
    · rwa [occupant?_congr walk] at here
  rcases rest.cons with rfl | ⟨_, rest⟩
  · exact ages₁
  rw [rest.nil]
  exact ages₁.trans (ages_setInode (j := touched now parent n) h₁ (removal.found_removed h) rfl rfl rfl)

theorem ages_of_storing {old : Nat → UInt8} {data : ByteArray} {offset size : Nat} {a b : β} {changes : List Change}
    (found : o.walk path place = .ok i) (planned : storing now i old data offset size b changes a)
    (carried : Carried faulty changes answer o r o') : Ages o o' := by
  obtain ⟨_, torn, filled, _, _, rfl⟩ := planned
  rcases carried.cons with rfl | ⟨h₁, rest⟩
  · exact .refl _
  have ages₁ : Ages o (o.setContent i.data torn) := ages_of_walk (c := .content i.data torn) fun _ => rfl
  rcases rest.cons with rfl | ⟨h₂, rest⟩
  · exact ages₁
  have ages₂ := ages₁.trans (ages_of_walk (c := .content i.data filled) fun _ => rfl)
  rcases rest.cons with rfl | ⟨_, rest⟩
  · exact ages₂
  rw [rest.nil]
  exact ages₂.trans (ages_setInode (j := touched now i size) h₂ found rfl rfl rfl)

end carried

/-- Whatever a call does, also when it fails on the way. -/
theorem Follows.ages {call : Call} {r : Except Failure Answer} (h : o.Sound)
    (follows : Follows faulty (o.plan now call) o r o') : Ages o o' := by
  cases follows.effect h with
  | unchanged same =>
    rw [same]
    exact .refl o
  | changed found alike carried => exact ages_of_alike h found alike carried
  | made named opens new carried => exact ages_of_make h opens new carried
  | removed named removal carried => exact ages_of_removal h removal carried
  | stored named found planned carried => exact ages_of_storing found planned carried
  | shortened named found carried =>
    rcases carried.cons with same | ⟨_, rest⟩
    · rw [same]
      exact .refl o
    · rw [rest.nil]
      exact ages_setInode (j := touched now _ _) h found rfl rfl rfl

end Outline
end RecordFs
