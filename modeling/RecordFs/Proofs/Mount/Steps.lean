import RecordFs.Proofs.Mount.Numbers

/-! All that can happen to a table of numbers. Whatever is asked of it, either counts change, or an
entry is added under the next number, or one leaves with its mapping, or a path loses its number. -/
namespace RecordFs.Mount.NodeTable
variable {t u v : NodeTable}

section operations
variable {path : String} {number count : Nat} {node : Node} (kind : EntryKind)

theorem lookUp_of_known (known : t.number? path = some number) :
    t.lookUp path kind = (number, t.update number Node.remember) := by rw [lookUp, known]

theorem lookUp_of_new (new : t.number? path = none) : t.lookUp path kind = t.add { path, kind } := by
  rw [lookUp, new]

theorem mention_of_known (known : t.number? path = some number) : t.mention path kind = (number, t) := by
  rw [mention, known]

theorem mention_of_new (new : t.number? path = none) : t.mention path kind = t.add { path, kind, count := 0 } := by
  rw [mention, new]

theorem forget_root : t.forget rootNumber count = (false, t) := if_pos rfl

theorem forget_unknown (unknown : t.node? number = none) : t.forget number count = (false, t) := by
  rw [forget, unknown]
  exact ite_self _

theorem forget_last (other : number ≠ rootNumber) (found : t.node? number = some node) :
    t.forget number node.lookups = (true, t.evict number node.path) := by
  rw [forget, if_neg other, found]
  simp only [Node.release_of_le (Nat.le_refl _), Nat.sub_self]

/-- A count that is not that of the entry leaves it in the table. -/
theorem forget_of_ne (other : number ≠ rootNumber) (found : t.node? number = some node) (differs : count ≠ node.lookups) :
    t.forget number count = (false, t.update number fun _ => (node.release count).2) := by
  rw [forget, if_neg other, found]
  rcases Nat.lt_or_ge node.lookups count with fewer | enough
  · simp only [Node.release_of_lt fewer]
  · obtain ⟨left, some_left⟩ := Nat.exists_eq_add_of_lt (Nat.lt_of_le_of_ne enough differs)
    have remains : node.lookups - count = left + 1 := by omega
    simp only [Node.release_of_le enough, remains]

/-- Forgetting does nothing to the root and to a number that is unknown; else the entry leaves with its last lookup,
or its count changes. -/
theorem forget_cases (t : NodeTable) (number count : Nat) :
    (number = rootNumber ∨ t.node? number = none) ∧ t.forget number count = (false, t) ∨
      ∃ node, number ≠ rootNumber ∧ t.node? number = some node ∧
        (node.lookups = count ∧ t.forget number count = (true, t.evict number node.path) ∨
          node.lookups ≠ count ∧ t.forget number count = (false, t.update number fun _ => (node.release count).2)) := by
  by_cases root : number = rootNumber
  · exact .inl ⟨.inl root, root ▸ forget_root⟩
  cases found : t.node? number with
  | none => exact .inl ⟨.inr rfl, forget_unknown found⟩
  | some node =>
    refine .inr ⟨node, root, rfl, ?_⟩
    by_cases last : node.lookups = count
    · exact .inl ⟨last, last ▸ forget_last root found⟩
    · exact .inr ⟨last, forget_of_ne root found (Ne.symm last)⟩

end operations

/-! What becomes of an entry. -/

section entries
variable {path : String} {kind : EntryKind} {number other count : Nat} {node : Node}

theorem node?_lookUp_other (differs : other ≠ (t.lookUp path kind).1) : (t.lookUp path kind).2.node? other = t.node? other := by
  cases known : t.number? path with
  | none =>
    rw [lookUp_of_new kind known] at differs ⊢
    have early : ¬ other = t.next := differs
    rw [node?_add, if_neg early, Option.or_none]
  | some number =>
    rw [lookUp_of_known kind known] at differs ⊢
    rw [node?_update]
    simp only [if_neg differs, Option.map_id']

theorem node?_forget_other (differs : other ≠ number) : (t.forget number count).2.node? other = t.node? other := by
  obtain ⟨_, same⟩ | ⟨node, _, _, ⟨_, same⟩ | ⟨_, same⟩⟩ := t.forget_cases number count
  · rw [same]
  · rw [same, node?_evict, if_neg differs]
  · rw [same, node?_update]
    simp only [if_neg differs, Option.map_id']

/-- More lookups than there are cannot be forgotten. -/
theorem forget_of_lt (root : number ≠ rootNumber) (found : t.node? number = some node) (fewer : node.lookups < count) :
    (t.forget number count).1 = false ∧ (t.forget number count).2.node? number = some node := by
  rw [forget_of_ne root found (Nat.ne_of_gt fewer), node?_update, found, Node.release_of_lt fewer]
  simp

theorem forget_of_gt (root : number ≠ rootNumber) (found : t.node? number = some node) (enough : count < node.lookups) :
    (t.forget number count).1 = false ∧ (t.forget number count).2.node? number = some (node.release count).2 := by
  rw [forget_of_ne root found (Nat.ne_of_lt enough), node?_update, found]
  simp

theorem forget_eq_true : (t.forget number count).1 = true ↔
    number ≠ rootNumber ∧ ∃ node, t.node? number = some node ∧ node.lookups = count := by
  obtain ⟨nothing, same⟩ | ⟨node, root, found, ⟨last, same⟩ | ⟨differs, same⟩⟩ := t.forget_cases number count
  · rw [same]
    refine iff_of_false Bool.false_ne_true ?_
    rintro ⟨root, node, found, _⟩
    cases found.symm.trans (nothing.resolve_left root)
  · rw [same]
    exact iff_of_true rfl ⟨root, node, found, last⟩
  · rw [same]
    refine iff_of_false Bool.false_ne_true ?_
    rintro ⟨_, other, found', last⟩
    cases found.symm.trans found'
    exact differs last

theorem node?_forget_of_true (left : (t.forget number count).1 = true) : (t.forget number count).2.node? number = none := by
  obtain ⟨root, node, found, rfl⟩ := forget_eq_true.mp left
  rw [forget_last root found, node?_evict, if_pos rfl]

end entries

/-! What paths are numbered. -/

section numbering
variable {path other : String} {number : Nat} {numbers : List (String × Nat)}

theorem lookup_of_mem (distinct : (numbers.map Prod.fst).Nodup) (member : (path, number) ∈ numbers) :
    numbers.lookup path = some number := by
  induction numbers with
  | nil => cases member
  | cons entry rest ih =>
    obtain ⟨first, n⟩ := entry
    obtain ⟨absent, distinct⟩ := List.nodup_cons.mp distinct
    rw [List.lookup_cons]
    rcases List.mem_cons.mp member with here | further
    · obtain ⟨rfl, rfl⟩ := Prod.mk.inj here
      simp only [beq_self_eq_true]
    · have differs : path ≠ first := by
        rintro rfl
        exact absent (List.mem_map.mpr ⟨_, further, rfl⟩)
      simp only [beq_eq_false_iff_ne.mpr differs, ih distinct further]

theorem lookup_eq_none (absent : path ∉ numbers.map Prod.fst) : numbers.lookup path = none := by
  rw [List.lookup_eq_none_iff]
  intro entry member
  refine bne_iff_ne.mpr ?_
  rintro rfl
  exact absent (List.mem_map.mpr ⟨_, member, rfl⟩)

/-- In what is kept of a list, a path has the number it had or none. -/
theorem lookup_filter (distinct : (numbers.map Prod.fst).Nodup) (keep : String × Nat → Bool) :
    (numbers.filter keep).lookup path = (numbers.lookup path).filter fun number => keep (path, number) := by
  induction numbers with
  | nil => rfl
  | cons entry rest ih =>
    obtain ⟨first, n⟩ := entry
    obtain ⟨absent, distinct⟩ := List.nodup_cons.mp distinct
    have kept_rest := ih distinct
    by_cases here : path = first
    · subst here
      rw [lookup_eq_none absent] at kept_rest
      cases kept : keep (path, n) <;>
        simp only [List.filter_cons, kept, List.lookup_cons, beq_self_eq_true, kept_rest, Option.filter_some,
          Option.filter_none, Bool.false_eq_true, if_false, if_true]
    · have differs : (path == first) = false := beq_eq_false_iff_ne.mpr here
      cases kept : keep (first, n) <;>
        simp only [List.filter_cons, kept, List.lookup_cons, differs, kept_rest, Bool.false_eq_true, if_false, if_true]

theorem number?_update (f : Node → Node) : (t.update number f).number? path = t.number? path := rfl

theorem number?_add (node : Node) :
    (t.add node).2.number? path = if path = node.path then some t.next else t.number? path := by
  rw [number?, add, List.lookup_cons]
  by_cases here : path = node.path
  · simp only [here, beq_self_eq_true, if_true]
  · simp only [beq_eq_false_iff_ne.mpr here, if_neg here, number?]

theorem number?_evict (distinct : (t.numbers.map Prod.fst).Nodup) :
    (t.evict number path).number? other =
      if other = path ∧ t.number? other = some number then none else t.number? other := by
  rw [number?, number?, evict, lookup_filter distinct]
  cases t.numbers.lookup other with
  | none => simp
  | some n => by_cases here : other = path <;> by_cases same : n = number <;> simp [here, same]

theorem number?_invalidate_other (distinct : (t.numbers.map Prod.fst).Nodup) (differs : other ≠ path) :
    (t.invalidate path).number? other = t.number? other := by
  rw [invalidate]
  split
  · rfl
  · rw [number?, lookup_filter distinct]
    cases found : t.numbers.lookup other <;> simp [number?, found, differs]

end numbering

/-- All that an operation can do to a table. -/
inductive Step (t : NodeTable) : NodeTable → Prop
  | stays : Step t t
  | counts (number : Nat) (f : Node → Node)
      (keeps : ∀ node, t.node? number = some node → (f node).path = node.path ∧ (f node).kind = node.kind) :
      Step t (t.update number f)
  | adds (node : Node) (new : t.number? node.path = none) : Step t (t.add node).2
  | evicts (number : Nat) (node : Node) (other : number ≠ rootNumber) (found : t.node? number = some node) :
      Step t (t.evict number node.path)
  | unmaps (path : String) (other : path ≠ rootPath) : Step t (t.invalidate path)

section operations
variable (t : NodeTable) (path : String) (kind : EntryKind) (number count : Nat)

theorem step_lookUp : t.Step (t.lookUp path kind).2 := by
  cases known : t.number? path with
  | none =>
    rw [lookUp_of_new kind known]
    exact .adds _ known
  | some number =>
    rw [lookUp_of_known kind known]
    exact .counts number Node.remember fun _ _ => ⟨rfl, rfl⟩

theorem step_mention : t.Step (t.mention path kind).2 := by
  cases known : t.number? path with
  | none =>
    rw [mention_of_new kind known]
    exact .adds _ known
  | some number =>
    rw [mention_of_known kind known]
    exact .stays

theorem step_forget : t.Step (t.forget number count).2 := by
  obtain ⟨_, same⟩ | ⟨node, root, found, ⟨_, same⟩ | ⟨_, same⟩⟩ := t.forget_cases number count
  · rw [same]
    exact .stays
  · rw [same]
    exact .evicts number node root found
  · rw [same]
    apply Step.counts number fun _ => (node.release count).2
    intro other found'
    cases found.symm.trans found'
    exact ⟨Node.release_path, Node.release_kind⟩

theorem next_forget : (t.forget number count).2.next = t.next := by
  rw [forget]
  split
  · rfl
  · split
    · rfl
    · split <;> rfl

theorem next_invalidate : (t.invalidate path).next = t.next := by
  rw [invalidate]
  split <;> rfl

theorem step_invalidate : t.Step (t.invalidate path) := by
  by_cases root : path = rootPath
  · rw [invalidate, if_pos root]
    exact .stays
  · exact .unmaps path root

end operations

/-- Forgetting one number leaves the paths of the others. -/
theorem number?_forget (distinct : (t.numbers.map Prod.fst).Nodup) {path : String} {number count : Nat}
    (differs : t.number? path ≠ some number) : (t.forget number count).2.number? path = t.number? path := by
  obtain ⟨_, same⟩ | ⟨node, _, _, ⟨_, same⟩ | ⟨_, same⟩⟩ := t.forget_cases number count
  · rw [same]
  · rw [same, number?_evict distinct, if_neg fun same => differs same.2]
  · rw [same, number?_update]

/-- A table in which a path has one number at most, and the root has its own. -/
structure Sound (t : NodeTable) : Prop where
  proper : t.Proper
  distinct : (t.numbers.map Prod.fst).Nodup
  root : t.number? rootPath = some rootNumber

theorem sound_new : Sound {} := ⟨proper_new, List.nodup_cons.mpr ⟨List.not_mem_nil, List.nodup_nil⟩, rfl⟩

theorem Step.later (h : t.Step u) : t.Later u := by
  cases h with
  | stays => exact .refl t
  | counts number f keeps => exact t.later_update number fun node found => (keeps node found).1
  | adds node _ => exact t.later_add node
  | evicts number node _ found => exact t.later_evict number found
  | unmaps path _ => exact t.later_invalidate path

theorem Sound.step (sound : t.Sound) (h : t.Step u) : u.Sound := by
  refine ⟨h.later.proper sound.proper, ?_, ?_⟩
  · cases h with
    | stays | counts => exact sound.distinct
    | adds node new =>
      refine List.nodup_cons.mpr ⟨?_, sound.distinct⟩
      rintro member
      obtain ⟨⟨path, number⟩, member, rfl⟩ := List.mem_map.mp member
      rw [number?, lookup_of_mem sound.distinct member] at new
      cases new
    | evicts => exact sound.distinct.sublist (List.filter_sublist.map _)
    | unmaps path other =>
      rw [invalidate, if_neg other]
      exact sound.distinct.sublist (List.filter_sublist.map _)
  · cases h with
    | stays | counts => exact sound.root
    | adds node new =>
      rw [number?_add, if_neg, sound.root]
      intro same
      rw [← same, sound.root] at new
      cases new
    | evicts number node other =>
      rw [number?_evict sound.distinct, if_neg, sound.root]
      rintro ⟨-, same⟩
      rw [sound.root] at same
      exact other (Option.some.inj same).symm
    | unmaps path other => rw [number?_invalidate_other sound.distinct (Ne.symm other), sound.root]

namespace Sound
variable {path : String} {number : Nat} (sound : t.Sound)
include sound

theorem of_number? (found : t.number? path = some number) : ∃ node, t.node? number = some node ∧ node.path = path :=
  Option.map_eq_some_iff.mp (sound.proper.path?_of_number? found)

theorem before {node : Node} (found : t.node? number = some node) : number < t.next :=
  sound.proper.known number node.path (Option.map_eq_some_iff.mpr ⟨node, found, rfl⟩)

theorem mapped_before (found : t.number? path = some number) : number < t.next := by
  obtain ⟨node, entry, -⟩ := sound.of_number? found
  exact sound.before entry

theorem node?_next : t.node? t.next = none := by
  cases found : t.node? t.next with
  | none => rfl
  | some node => exact absurd (sound.before found) (Nat.lt_irrefl _)

/-- The number that is looked up counts once more, or is new and counts once. -/
theorem node?_lookUp (path : String) (kind : EntryKind) :
    (∃ node, t.node? (t.lookUp path kind).1 = some node ∧
      (t.lookUp path kind).2.node? (t.lookUp path kind).1 = some node.remember) ∨
    (t.node? (t.lookUp path kind).1 = none ∧
      (t.lookUp path kind).2.node? (t.lookUp path kind).1 = some { path, kind }) := by
  cases known : t.number? path with
  | none =>
    rw [lookUp_of_new kind known]
    right
    refine ⟨sound.node?_next, (node?_add ..).trans ?_⟩
    rw [show t.node? (t.add { path, kind }).1 = none from sound.node?_next, Option.none_or]
    exact if_pos rfl
  | some number =>
    obtain ⟨node, found, -⟩ := sound.of_number? known
    rw [lookUp_of_known kind known]
    left
    refine ⟨node, found, (node?_update ..).trans ?_⟩
    simp [found]

/-- An entry that is mentioned is as it was, or new and counts not at all. -/
theorem node?_mention (path : String) (kind : EntryKind) (number : Nat) : (t.mention path kind).2.node? number = t.node? number ∨
    t.node? number = none ∧ (t.mention path kind).2.node? number = some { path, kind, count := 0 } := by
  cases known : t.number? path with
  | none =>
    rw [mention_of_new kind known, node?_add]
    by_cases new : number = t.next
    · right
      rw [new, sound.node?_next, if_pos rfl]
      exact ⟨rfl, rfl⟩
    · left
      rw [if_neg new, Option.or_none]
  | some _ =>
    rw [mention_of_known kind known]
    exact .inl rfl

end Sound

/-- What an older table says of a younger one. An entry that is still there has its path and its kind,
and a path has the number it had or one that was given out since. -/
structure Descends (t u : NodeTable) : Prop where
  next : t.next ≤ u.next
  node : ∀ number < t.next, ∀ now, u.node? number = some now →
    ∃ before, t.node? number = some before ∧ now.path = before.path ∧ now.kind = before.kind
  number : ∀ path number, u.number? path = some number → t.number? path = some number ∨ t.next ≤ number

namespace Descends

theorem refl (t : NodeTable) : t.Descends t where
  next := Nat.le_refl _
  node _ _ now found := ⟨now, found, rfl, rfl⟩
  number _ _ found := .inl found

theorem trans (h : t.Descends u) (k : u.Descends v) : t.Descends v where
  next := Nat.le_trans h.next k.next
  node number early now found := by
    obtain ⟨between, found, path, kind⟩ := k.node number (Nat.lt_of_lt_of_le early h.next) now found
    obtain ⟨before, found, path', kind'⟩ := h.node number early between found
    exact ⟨before, found, path.trans path', kind.trans kind'⟩
  number path number found := by
    rcases k.number path number found with found | late
    · exact h.number path number found
    · exact .inr (Nat.le_trans h.next late)

end Descends

theorem Step.descends (h : t.Step u) (sound : t.Sound) : t.Descends u where
  next := h.later.next
  node number early now found := by
    cases h with
    | stays => exact ⟨now, found, rfl, rfl⟩
    | counts changed f keeps =>
      rw [node?_update] at found
      obtain ⟨before, known, rfl⟩ := Option.map_eq_some_iff.mp found
      refine ⟨before, known, ?_⟩
      split
      · rename_i here
        exact keeps before (here ▸ known)
      · exact ⟨rfl, rfl⟩
    | adds node _ =>
      rw [node?_add, if_neg (Nat.ne_of_lt early), Option.or_none] at found
      exact ⟨now, found, rfl, rfl⟩
    | evicts =>
      rw [node?_evict] at found
      split at found
      · cases found
      · exact ⟨now, found, rfl, rfl⟩
    | unmaps =>
      rw [node?_invalidate] at found
      exact ⟨now, found, rfl, rfl⟩
  number path number found := by
    cases h with
    | stays | counts => exact .inl found
    | adds node _ =>
      rw [number?_add] at found
      split at found
      · exact .inr (Nat.le_of_eq (Option.some.inj found))
      · exact .inl found
    | evicts =>
      rw [number?_evict sound.distinct] at found
      split at found
      · cases found
      · exact .inl found
    | unmaps gone other =>
      by_cases same : path = gone
      · rw [same, t.number?_invalidate other] at found
        cases found
      · rw [number?_invalidate_other sound.distinct same] at found
        exact .inl found

end RecordFs.Mount.NodeTable
