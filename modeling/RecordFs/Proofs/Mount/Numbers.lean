import RecordFs.Mount.NodeTable
import RecordFs.Path

/-! The numbers of a table. A number is given out once; as long as the table has it, it has one path,
and the path that leads back to it is this one. -/
namespace RecordFs.Mount.NodeTable

/-- The path of a name in a directory known by number. -/
def child? (t : NodeTable) (parent : Nat) (name : ByteArray) : Option String :=
  (String.fromUTF8? name).bind fun name => (t.path? parent).map (Path.child · name)

variable {t u v : NodeTable}

section lookups
variable (t : NodeTable) (number other : Nat) (path : String) (kind : EntryKind) (node : Node)

theorem node?_add : (t.add node).2.node? other = (t.node? other).or (if other = t.next then some node else none) := by
  change (t.nodes ++ [(t.next, node)]).lookup other = _
  rw [List.lookup_append, List.lookup_cons, List.lookup_nil, node?]
  by_cases last : other = t.next
  · rw [if_pos last, beq_iff_eq.mpr last]
  · rw [if_neg last, beq_eq_false_iff_ne.mpr last]

theorem node?_update (f : Node → Node) :
    (t.update number f).node? other = (t.node? other).map fun node => if other = number then f node else node := by
  rw [node?, node?, update]
  induction t.nodes with
  | nil => rfl
  | cons entry rest ih =>
    obtain ⟨n, node⟩ := entry
    rw [List.map_cons, List.lookup_cons, List.lookup_cons, ih]
    cases same : other == n with
    | true =>
      rw [beq_iff_eq.mp same]
      rfl
    | false => rfl

theorem node?_evict : (t.evict number path).node? other = if other = number then none else t.node? other := by
  rw [node?, node?, evict]
  induction t.nodes with
  | nil => exact (ite_self none).symm
  | cons entry rest ih =>
    obtain ⟨n, node⟩ := entry
    rw [List.lookup_cons]
    by_cases gone : n = number
    · rw [List.filter_cons_of_neg (by simpa using gone), ih]
      by_cases here : other = number
      · rw [if_pos here, if_pos here]
      · rw [if_neg here, if_neg here, gone, beq_eq_false_iff_ne.mpr here]
    · rw [List.filter_cons_of_pos (by simpa using gone), List.lookup_cons, ih]
      by_cases here : other = n
      · have kept : ¬ other = number := here ▸ gone
        simp only [beq_iff_eq.mpr here, if_neg kept]
      · rw [beq_eq_false_iff_ne.mpr here]

@[simp] theorem node?_invalidate : (t.invalidate path).node? = t.node? := by
  rw [invalidate]
  split <;> rfl

theorem path?_update {f : Node → Node} (keeps : ∀ node, t.node? number = some node → (f node).path = node.path) :
    (t.update number f).path? other = t.path? other := by
  rw [path?, path?, node?_update, Option.map_map]
  cases found : t.node? other with
  | none => rfl
  | some node =>
    refine congrArg some ?_
    change Node.path (if other = number then f node else node) = node.path
    split
    · rename_i here
      exact keeps node (here ▸ found)
    · rfl

@[simp] theorem path?_invalidate : (t.invalidate path).path? other = t.path? other := by
  rw [path?, path?, node?_invalidate]

@[simp] theorem child?_invalidate (name : ByteArray) : (t.invalidate path).child? number name = t.child? number name := by
  simp only [child?, path?_invalidate]

theorem path?_evict : (t.evict number path).path? other = if other = number then none else t.path? other := by
  rw [path?, path?, node?_evict]
  split <;> rfl

end lookups

/-- Numbers that were given out are below the next one, and a path that has a number is the path of this number. -/
structure Proper (t : NodeTable) : Prop where
  known : ∀ number path, t.path? number = some path → number < t.next
  numbered : ∀ path number, (path, number) ∈ t.numbers → t.path? number = some path

theorem proper_new : Proper {} := by
  constructor
  · intro number path known
    rw [path?, node?, List.lookup_cons] at known
    cases same : number == rootNumber with
    | true => exact beq_iff_eq.mp same ▸ Nat.lt_succ_self _
    | false =>
      rw [same] at known
      cases known
  · intro path number member
    obtain ⟨rfl, rfl⟩ := Prod.mk.inj (List.mem_singleton.mp member)
    rfl

theorem mem_of_number? {path : String} {number : Nat} (found : t.number? path = some number) : (path, number) ∈ t.numbers := by
  obtain ⟨front, back, same, _⟩ := List.lookup_eq_some_iff.mp found
  rw [same]
  exact List.mem_append_right front List.mem_cons_self

theorem Proper.path?_of_number? (h : t.Proper) {path : String} {number : Nat} (found : t.number? path = some number) :
    t.path? number = some path := h.numbered _ _ (mem_of_number? found)

/-- A later state of the table. Numbers that were known may have left it, but none of them has another path. -/
structure Later (t u : NodeTable) : Prop where
  next : t.next ≤ u.next
  path : ∀ number < t.next, ∀ path, u.path? number = some path → t.path? number = some path
  proper : t.Proper → u.Proper

namespace Later

theorem refl (t : NodeTable) : t.Later t := ⟨Nat.le_refl _, fun _ _ _ known => known, id⟩

theorem trans (h : t.Later u) (k : u.Later v) : t.Later v where
  next := Nat.le_trans h.next k.next
  path number before path known := h.path number before path (k.path number (Nat.lt_of_lt_of_le before h.next) path known)
  proper := k.proper ∘ h.proper

end Later

section operations
variable (t : NodeTable) (path : String) (kind : EntryKind) (number : Nat)

theorem later_update {f : Node → Node} (keeps : ∀ node, t.node? number = some node → (f node).path = node.path) :
    t.Later (t.update number f) where
  next := Nat.le_refl _
  path other _ path known := by rwa [path?_update t number other keeps] at known
  proper h := by
    constructor
    · intro other path known
      rw [path?_update t number other keeps] at known
      exact h.known other path known
    · intro path other member
      rw [path?_update t number other keeps]
      exact h.numbered path other member

theorem path?_add (node : Node) (other : Nat) :
    (t.add node).2.path? other = (t.path? other).or (if other = t.next then some node.path else none) := by
  rw [path?, path?, node?_add]
  cases t.node? other with
  | some _ => rfl
  | none => split <;> rfl

theorem Proper.path?_next {t : NodeTable} (h : t.Proper) : t.path? t.next = none := by
  cases known : t.path? t.next with
  | none => rfl
  | some path => exact absurd (h.known _ _ known) (Nat.lt_irrefl _)

theorem Proper.path?_add_next {t : NodeTable} (h : t.Proper) (node : Node) : (t.add node).2.path? t.next = some node.path := by
  rw [path?_add, h.path?_next, if_pos rfl]
  rfl

theorem later_add (node : Node) : t.Later (t.add node).2 where
  next := Nat.le_succ _
  path other before path known := by
    rwa [path?_add, if_neg (Nat.ne_of_lt before), Option.or_none] at known
  proper h := by
    constructor
    · intro other path known
      change other < t.next + 1
      rw [path?_add] at known
      by_cases last : other = t.next
      · omega
      · rw [if_neg last, Option.or_none] at known
        exact Nat.lt_succ_of_lt (h.known other path known)
    · intro path other member
      rcases List.mem_cons.mp member with last | member
      · obtain ⟨rfl, rfl⟩ := Prod.mk.inj last
        exact h.path?_add_next node
      · rw [path?_add, h.numbered path other member, Option.some_or]

theorem later_evict {node : Node} (found : t.node? number = some node) : t.Later (t.evict number node.path) where
  next := Nat.le_refl _
  path other _ path known := by
    rw [path?_evict] at known
    split at known
    · cases known
    · exact known
  proper h := by
    constructor
    · intro other path known
      rw [path?_evict] at known
      split at known
      · cases known
      · exact h.known other path known
    · intro path other member
      obtain ⟨member, kept⟩ := List.mem_filter.mp member
      have leads := h.numbered path other member
      rw [path?_evict, if_neg, leads]
      rintro rfl
      rw [path?, found] at leads
      cases leads
      exact of_decide_eq_true kept rfl

theorem later_invalidate : t.Later (t.invalidate path) where
  next := by
    rw [invalidate]
    split <;> exact Nat.le_refl _
  path other _ path known := by rwa [path?_invalidate] at known
  proper h := by
    have fewer : (t.invalidate path).numbers ⊆ t.numbers := by
      rw [invalidate]
      split
      · exact List.Subset.refl _
      · exact List.filter_sublist.subset
    have same : (t.invalidate path).next = t.next := by
      rw [invalidate]
      split <;> rfl
    constructor
    · intro other path known
      rw [path?_invalidate] at known
      rw [same]
      exact h.known other path known
    · intro path other member
      rw [path?_invalidate]
      exact h.numbered path other (fewer member)

theorem later_lookUp : t.Later (t.lookUp path kind).2 := by
  rw [lookUp]
  cases t.number? path with
  | none => exact t.later_add _
  | some number => exact t.later_update number fun _ _ => rfl

theorem Proper.path?_lookUp {t : NodeTable} (h : t.Proper) :
    (t.lookUp path kind).2.path? (t.lookUp path kind).1 = some path := by
  rw [lookUp]
  cases found : t.number? path with
  | none => exact h.path?_add_next _
  | some number => exact (t.path?_update number number (f := Node.remember) fun _ _ => rfl).trans (h.path?_of_number? found)

theorem number?_invalidate {path : String} (other : path ≠ rootPath) : (t.invalidate path).number? path = none := by
  rw [invalidate, if_neg other, number?, List.lookup_eq_none_iff]
  intro entry member
  exact bne_iff_ne.mpr (Ne.symm (of_decide_eq_true (List.mem_filter.mp member).2))

/-- A path that was taken from its number gets a new one. The old one still has the path. -/
theorem Proper.lookUp_invalidate {t : NodeTable} (h : t.Proper) {path : String} {number : Nat}
    (known : t.path? number = some path) (other : path ≠ rootPath) :
    ((t.invalidate path).lookUp path kind).1 ≠ number ∧
      ((t.invalidate path).lookUp path kind).2.path? number = some path := by
  have kept : (t.invalidate path).path? number = some path := by rw [path?_invalidate, known]
  have before := ((t.later_invalidate path).proper h).known number path kept
  rw [lookUp, t.number?_invalidate other]
  constructor
  · exact Nat.ne_of_gt before
  · exact (path?_add _ _ number).trans (by rw [kept, Option.some_or])

theorem later_mention : t.Later (t.mention path kind).2 := by
  rw [mention]
  cases t.number? path with
  | none => exact t.later_add _
  | some number => exact .refl t

theorem later_forget (count : Nat) : t.Later (t.forget number count).2 := by
  rw [forget]
  split
  · exact .refl t
  · cases found : t.node? number with
    | none => exact .refl t
    | some node =>
      have same : (node.release count).2.path = node.path := Node.release_path
      have kept : t.Later (t.update number fun _ => (node.release count).2) := by
        apply t.later_update
        intro other here
        rw [found] at here
        cases here
        exact same
      simp only
      split
      · rename_i left
        rw [left] at same
        exact same ▸ t.later_evict number found
      · rename_i left
        rwa [left] at kept

end operations
end RecordFs.Mount.NodeTable
