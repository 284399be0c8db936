import RecordFs.Proofs.Tree.Machine

/-! Where segments lead in a tree, and what another entry at a place does to that. -/
namespace RecordFs
open Function

/-- What shows of an entry by itself, without what is behind it. -/
structure Glance where
  facts : Facts
  /-- The names in the slots of a directory. -/
  names : Option (Fin dirEntries → Option String)

namespace Slots

def names (slots : Slots) (k : Fin dirEntries) : Option String := (slots k).map (·.1)

variable {slots slots' : Slots} {name x : String} {node : Tree} {k : Fin dirEntries}

theorem find?_congr (same : ∀ k, (slots' k).filter (·.1 = name) = (slots k).filter (·.1 = name)) :
    slots'.find? name = slots.find? name :=
  congrArg (List.finRange dirEntries).findSome? (funext fun k => by rw [same])

private theorem candidate_eq_some {entry : Option (String × Tree)} :
    (entry.filter (·.1 = name)).map (·.2) = some node ↔ entry = some (name, node) := by
  cases entry with
  | none => simp
  | some entry =>
    obtain ⟨n, child⟩ := entry
    by_cases same : n = name <;> simp [Option.filter, same]

private theorem candidate_eq_none {entry : Option (String × Tree)} :
    (entry.filter (·.1 = name)).map (·.2) = none ↔ entry.map (·.1) ≠ some name := by
  cases entry with
  | none => simp
  | some entry => by_cases same : entry.1 = name <;> simp [Option.filter, same]

theorem find?_eq_none : slots.find? name = none ↔ ∀ k, slots.names k ≠ some name := by
  rw [find?, ← Fin.findSome?_eq_findSome?_finRange, Fin.findSome?_eq_none_iff]
  exact forall_congr' fun k => candidate_eq_none

/-- A name that stands in one slot only finds that slot. -/
theorem find?_of_slot (here : slots k = some (name, node)) (single : ∀ j, slots.names j = some name → j = k) :
    slots.find? name = some node := by
  rw [find?, ← Fin.findSome?_eq_findSome?_finRange, Fin.findSome?_eq_some_iff]
  refine ⟨k, candidate_eq_some.mpr here, fun j before => candidate_eq_none.mpr fun named => ?_⟩
  rw [single j named] at before
  exact absurd before (lt_irrefl k)

theorem find?_erase_self (slots : Slots) (name : String) : (slots.erase name).find? name = none := by
  refine find?_eq_none.mpr fun k named => ?_
  obtain ⟨entry, kept, same⟩ := Option.map_eq_some_iff.mp named
  exact absurd same (of_decide_eq_true (Option.filter_eq_some_iff.mp kept).2)

theorem find?_erase_of_ne (slots : Slots) (other : x ≠ name) : (slots.erase name).find? x = slots.find? x := by
  refine find?_congr fun k => ?_
  rw [erase]
  cases slots k with
  | none => rfl
  | some entry =>
    by_cases same : entry.1 = x
    · simp [Option.filter, same, other]
    · by_cases gone : entry.1 = name <;> simp [Option.filter, same, gone, other.symm]

theorem find?_update_of_ne (free : slots k = none) (other : x ≠ name) :
    find? (update slots k (some (name, node))) x = slots.find? x := by
  refine find?_congr fun j => ?_
  by_cases here : j = k
  · rw [here, update_self, free]
    exact if_neg fun same => other (of_decide_eq_true same).symm
  · rw [update_of_ne here]

theorem find?_update_self (new : slots.find? name = none) :
    find? (update slots k (some (name, node))) name = some node := by
  refine find?_of_slot (update_self ..) fun j named => ?_
  by_cases here : j = k
  · exact here
  · rw [names, update_of_ne here] at named
    exact absurd named (find?_eq_none.mp new j)

theorem names_update (slots : Slots) (k : Fin dirEntries) (name : String) (node : Tree) :
    names (update slots k (some (name, node))) = update slots.names k (some name) := by
  funext j
  by_cases here : j = k
  · rw [here, names, update_self, update_self]
    rfl
  · rw [names, update_of_ne here, update_of_ne here, names]

/-- The slots in which the entry of a name became another one. -/
theorem find?_map (slots : Slots) (name : String) (f : Tree → Tree) (x : String) :
    find? (fun k => (slots k).map fun (n, child) => (n, if n = name then f child else child)) x =
      (slots.find? x).map fun child => if x = name then f child else child := by
  rw [find?, find?, List.map_findSome?]
  refine congrArg (List.finRange dirEntries).findSome? (funext fun k => ?_)
  rw [comp_apply]
  cases slots k with
  | none => rfl
  | some entry =>
    obtain ⟨n, child⟩ := entry
    by_cases same : n = x <;> simp [Option.filter, same]

theorem map_names_occupied (slots : Slots) : slots.occupied.map (·.1) = (List.finRange dirEntries).filterMap slots.names :=
  List.map_filterMap

end Slots

namespace Tree
variable {tree node : Tree} {facts : Facts} {slots slots' : Slots} {path name : String} {place segments : List String}

def glance : Tree → Glance
  | file facts => ⟨facts, none⟩
  | directory facts slots => ⟨facts, some (Slots.names slots)⟩

theorem walk_cons (path name : String) (rest : List String) (facts : Facts) (slots : Slots) :
    (directory facts slots).walk path (name :: rest) = match slots.find? name with
      | some child => child.walk path rest
      | none => .error (.notFound path) := rfl

/-- Where a walk comes to does not depend on what it is told to blame. -/
theorem walk_congr_path (other : String) (found : tree.walk path place = .ok node) : tree.walk other place = .ok node := by
  induction place generalizing tree with
  | nil => exact found
  | cons name place ih =>
    cases tree with
    | file facts => cases found
    | directory facts slots =>
      rw [walk_cons] at found ⊢
      cases here : Slots.find? slots name with
      | none =>
        rw [here] at found
        cases found
      | some child =>
        rw [here] at found
        exact ih found

theorem walk_append (found : tree.walk path place = .ok node) (rest : List String) :
    tree.walk path (place ++ rest) = node.walk path rest := by
  induction place generalizing tree with
  | nil =>
    cases found
    rfl
  | cons name place ih =>
    cases tree with
    | file facts => cases found
    | directory facts slots =>
      rw [List.cons_append]
      rw [walk_cons] at found ⊢
      cases here : Slots.find? slots name with
      | none =>
        rw [here] at found
        cases found
      | some child =>
        rw [here] at found
        exact ih found

theorem walk_snoc (found : tree.walk path place = .ok (directory facts slots)) (name : String) :
    tree.walk path (place ++ [name]) = match slots.find? name with
      | some child => .ok child
      | none => .error (.notFound path) :=
  walk_append found [name]

theorem walk_set_cons (path name x : String) (place rest : List String) (facts : Facts) (slots : Slots) (node : Tree) :
    ((directory facts slots).set (name :: place) node).walk path (x :: rest) = match slots.find? x with
      | some child => (if x = name then child.set place node else child).walk path rest
      | none => .error (.notFound path) := by
  rw [set, walk_cons, Slots.find?_map slots name (·.set place node)]
  cases slots.find? x <;> rfl

/-- The place itself leads to the entry that was put there. -/
theorem walk_set_self (found : tree.walk path place = .ok node) (new : Tree) (rest : List String) :
    (tree.set place new).walk path (place ++ rest) = new.walk path rest := by
  induction place generalizing tree with
  | nil => rfl
  | cons name place ih =>
    cases tree with
    | file facts => cases found
    | directory facts slots =>
      rw [List.cons_append, walk_set_cons]
      rw [walk_cons] at found
      cases here : Slots.find? slots name with
      | none =>
        rw [here] at found
        cases found
      | some child =>
        rw [here] at found
        simp only [if_true]
        exact ih found

theorem glance_set_cons (tree : Tree) (name : String) (place : List String) (node : Tree) :
    (tree.set (name :: place) node).glance = tree.glance := by
  cases tree with
  | file facts => rfl
  | directory facts slots =>
    rw [set, glance, glance]
    congr 2
    funext k
    exact Option.map_map ..

/-- Entries that are not at or behind the place look as before. -/
theorem walk_set_of_not_prefix (apart : ¬ place <+: segments) (node : Tree) :
    ((tree.set place node).walk path segments).map glance = (tree.walk path segments).map glance := by
  induction place generalizing tree segments with
  | nil => exact absurd (List.nil_prefix) apart
  | cons name place ih =>
    cases segments with
    | nil => exact congrArg Except.ok (glance_set_cons tree name place node)
    | cons x rest =>
      cases tree with
      | file facts => rfl
      | directory facts slots =>
        rw [walk_set_cons, walk_cons]
        cases Slots.find? slots x with
        | none => rfl
        | some child =>
          by_cases same : x = name
          · simp only [if_pos same]
            exact ih fun before => apart (List.cons_prefix_cons.mpr ⟨same.symm, before⟩)
          · simp only [if_neg same]

end Tree
end RecordFs
