import RecordFs.Proofs.Tree.Lookups

/-! The plan of a call agrees with the step of a tree when both refuse alike, or answer alike and
match afterwards. This holds of the calls that only look and of those that change metadata. -/
namespace RecordFs
open Function Volume

namespace Volume

def Attributes.plain (a : Attributes) : Attributes := { a with id := .zero }

/-- An answer without identifiers; of bytes that were read only their number is left. -/
def Answer.plain : Answer → Answer
  | .attributes a => .attributes a.plain
  | .entries l => .entries (l.map fun entry => ⟨entry.name, entry.attributes.plain⟩)
  | .bytes b => .count b.size
  | answer => answer

end Volume

namespace Facts

theorem attributes_of {i : Inode} (typed : i.Typed) : (Facts.of i).attributes i.kind = (Attributes.ofInode i).plain := by
  have mode : i.kind.bits ||| i.permissions = i.mode := typed.symm
  have size : UInt64.ofNat i.size.toNat = i.size := UInt64.ofNat_toNat
  simp only [attributes, Facts.of, mode, size]
  rfl

theorem of_touched (now : Int64) (i : Inode) {size : Nat} (fits : size < UInt64.size) :
    Facts.of (Volume.touched now i size) = (Facts.of i).touched now size := by
  have same : (UInt64.ofNat size).toNat = size := UInt64.toNat_ofNat_of_lt' fits
  simp only [Facts.of, Volume.touched, Facts.touched, same]
  rfl

end Facts

namespace Tree

@[simp] theorem facts_glance (node : Tree) : node.glance.facts = node.facts := by cases node <;> rfl

theorem glance_withFacts (node : Tree) (facts : Facts) :
    (node.withFacts facts).glance = { node.glance with facts } := by cases node <;> rfl

end Tree

namespace Outline
variable {o o' : Outline} {tree next node : Tree} {i j : Inode} {now : Int64} {path : String} {answer : Answer}

theorem Sound.attributes_of_glance (h : o.Sound) (stored : o.inode i.self = some i) (same : o.glance i = node.glance) :
    (Attributes.ofInode i).plain = node.attributes := by
  rw [← Facts.attributes_of (h.inode _ _ stored).mode]
  cases node with
  | file facts =>
    obtain ⟨file, rfl⟩ := h.glance_eq_file stored same
    rw [Inode.kind_of_not_isDirectory file]
    rfl
  | directory facts slots =>
    obtain ⟨is, rfl, _⟩ := h.glance_eq_directory stored same
    rw [Inode.isDirectory_iff.mp is]
    rfl

/-- Whatever follows the plan without faults comes to the outcome. -/
def Agrees (o : Outline) (plan : Except Failure (Plan Answer)) (outcome : Except Failure (Answer × Tree)) : Prop :=
  ∀ r o', Follows False plan o r o' → match outcome with
    | .ok (answer, next) => ∃ a, r = .ok a ∧ a.plain = answer ∧ o'.Matches next
    | .error e => r = .error e ∧ o' = o

/-- What a tree allows is planned. -/
theorem Agrees.exists_plan {plan : Except Failure (Plan Answer)} {outcome : Answer × Tree} (h : o.Agrees plan (.ok outcome)) :
    ∃ allowed, plan = .ok allowed := by
  cases plan with
  | ok allowed => exact ⟨allowed, rfl⟩
  | error e =>
    obtain ⟨_, ok, _⟩ := h (.error e) o (.refused e)
    cases ok

theorem agrees_refused (o : Outline) (e : Failure) : o.Agrees (.error e) (.error e) := by
  rintro r o' (⟨impossible, _⟩ | refused)
  · exact impossible.elim
  · exact refused

theorem agrees_plan {plan : Plan Answer} (h : ∀ changes a r o', plan changes a →
    Carried False changes a o (.ok r) o' → r.plain = answer ∧ o'.Matches next) :
    o.Agrees (.ok plan) (.ok (answer, next)) := by
  rintro r o' (⟨impossible, _⟩ | ⟨changes, a, ok, carried⟩)
  · exact impossible.elim
  · rcases carried.result with rfl | ⟨impossible, _⟩
    · exact ⟨_, rfl, h changes a _ o' ok carried⟩
    · exact impossible.elim

theorem agrees_allowed {α : Type} {allowed : Plan α} {g : α → Answer} (h : ∀ changes a r o', allowed changes a →
    Carried False changes (g a) o (.ok r) o' → r.plain = answer ∧ o'.Matches next) :
    o.Agrees (Plan.map g <$> .ok allowed) (.ok (answer, next)) := by
  refine agrees_plan ?_
  rintro changes _ r o' ⟨a, rfl, ok⟩ carried
  exact h changes a r o' ok carried

theorem agrees_just {α : Type} {changes : List Change} {a : α} {g : α → Answer} (same : (g a).plain = answer)
    (h : ∀ r o', Carried False changes (g a) o (.ok r) o' → r = g a ∧ o'.Matches next) :
    o.Agrees (Plan.map g <$> .ok (.just changes a)) (.ok (answer, next)) := by
  refine agrees_allowed fun changes a r o' ok carried => ?_
  obtain ⟨rfl, rfl⟩ := ok
  obtain ⟨rfl, left⟩ := h r o' carried
  exact ⟨same, left⟩

theorem Matches.agrees_unchanged {α : Type} {a : α} {g : α → Answer} (m : o.Matches tree) (same : (g a).plain = answer) :
    o.Agrees (Plan.map g <$> .ok (.just [] a)) (.ok (answer, tree)) := by
  refine agrees_just same fun r o' carried => ?_
  obtain ⟨rfl, rfl⟩ := carried.nil_ok
  exact ⟨rfl, m⟩

section queries
variable (m : o.Matches tree) (h : o.Sound) (path : String)
include m h

theorem Matches.agrees_attributes :
    o.Agrees (Plan.map .attributes <$> planQuery (o.attributes path)) (tree.step now (.attributes path)) := by
  rw [Outline.attributes, Tree.step]
  rcases m.resolve_cases path with ⟨e, lost, lost'⟩ | ⟨i, node, found, found', same⟩
  · rw [lost, lost']
    exact agrees_refused o e
  · rw [found, found']
    exact m.agrees_unchanged (congrArg Answer.attributes (h.attributes_of_glance (h.resolve_stored found) same))

theorem Matches.agrees_names : o.Agrees (Plan.map .names <$> planQuery (o.names path)) (tree.step now (.names path)) := by
  rw [Outline.names, Tree.step]
  rcases m.listing_cases h path with ⟨e, lost, lost'⟩ | ⟨i, d, slots, found, found', listed⟩
  · rw [lost, lost']
    exact agrees_refused o e
  · rw [found, found']
    have names : d.occupied.map (·.name) = slots.occupied.map (·.1) := by
      rw [d.map_name_occupied, slots.map_names_occupied, listed.names]
    exact m.agrees_unchanged (congrArg (fun names => Answer.names ("." :: ".." :: names)) names)

theorem Matches.agrees_read (offset length : Nat) : o.Agrees (Plan.map .bytes <$> planQuery (o.read path offset length))
    (tree.fileAt path >>= fun facts => return (.count (min length (facts.size - offset)), tree)) := by
  have same := m.map_resolveFile h path
  rw [Outline.read]
  cases found : o.resolveFile path with
  | error e =>
    rw [found] at same
    rw [← same]
    exact agrees_refused o e
  | ok i =>
    rw [found] at same
    rw [← same]
    obtain ⟨resolved, file⟩ := resolveFile_eq_ok.mp found
    obtain ⟨view, content⟩ := h.file _ _ (h.resolve_stored resolved) file
    change o.Agrees (Plan.map .bytes <$> planQuery (load (o.content i.data) i.data >>= fun view => _)) _
    rw [content]
    exact m.agrees_unchanged (congrArg Answer.count (size_bytesOf _ _))

omit h in
theorem Matches.agrees_settle : o.Agrees (.ok (.just [] .done)) (.ok (.done, tree)) := by
  refine agrees_plan ?_
  rintro changes a r o' ⟨rfl, rfl⟩ carried
  obtain ⟨rfl, rfl⟩ := carried.nil_ok
  exact ⟨rfl, m⟩

end queries

/-- What stands in one slot in both. -/
theorem Matches.slot (m : o.Matches tree) (h : o.Sound) {place : List String} {facts : Facts} {slots : Slots}
    {d : Directory} {k : Fin dirEntries} (walked : o.walk path place = .ok i)
    (found : tree.walk path place = .ok (.directory facts slots)) (is : i.isDirectory = true)
    (table : o.table i.data = some d) (names : slots.names = d.names) (used : (d.slots.get k).isFree = false) :
    ∃ c node, o.inode (d.slots.get k).child = some c ∧ slots k = some ((d.slots.get k).name, node) ∧
      slots.find? (d.slots.get k).name = some node ∧ o.inode c.self = some c ∧ o.glance c = node.glance := by
  have proper := h.table _ _ table
  have named : slots.names k = some (d.slots.get k).name := by rw [names, Directory.names_eq_some.mpr ⟨used, rfl⟩]
  obtain ⟨⟨n, node⟩, here, rfl⟩ := Option.map_eq_some_iff.mp named
  have single (j : Fin dirEntries) (other : slots.names j = some (d.slots.get k).name) : j = k := by
    rw [names, Directory.names_eq_some] at other
    exact (proper.distinct k j used other.2.symm).symm
  obtain ⟨c, inode⟩ := h.child _ _ k _ table (Directory.named?_eq_some.mpr ⟨used, rfl⟩)
  have left : o.walk path (place ++ [(d.slots.get k).name]) = .ok c := by
    rw [walk_snoc, walked]
    change o.child path i _ = _
    rw [child_of_table is table, proper.toDistinct.find?_of_slot used]
    exact load_eq_ok.mpr inode
  have right : tree.walk path (place ++ [(d.slots.get k).name]) = .ok node := by
    rw [Tree.walk_snoc found, Slots.find?_of_slot here single]
  have same := m path (place ++ [(d.slots.get k).name])
  rw [left, right] at same
  exact ⟨c, node, inode, here, Slots.find?_of_slot here single, h.walk_stored left, Except.ok.inj same⟩

/-- Lists that are made slot by slot, of what is in a table and of what is in a tree. -/
private theorem mapM_entries {f : Slot → Except Failure Entry} {g : String × Tree → Entry} {a : Fin dirEntries → Option Slot}
    {b : Slots} (empty : ∀ k, a k = none → b k = none)
    (full : ∀ k slot, a k = some slot → ∃ entry e, b k = some entry ∧ f slot = .ok e ∧ ⟨e.name, e.attributes.plain⟩ = g entry)
    (l : List (Fin dirEntries)) : ∃ entries, (l.filterMap a).mapM f = .ok entries ∧
      (entries.map fun e => ⟨e.name, e.attributes.plain⟩) = (l.filterMap b).map g := by
  induction l with
  | nil => exact ⟨[], rfl, rfl⟩
  | cons k l ih =>
    obtain ⟨entries, ok, same⟩ := ih
    cases here : a k with
    | none =>
      rw [List.filterMap_cons_none here, List.filterMap_cons_none (empty k here)]
      exact ⟨entries, ok, same⟩
    | some slot =>
      obtain ⟨entry, e, there, first, told⟩ := full k slot here
      rw [List.filterMap_cons_some here, List.filterMap_cons_some there, List.mapM_cons, first, ok]
      exact ⟨e :: entries, rfl, by rw [List.map_cons, List.map_cons, told, same]⟩

theorem Matches.agrees_entries (m : o.Matches tree) (h : o.Sound) (path : String) :
    o.Agrees (Plan.map .entries <$> planQuery (o.entries path)) (tree.step now (.entries path)) := by
  rw [Outline.entries, Tree.step]
  rcases m.listing_cases h path with ⟨e, lost, lost'⟩ | ⟨i, d, slots, found, found', listed⟩
  · rw [lost, lost']
    exact agrees_refused o e
  · obtain ⟨facts, walked⟩ := listed.walked
    have walked' := (resolve_eq_ok.mp listed.resolved).2
    have empty (k : Fin dirEntries) (free : (if (d.slots.get k).isFree then none else some (d.slots.get k)) = none) :
        slots k = none := by
      have named : slots.names k = none := by
        rw [listed.names, Directory.names]
        split at free
        · rename_i isFree
          exact if_pos isFree
        · cases free
      exact Option.map_eq_none_iff.mp named
    have full (k : Fin dirEntries) (slot : Slot) (here : (if (d.slots.get k).isFree then none else some (d.slots.get k)) = some slot) :
        ∃ entry, ∃ e : Entry, slots k = some entry ∧
          (do return ⟨slot.name, .ofInode (← load (o.inode slot.child) slot.child)⟩) = Except.ok e ∧
          ⟨e.name, e.attributes.plain⟩ = (fun entry => ⟨entry.1, entry.2.attributes⟩ : String × Tree → Entry) entry := by
      split at here
      · cases here
      · rename_i used
        cases here
        obtain ⟨c, node, inode, there, _, stored, same⟩ := m.slot h walked' walked listed.is listed.table listed.names
          (Bool.not_eq_true _ ▸ used)
        refine ⟨_, ⟨(d.slots.get k).name, .ofInode c⟩, there, ?_, ?_⟩
        · rw [inode]
          rfl
        · rw [h.attributes_of_glance stored same]
    obtain ⟨entries, ok, told⟩ := mapM_entries empty full (List.finRange dirEntries)
    rw [← d.occupied_eq] at ok
    rw [found, found']
    change o.Agrees (Plan.map .entries <$> planQuery (List.mapM _ _)) _
    rw [ok]
    exact m.agrees_unchanged (congrArg Answer.entries told)

/-- A change of metadata that is the same for inodes and for facts. -/
theorem Matches.agrees_change (m : o.Matches tree) (h : o.Sound) (now : Int64) (path : String) {f : Inode → Inode}
    {g : Facts → Facts} (alike : ∀ i : Inode, i.Typed → i.Alike (f i)) (same : ∀ i, i.Typed → Facts.of (f i) = g (.of i)) :
    o.Agrees (Plan.map (fun _ => .done) <$> o.planChange now path f) (tree.change now path g) := by
  rw [planChange, Tree.change]
  rcases m.resolve_cases path with ⟨e, lost, lost'⟩ | ⟨i, node, found, found', shown⟩
  · rw [lost, lost']
    exact agrees_refused o e
  · rw [found, found']
    refine agrees_just rfl fun r o' carried => ?_
    obtain ⟨_, rest⟩ := carried.cons_ok
    obtain ⟨rfl, rfl⟩ := rest.nil_ok
    have typed := (h.inode _ _ (h.resolve_stored found)).mode
    have kept := (alike i typed).changed now
    have walked := (resolve_eq_ok.mp found).2
    have facts : Facts.of { f i with ctime := now } = { g node.facts with ctime := now } := by
      rw [← Tree.facts_glance, ← shown]
      exact congrArg (fun facts : Facts => { facts with ctime := now }) (same i typed)
    refine ⟨rfl, ?_⟩
    rw [Tree.segments_eq]
    rw [Tree.resolve_eq] at found'
    obtain ⟨_, _, walked'⟩ := bind_eq_ok.mp found'
    refine m.withFacts walked' (j := { f i with ctime := now }) (fun other => ?_) ?_ fun other segments apart => ?_
    · rw [apply, h.walk_setInode (walk_congr_path other walked) kept.self kept.data kept.isDirectory, if_pos rfl]
    · rw [Tree.glance_withFacts, ← shown, ← facts]
      change Glance.mk _ (if _ then (o.table _).map _ else none) = Glance.mk _ (if _ then (o.table _).map _ else none)
      rw [kept.isDirectory, kept.data]
    · rw [apply, h.walk_setInode (walk_congr_path other walked) kept.self kept.data kept.isDirectory, if_neg apart]
      rfl

end Outline
end RecordFs
