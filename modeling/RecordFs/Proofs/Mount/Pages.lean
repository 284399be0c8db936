import RecordFs.Proofs.Mount.Answering
import RecordFs.Proofs.Mount.Standing
import RecordFs.Proofs.Volume.Listings
import RecordFs.Proofs.Volume.Observing

/-! One page of a listing. It is cut from the whole listing as this is when the page is asked for, and its
rows are numbered from the start of this listing. A change of names moves the rows behind it. -/
namespace RecordFs.Mount

theorem Serving.page_begins (size : Row → Nat) (room : Nat) (rows : List Row) : page size room rows <+: rows := by
  induction rows generalizing room with
  | nil => exact List.prefix_refl []
  | cons row rest ih =>
    rw [page]
    split
    · exact (List.prefix_cons_inj row).mpr (ih _)
    · exact List.nil_prefix

/-- A page is empty when nothing is left, or when its first row does not fit. -/
theorem Serving.page_eq_nil {size : Row → Nat} {room : Nat} {rows : List Row} (empty : page size room rows = [])
    (fits : ∀ row, rows.head? = some row → size row ≤ room) : rows = [] := by
  cases rows with
  | nil => rfl
  | cons row rest =>
    rw [page, if_pos (fits row rfl)] at empty
    cases empty

/-- An offset into a listing comes to the client and back as it is. -/
theorem toNatClampNeg_offset {n : Nat} (few : n ≤ dirEntries + 2) : (Int64.ofNat n).toNatClampNeg = n :=
  Int64.toNatClampNeg_ofNat_of_lt (Nat.lt_of_le_of_lt few (by decide))

/-- The names of the rows that fit, where rows are padded. -/
def fitting (room : Nat) : List String → List String
  | [] => []
  | name :: rest =>
    let taken := (24 + name.utf8ByteSize + 7) / 8 * 8
    if taken ≤ room then name :: fitting (room - taken) rest else []

theorem Serving.names_page (room : Nat) (rows : List Row) :
    (page Row.padded room rows).map (·.name) = fitting room (rows.map (·.name)) := by
  induction rows generalizing room with
  | nil => rfl
  | cons row rest ih =>
    change List.map _ (if row.padded ≤ room then _ else _) = if row.padded ≤ room then _ else _
    split
    · exact congrArg (row.name :: ·) (ih _)
    · rfl

/-- Requests that make or remove an entry. -/
def Request.renames : Request → Bool
  | .makeFile _ _ _ _ _ | .makeDirectory _ _ _ _ _ | .removeFile _ _ | .removeDirectory _ _ => true
  | _ => false

namespace Mounted
open Serving
variable {m m' : Mounted} {now : Clock Reading} {node n : Nat} {buffer : Buffer} {l l' : List String} {rows whole : List Row}

/-- The names in the directory with this number, itself and its parent first, when nothing fails. -/
def listed (m : Mounted) (node : Nat) : Option (List String) :=
  (m.table.path? node).bind fun path => (m.session.observe (Volume.names path)).toOption

theorem listed_eq_some (h : m.session.world.Sound) : m.listed node = some l ↔
    ∃ path, m.table.path? node = some path ∧ m.session.world.outline.names path = .ok l := by
  rw [listed, Option.bind_eq_some_iff]
  refine exists_congr fun path => and_congr Iff.rfl ?_
  rw [Session.observe_of_yields (h.yields_names path)]
  cases m.session.world.outline.names path <;> simp [Except.toOption]

theorem listed_nodup (h : m.session.world.Sound) (listed : m.listed node = some l) : l.Nodup := by
  obtain ⟨path, _, names⟩ := (listed_eq_some h).mp listed
  exact h.outline.names_nodup names

theorem length_listed_le (h : m.session.world.Sound) (listed : m.listed node = some l) : l.length ≤ dirEntries + 2 := by
  obtain ⟨path, _, names⟩ := (listed_eq_some h).mp listed
  exact Outline.length_names_le names

theorem two_le_length (h : m.session.world.Sound) (listed : m.listed node = some l) : 2 ≤ l.length := by
  obtain ⟨path, _, names⟩ := (listed_eq_some h).mp listed
  obtain ⟨d, _, rfl⟩ := Outline.names_eq_listed.mp names
  exact Nat.le_add_left 2 _

/-- A directory is listed first and its parent second. -/
theorem count_dots (h : m.session.world.Sound) (listed : m.listed node = some l) (n : Nat) :
    (l.take n).count "." = min n 1 ∧ (l.take n).count ".." = min (n - 1) 1 := by
  have distinct := listed_nodup h listed
  obtain ⟨path, _, names⟩ := (listed_eq_some h).mp listed
  obtain ⟨d, _, rfl⟩ := Outline.names_eq_listed.mp names
  rw [Directory.listed] at distinct ⊢
  obtain ⟨self, distinct⟩ := List.nodup_cons.mp distinct
  obtain ⟨parent, _⟩ := List.nodup_cons.mp distinct
  have single {x : String} (absent : x ∉ d.occupied.map (·.name)) (n : Nat) : ((d.occupied.map (·.name)).take n).count x = 0 :=
    List.count_eq_zero.mpr fun member => absent (List.mem_of_mem_take member)
  have never := single (List.not_mem_of_not_mem_cons self)
  obtain _ | _ | n := n
  · exact ⟨rfl, rfl⟩
  · exact ⟨rfl, rfl⟩
  · rw [List.take_succ_cons, List.take_succ_cons]
    constructor
    · rw [List.count_cons_self, List.count_cons_of_ne (by decide), never]
      omega
    · rw [List.count_cons_of_ne (by decide), List.count_cons_self, single parent]
      omega

/-- Whatever a request does, a number that is still known lists the same path. -/
theorem Serves.listed_later {request : Request} {r : Except Failure Response} (h : m.Reachable) (served : m.Serves now request r m')
    (before : m.listed node = some l) (after : m'.listed node = some l') : ∃ path, m.table.path? node = some path ∧
      m.session.world.outline.names path = .ok l ∧ m'.session.world.outline.names path = .ok l' := by
  obtain ⟨path, known, names⟩ := (listed_eq_some h.session.sound).mp before
  obtain ⟨path', known', names'⟩ := (listed_eq_some (h.runs (.served (.refl m) served)).session.sound).mp after
  have same := (served.leads h.proper).table.path node (h.proper.known node path known) path' known'
  cases known.symm.trans same
  exact ⟨path, known, names, names'⟩

section names
variable {now : Int64} {path : String} {parent : Nat} {name : ByteArray} (kind : EntryKind) (h : m.session.world.Sound)
  (supplied : m'.session.disk.Supplied) (before : m.session.world.outline.names path = .ok l)
  (after : m'.session.world.outline.names path = .ok l')
include h supplied before after

theorem sublist_of_make {mode umask : UInt32} {caller : Caller} {told : NodeAttributes}
    (ran : m.run (make kind now parent name mode umask caller) = (.ok told, m')) : l.Sublist l' := by
  obtain ⟨_, _, _, performed, _⟩ := run_make_ok ran
  obtain ⟨_, follows⟩ := Session.follows_of_make kind h performed supplied
  exact follows.names_grow h.outline before after

theorem sublist_of_remove (ran : m.run (remove kind now parent name) = (.ok (), m')) : l'.Sublist l := by
  obtain ⟨_, _, performed, _⟩ := run_remove_ok ran
  obtain ⟨_, removes, follows⟩ := Session.follows_of_remove kind h performed supplied
  exact follows.names_shrink h.outline before after removes

end names

/-- A new entry pushes those behind its slot back, and one that leaves pulls them forward; no two change places. -/
theorem Serves.listed_sublist {request : Request} {response : Response} (h : m.Reachable)
    (served : m.Serves now request (.ok response) m') (renames : request.renames) (before : m.listed node = some l)
    (after : m'.listed node = some l') : l.Sublist l' ∨ l'.Sublist l := by
  obtain ⟨path, _, names, names'⟩ := served.listed_later h before after
  have sound := h.session.sound
  obtain ⟨ran, supplied⟩ := served
  cases request with
  | makeFile parent name mode umask caller | makeDirectory parent name mode umask caller =>
    left
    obtain ⟨_, made, _⟩ := run_map_ok.mp ran
    exact sublist_of_make _ sound supplied names names' made
  | removeFile parent name | removeDirectory parent name =>
    right
    obtain ⟨_, m₁, removed, last⟩ := run_bind_ok.mp ran
    cases last
    exact sublist_of_remove _ sound supplied names names' removed
  | _ => cases renames

theorem run_list_ok {offset : Int64} (ran : m.run (answer now (.list node offset buffer)) = (.ok (.rows rows), m')) :
    ∃ whole, m.run (listing node) = (.ok whole, m') ∧ rows = page buffer.size buffer.room (whole.drop offset.toNatClampNeg) := by
  obtain ⟨whole, _, listing, last⟩ := run_bind_ok.mp ran
  cases last
  exact ⟨whole, listing, rfl⟩

/-- A listing has the names of the directory, and changes nothing of the volume. -/
theorem listed_of_listing (h : m.session.world.Sound) (ran : m.run (listing node) = (.ok whole, m'))
    (supplied : m'.session.disk.Supplied) : m.listed node = some (whole.map (·.name)) ∧
      m'.session.world.outline = m.session.world.outline := by
  obtain ⟨path, entries, known, performed, _, names, _⟩ := run_listing_ok ran
  obtain ⟨_, follows⟩ := (Session.performs_of_perform 0 (.entries path) .entries rfl performed supplied).follows h
  obtain ⟨_, told, same⟩ := follows.answer_of_query
  cases same
  refine ⟨(listed_eq_some h).mpr ⟨path, known, ?_⟩, follows.eq_of_query⟩
  rw [names]
  exact Outline.names_of_entries told

/-- A page has the rows from its offset on, as many as fit. -/
structure Cut (m : Mounted) (node n : Nat) (rows : List Row) (l : List String) : Prop where
  listed : m.listed node = some l
  names : l.take (n + rows.length) = l.take n ++ rows.map (·.name)
  next : rows.map (·.next) = List.range' (n + 1) rows.length
  within : n + rows.length ≤ max n l.length

theorem cut_of_listing (h : m.session.world.Sound) (ran : m.run (listing node) = (.ok whole, m'))
    (supplied : m'.session.disk.Supplied) (size : Row → Nat) (n room : Nat) :
    m.Cut node n (page size room (whole.drop n)) (whole.map (·.name)) := by
  obtain ⟨_, _, _, _, _, _, next⟩ := run_listing_ok ran
  have part : page size room (whole.drop n) = (whole.drop n).take (page size room (whole.drop n)).length :=
    List.prefix_iff_eq_take.mp (page_begins size room _)
  have fits := (page_begins size room (whole.drop n)).length_le
  revert part fits
  generalize page size room (whole.drop n) = rows
  intro part fits
  rw [List.length_drop] at fits
  refine ⟨(listed_of_listing h ran supplied).1, ?_, ?_, ?_⟩
  · rw [List.take_add]
    conv_rhs => rw [part]
    rw [List.map_take, List.map_drop]
  · have numbered : whole.map (·.next) = List.range' 1 whole.length := by
      rw [next, List.range'_eq_map_range]
      simp only [Nat.add_comm]
    conv_lhs => rw [part]
    rw [List.map_take, List.map_drop, numbered]
    apply List.ext_getElem
    · rw [List.length_take, List.length_drop, List.length_range', List.length_range']
      omega
    · intro i _ _
      rw [List.getElem_take, List.getElem_drop, List.getElem_range', List.getElem_range']
      omega
  · rw [List.length_map]
    omega

/-- Every page is such a part, and asking for it changes no listing. -/
theorem Serves.cut (h : m.Reachable) (served : m.Serves now (.list node (.ofNat n) buffer) (.ok (.rows rows)) m')
    (few : n ≤ dirEntries + 2) : ∃ l, m.Cut node n rows l ∧ ∀ l', m'.listed node = some l' → l' = l := by
  obtain ⟨whole, ran, rfl⟩ := run_list_ok served.run
  rw [toNatClampNeg_offset few] at served ⊢
  have cut := cut_of_listing h.session.sound ran served.supplied buffer.size n buffer.room
  refine ⟨_, cut, fun l' after => ?_⟩
  obtain ⟨path, _, names, names'⟩ := served.listed_later h cut.listed after
  rw [(listed_of_listing h.session.sound ran served.supplied).2, names] at names'
  exact (Except.ok.inj names').symm

end Mounted
end RecordFs.Mount
