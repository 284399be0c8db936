import RecordFs.Proofs.Mount.Displaying
import RecordFs.Proofs.Mount.Pages

/-! Listing a directory page by page, while entries are made and removed. A client goes on at the offset of
the last row it got, and offsets count the rows of the listing as it is at each request. So an entry is
missed when one listed before this offset goes, and comes twice when another comes to be listed before it. -/
namespace RecordFs.Mount

section lists
variable {α : Type} {l l' : List α} {a : α}

/-- A list that lost none of its first values begins as before. -/
theorem take_eq_of_sublist (sub : l'.Sublist l) (distinct : l.Nodup) {n : Nat} (kept : ∀ b ∈ l.take n, b ∈ l') :
    l'.take n = l.take n := by
  induction sub generalizing n with
  | slnil => rfl
  | cons b sub ih =>
    cases n with
    | zero => rfl
    | succ n =>
      have still := sub.subset (kept b List.mem_cons_self)
      exact absurd still (List.nodup_cons.mp distinct).1
  | cons_cons b sub ih =>
    cases n with
    | zero => rfl
    | succ n =>
      obtain ⟨single, distinct⟩ := List.nodup_cons.mp distinct
      refine congrArg (b :: ·) (ih distinct fun c early => ?_)
      rcases List.mem_cons.mp (kept c (List.mem_cons_of_mem b early)) with rfl | still
      · exact absurd (List.mem_of_mem_take early) single
      · exact still

/-- What stays moves to the front where others go. -/
theorem mem_take_of_sublist (sub : l'.Sublist l) (distinct : l.Nodup) (stays : a ∈ l') {n : Nat} (early : a ∈ l.take n) :
    a ∈ l'.take n := by
  induction sub generalizing n with
  | slnil => cases stays
  | cons b sub ih =>
    cases n with
    | zero => cases early
    | succ n =>
      obtain ⟨single, distinct⟩ := List.nodup_cons.mp distinct
      rcases List.mem_cons.mp early with rfl | early
      · exact absurd (sub.subset stays) single
      · exact List.take_subset_take_left _ (Nat.le_succ n) (ih distinct stays early)
  | cons_cons b sub ih =>
    cases n with
    | zero => cases early
    | succ n =>
      obtain ⟨single, distinct⟩ := List.nodup_cons.mp distinct
      rcases List.mem_cons.mp early with rfl | early
      · exact List.mem_cons_self
      · rcases List.mem_cons.mp stays with rfl | stays
        · exact List.mem_cons_self
        · exact List.mem_cons_of_mem b (ih distinct stays early)

theorem count_take_le [DecidableEq α] (sub : l'.Sublist l) (distinct : l.Nodup) (stays : a ∈ l') (n : Nat) :
    (l.take n).count a ≤ (l'.take n).count a := by
  by_cases early : a ∈ l.take n
  · have once : (l.take n).count a ≤ 1 := List.nodup_iff_count_le_one.mp (distinct.sublist (List.take_sublist n l)) a
    exact Nat.le_trans once (List.one_le_count_iff.mpr (mem_take_of_sublist sub distinct stays early))
  · rw [List.count_eq_zero.mpr early]
    exact Nat.zero_le _

end lists

/-- Where a client goes on: at the offset of the last row it got, or at the start. -/
def offsetAfter (rows : List Row) : Nat := (rows.map (·.next)).getLast?.getD 0

theorem offsetAfter_eq {rows : List Row} (next : rows.map (·.next) = List.range' 1 rows.length) :
    offsetAfter rows = rows.length := by
  rw [offsetAfter, next, List.getLast?_range']
  split
  · rename_i none
    exact none.symm
  · rename_i some
    change 1 + rows.length - 1 = rows.length
    omega

namespace Mounted
open Serving
variable {m m₁ m₂ m' : Mounted} {node n : Nat} {rows : List Row} {x : String} {l l' : List String}

/-- The name is in the directory. -/
def Lists (m : Mounted) (node : Nat) (x : String) : Prop := ∃ l, m.listed node = some l ∧ x ∈ l

/-- None of the first names that are listed in the one state is missing in the other. -/
def Retains (m : Mounted) (node n : Nat) (m' : Mounted) : Prop :=
  ∀ l l', m.listed node = some l → m'.listed node = some l' → ∀ name ∈ l.take n, name ∈ l'

theorem retains_of_listed (before : m.listed node = some l) (after : m'.listed node = some l') (kept : ∀ name ∈ l.take n, name ∈ l') :
    m.Retains node n m' := by
  intro _ _ same same'
  cases before.symm.trans same
  cases after.symm.trans same'
  exact kept

/-- A client has got these rows, page by page. Between the pages entries were made and removed, by requests that
succeeded and that are allowed at the offset that was come to; and all the time the volume was like this. -/
inductive Enumerates (node : Nat) (allows : Nat → Mounted → Mounted → Prop) (P : Mounted → Prop) (m : Mounted) :
    List Row → Mounted → Prop
  | start (here : P m) : Enumerates node allows P m [] m
  | page {rows more : List Row} {m₁ m₂ : Mounted} {now : Clock Reading} {buffer : Buffer} (before : Enumerates node allows P m rows m₁)
      (served : m₁.Serves now (.list node (.ofNat (offsetAfter rows)) buffer) (.ok (.rows more)) m₂) (here : P m₂) :
      Enumerates node allows P m (rows ++ more) m₂
  | change {rows : List Row} {m₁ m₂ : Mounted} {now : Clock Reading} {request : Request} {response : Response}
      (before : Enumerates node allows P m rows m₁) (renames : request.renames)
      (served : m₁.Serves now request (.ok response) m₂) (allowed : allows (offsetAfter rows) m₁ m₂) (here : P m₂) :
      Enumerates node allows P m rows m₂

/-- The client gets an empty page although there was room for the row that would have come next. -/
def Finishes (m : Mounted) (node : Nat) (rows : List Row) : Prop :=
  ∃ now buffer m', m.Serves now (.list node (.ofNat (offsetAfter rows)) buffer) (.ok (.rows [])) m' ∧
    ∀ whole m'', m.run (listing node) = (.ok whole, m'') →
      ∀ row, whole[offsetAfter rows]? = some row → buffer.size row ≤ buffer.room

namespace Enumerates
variable {allows allows' : Nat → Mounted → Mounted → Prop} {P : Mounted → Prop}

theorem runs (h : Enumerates node allows P m rows m') : m.Runs m' := by
  induction h with
  | start => exact .refl m
  | page _ served _ ih => exact .served ih served
  | change _ _ served _ _ ih => exact .served ih served

theorem here (h : Enumerates node allows P m rows m') : P m' := by
  cases h with
  | start here => exact here
  | page _ _ here => exact here
  | change _ _ _ _ here => exact here

theorem mono (imp : ∀ n m₁ m₂, allows n m₁ m₂ → allows' n m₁ m₂) (h : Enumerates node allows P m rows m') :
    Enumerates node allows' P m rows m' := by
  induction h with
  | start here => exact .start here
  | page _ served here ih => exact .page ih served here
  | change _ renames served allowed here ih => exact .change ih renames served (imp _ _ _ allowed) here

/-- Rows are numbered through over all pages, and there are no more than a listing can have. -/
theorem numbered (h : Enumerates node allows P m rows m') (reachable : m.Reachable) :
    rows.map (·.next) = List.range' 1 rows.length ∧ rows.length ≤ dirEntries + 2 := by
  induction h with
  | start => exact ⟨rfl, Nat.zero_le _⟩
  | @page rows more m₁ m₂ now buffer before served _ ih =>
    obtain ⟨next, few⟩ := ih
    rw [offsetAfter_eq next] at served
    obtain ⟨l, cut, _⟩ := served.cut (reachable.runs before.runs) few
    constructor
    · rw [List.map_append, next, cut.next, List.length_append, Nat.add_comm rows.length 1, List.range'_append_1]
    · have within := cut.within
      have short := length_listed_le (reachable.runs before.runs).session.sound cut.listed
      rw [List.length_append]
      omega
  | change _ _ _ _ _ ih => exact ih

/-- The offset that the client has come to is the count of the rows that it got. -/
theorem offset (h : Enumerates node allows P m rows m') (reachable : m.Reachable) : offsetAfter rows = rows.length :=
  offsetAfter_eq (h.numbered reachable).1

theorem cut {more : List Row} {now : Clock Reading} {buffer : Buffer} (h : Enumerates node allows P m rows m₁) (reachable : m.Reachable)
    (served : m₁.Serves now (.list node (.ofNat (offsetAfter rows)) buffer) (.ok (.rows more)) m₂) :
    ∃ l, m₁.Cut node rows.length more l ∧ ∀ l', m₂.listed node = some l' → l' = l := by
  rw [h.offset reachable] at served
  exact served.cut (reachable.runs h.runs) (h.numbered reachable).2

/-- How often a name that stays listed came so far, against whether it is among as many names as came. Pages
change both alike; what the changes between pages do to the latter decides how the two compare. -/
theorem compares {r : Nat → Nat → Prop} (refl : ∀ a, r a a) (trans : ∀ a b c, r a b → r b c → r a c)
    (add : ∀ a b c, r a b → r (a + c) (b + c))
    (moves : ∀ n m₁ m₂ l l', allows n m₁ m₂ → m₁.listed node = some l → m₂.listed node = some l' → l.Nodup → l'.Nodup →
      l.Sublist l' ∨ l'.Sublist l → x ∈ l → x ∈ l' → r ((l'.take n).count x) ((l.take n).count x))
    (h : Enumerates node allows (·.Lists node x) m rows m') (reachable : m.Reachable) (listed : m'.listed node = some l) :
    r ((l.take rows.length).count x) ((rows.map (·.name)).count x) := by
  induction h generalizing l with
  | start => exact refl _
  | @page rows more m₁ m₂ now buffer before served _ ih =>
    obtain ⟨l, cut, same⟩ := before.cut reachable served
    obtain rfl := same _ listed
    rw [List.length_append, cut.names, List.map_append, List.count_append, List.count_append]
    exact add _ _ _ (ih cut.listed)
  | @change rows m₁ m₂ now request response before renames served allowed here ih =>
    obtain ⟨l₁, listed₁, member₁⟩ := before.here
    obtain ⟨_, same, member⟩ := here
    cases listed.symm.trans same
    have reachable₁ := reachable.runs before.runs
    have reachable₂ := reachable₁.runs (.served (.refl m₁) served)
    have sub := served.listed_sublist reachable₁ renames listed₁ listed
    rw [before.offset reachable] at allowed
    exact trans _ _ _ (moves _ _ _ _ _ allowed listed₁ listed (listed_nodup reachable₁.session.sound listed₁)
      (listed_nodup reachable₂.session.sound listed) sub member₁ member) (ih listed₁)

theorem dots (h : Enumerates node allows P m rows m') (reachable : m.Reachable) :
    (rows.map (·.name)).count "." = min rows.length 1 ∧ (rows.map (·.name)).count ".." = min (rows.length - 1) 1 := by
  induction h with
  | start => exact ⟨rfl, rfl⟩
  | @page rows more m₁ m₂ now buffer before served _ ih =>
    obtain ⟨l, cut, _⟩ := before.cut reachable served
    have sound := (reachable.runs before.runs).session.sound
    have seen := count_dots sound cut.listed rows.length
    have now := count_dots sound cut.listed (rows.length + more.length)
    rw [cut.names, List.count_append, List.count_append, seen.1, seen.2] at now
    rw [List.map_append, List.count_append, List.count_append, List.length_append, ih.1, ih.2]
    exact now
  | change _ _ _ _ _ ih => exact ih

end Enumerates

theorem Finishes.length_le (finishes : m.Finishes node rows) (h : m.Reachable) (offset : offsetAfter rows = rows.length)
    (few : rows.length ≤ dirEntries + 2) : ∃ l, m.listed node = some l ∧ l.length ≤ rows.length := by
  obtain ⟨now, buffer, m', served, fits⟩ := finishes
  rw [offset] at served fits
  obtain ⟨whole, ran, empty⟩ := run_list_ok served.run
  rw [toNatClampNeg_offset few] at empty
  have rest := page_eq_nil empty.symm fun row first => fits whole m' ran row (by rwa [← List.head?_drop])
  refine ⟨_, (listed_of_listing h.session.sound ran served.supplied).1, ?_⟩
  rw [List.length_map]
  exact List.drop_eq_nil_iff.mp rest

section displayed
variable {tree : Tree} {names told told' : List String} {allows : Nat → Mounted → Mounted → Prop}

/-- Rows with these names have come while a client listed the root, which had the name all the time. -/
def Paged (m : Mounted) (allows : Nat → Mounted → Mounted → Prop) (x : String) (told : List String) (m' : Mounted) : Prop :=
  ∃ rows, m.Enumerates rootNumber allows (·.Lists rootNumber x) rows m' ∧ rows.map (·.name) = told

theorem Paged.change {request : Request} {response : Response} (paged : m.Paged allows x told m₁) (mounted : m.Reachable)
    (renames : request.renames) (served : m₁.Serves (.still 0) request (.ok response) m₂) (allowed : allows told.length m₁ m₂)
    (here : m₂.Lists rootNumber x) : m.Paged allows x told m₂ := by
  obtain ⟨rows, enumerated, rfl⟩ := paged
  rw [List.length_map, ← enumerated.offset mounted] at allowed
  exact ⟨rows, enumerated.change renames served allowed here, rfl⟩

namespace Displays
variable (h : m'.Displays tree n) (few : n < UInt64.size - 1) (has : tree.Lists "/" names)
include h few has

theorem listed : m'.listed rootNumber = some names := by
  obtain ⟨whole, m'', listing, same, served, _⟩ := h.list few h.path?_root has (.still 0) 0 (.padded 0)
  rw [(listed_of_listing h.shows.sound listing served.supplied).1, same]

variable (member : x ∈ names)
include member

theorem lists : m'.Lists rootNumber x := ⟨names, h.listed few has, member⟩

theorem starts (allows : Nat → Mounted → Mounted → Prop) : m'.Paged allows x [] m' :=
  ⟨[], .start (h.lists few has member), rfl⟩

/-- The next page has the names that fit of those from the offset on. -/
theorem page (mounted : m.Reachable) (paged : m.Paged allows x told m') {offset : Int64} (here : .ofNat told.length = offset)
    {room : Nat} (comes : told ++ fitting room (names.drop told.length) = told') :
    (m'.after [.list rootNumber offset (.padded room)]).Displays tree n ∧
      m.Paged allows x told' (m'.after [.list rootNumber offset (.padded room)]) := by
  obtain ⟨rows, enumerated, rfl⟩ := paged
  subst comes here
  have offset := enumerated.offset mounted
  obtain ⟨whole, m'', listing, same, served, h'⟩ := h.list few h.path?_root has (.still 0) (.ofNat rows.length) (.padded room)
  rw [List.length_map, served.eq_after]
  rw [← offset] at served
  refine ⟨h', _, enumerated.page served (h'.lists few has member), ?_⟩
  rw [List.map_append, Buffer.padded, names_page, List.map_drop, same, offset,
    toNatClampNeg_offset (enumerated.numbered mounted).2]

omit member in
theorem finished (mounted : m.Reachable) (paged : m.Paged allows x told m') (all : names.length ≤ told.length) :
    ∃ rows, m.Enumerates rootNumber allows (·.Lists rootNumber x) rows m' ∧ m'.Finishes rootNumber rows ∧
      rows.map (·.name) = told := by
  obtain ⟨rows, enumerated, rfl⟩ := paged
  refine ⟨rows, enumerated, ?_, rfl⟩
  have offset := enumerated.offset mounted
  obtain ⟨whole, m'', listing, same, served, _⟩ := h.list few h.path?_root has (.still 0) (.ofNat rows.length) (.padded 0)
  have rest : whole.length ≤ rows.length := by
    rwa [List.length_map, ← same, List.length_map] at all
  rw [toNatClampNeg_offset (enumerated.numbered mounted).2, List.drop_eq_nil_of_le rest] at served
  rw [← offset] at served rest
  refine ⟨.still 0, .padded 0, m'', served, fun whole' _ again row next => ?_⟩
  cases listing.symm.trans again
  rw [List.getElem?_eq_none rest] at next
  cases next

end Displays
end displayed

/-- Two files are made in the root of a volume that was just mounted. -/
def twoFiles : Mounted := after ⟨{}, .first⟩ [newFile "a", newFile "b"]

def twoFilesTree : Tree := ((Tree.new {} 0).after 0 (.makeFile "/a" 0o644 0 0)).after 0 (.makeFile "/b" 0o644 0 0)

theorem displays_twoFiles : twoFiles.Displays twoFilesTree 6 := by
  obtain ⟨_, _, first⟩ := displays_first.newFile (by decide) (by decide +kernel : Path.child "/" "a" = "/a") (by decide +kernel)
  obtain ⟨_, _, second⟩ := first.newFile (by decide) (by decide +kernel : Path.child "/" "b" = "/b") (by decide +kernel)
  rw [twoFiles, after_cons]
  exact second

theorem lists_twoFiles : twoFilesTree.Lists "/" [".", "..", "a", "b"] := by decide +kernel

/-- The first page ends with the first file when there is room for three rows. -/
theorem paged_twoFiles (allows : Nat → Mounted → Mounted → Prop) :
    (twoFiles.after [.list rootNumber 0 (.padded 96)]).Displays twoFilesTree 6 ∧
      twoFiles.Paged allows "b" [".", "..", "a"] (twoFiles.after [.list rootNumber 0 (.padded 96)]) := by
  have member : "b" ∈ [".", "..", "a", "b"] := by decide
  have three : [] ++ fitting 96 [".", "..", "a", "b"] = [".", "..", "a"] := by decide +kernel
  have start := displays_twoFiles.starts (by decide) lists_twoFiles member allows
  exact displays_twoFiles.page (by decide) lists_twoFiles member displays_twoFiles.mounted start (by decide : Int64.ofNat 0 = 0) three

/-- What a client gets that lists a directory page by page. -/
structure PagingLaws (m : Mounted) (node : Nat) : Prop where
  /-- An entry that is there all the time comes at least once, if nothing goes that is listed before the offset come to. -/
  reported : ∀ {x rows m'}, m.Enumerates node (fun n m₁ m₂ => m₁.Retains node n m₂) (·.Lists node x) rows m' →
    m'.Finishes node rows → 1 ≤ (rows.map (·.name)).count x
  /-- It comes at most once, if nothing comes to be listed before that offset. -/
  unrepeated : ∀ {x rows m'}, m.Enumerates node (fun n m₁ m₂ => m₂.Retains node n m₁) (·.Lists node x) rows m' →
    (rows.map (·.name)).count x ≤ 1
  /-- It comes exactly once, if what is listed before that offset stays what it is. -/
  once : ∀ {x rows m'}, m.Enumerates node (fun n m₁ m₂ => m₁.Retains node n m₂ ∧ m₂.Retains node n m₁) (·.Lists node x) rows m' →
    m'.Finishes node rows → (rows.map (·.name)).count x = 1
  /-- The directory and its parent come exactly once, whatever is made and removed. -/
  dots : ∀ {rows m'}, m.Enumerates node (fun _ _ _ => True) (fun _ => True) rows m' → m'.Finishes node rows →
    (rows.map (·.name)).count "." = 1 ∧ (rows.map (·.name)).count ".." = 1
  /-- Rows are numbered through, so their count is the offset; and there are never more than a listing can have. -/
  numbered : ∀ {rows m'}, m.Enumerates node (fun _ _ _ => True) (fun _ => True) rows m' →
    rows.map (·.next) = List.range' 1 rows.length ∧ rows.length ≤ dirEntries + 2

theorem reported_of_retains (h : m.Reachable)
    (enumerated : m.Enumerates node (fun n m₁ m₂ => m₁.Retains node n m₂) (·.Lists node x) rows m')
    (finishes : m'.Finishes node rows) : 1 ≤ (rows.map (·.name)).count x := by
  obtain ⟨l, listed, member⟩ := enumerated.here
  obtain ⟨l', same, all⟩ := finishes.length_le (h.runs enumerated.runs) (enumerated.offset h) (enumerated.numbered h).2
  cases listed.symm.trans same
  have counted : (l.take rows.length).count x ≤ (rows.map (·.name)).count x := by
    refine enumerated.compares Nat.le_refl (fun _ _ _ => Nat.le_trans) (fun _ _ c le => Nat.add_le_add_right le c) ?_ h listed
    intro n m₁ m₂ l l' retains before after distinct distinct' sub stays stays'
    rcases sub with grown | shrunk
    · exact count_take_le grown distinct' stays n
    · rw [take_eq_of_sublist shrunk distinct (retains l l' before after)]
  rw [List.take_of_length_le all] at counted
  exact Nat.le_trans (List.one_le_count_iff.mpr member) counted

theorem unrepeated_of_retains (h : m.Reachable)
    (enumerated : m.Enumerates node (fun n m₁ m₂ => m₂.Retains node n m₁) (·.Lists node x) rows m') :
    (rows.map (·.name)).count x ≤ 1 := by
  obtain ⟨l, listed, _⟩ := enumerated.here
  have counted : (rows.map (·.name)).count x ≤ (l.take rows.length).count x := by
    refine enumerated.compares (r := fun a b => b ≤ a) Nat.le_refl (fun _ _ _ first next => Nat.le_trans next first)
      (fun _ _ c le => Nat.add_le_add_right le c) ?_ h listed
    intro n m₁ m₂ l l' retains before after distinct distinct' sub stays stays'
    rcases sub with grown | shrunk
    · rw [take_eq_of_sublist grown distinct' (retains l' l after before)]
    · exact count_take_le shrunk distinct stays' n
  have distinct := listed_nodup (h.runs enumerated.runs).session.sound listed
  exact Nat.le_trans counted (List.nodup_iff_count_le_one.mp (distinct.sublist (List.take_sublist _ l)) x)

theorem Reachable.pagingLaws (h : m.Reachable) (node : Nat) : m.PagingLaws node where
  reported enumerated finishes := reported_of_retains h enumerated finishes
  unrepeated enumerated := unrepeated_of_retains h enumerated
  once enumerated finishes := Nat.le_antisymm
    (unrepeated_of_retains h (enumerated.mono fun _ _ _ both => both.2))
    (reported_of_retains h (enumerated.mono fun _ _ _ both => both.1) finishes)
  dots enumerated finishes := by
    obtain ⟨l, listed, all⟩ := finishes.length_le (h.runs enumerated.runs) (enumerated.offset h) (enumerated.numbered h).2
    obtain ⟨self, parent⟩ := enumerated.dots h
    have two := two_le_length (h.runs enumerated.runs).session.sound listed
    rw [self, parent]
    omega
  numbered enumerated := enumerated.numbered h

/-- A file is made between the two pages, behind those that came already. -/
theorem pagingLaws_twoFiles : twoFiles.Reachable ∧ twoFiles.PagingLaws rootNumber ∧ ∃ rows,
    twoFiles.Enumerates rootNumber (fun n m₁ m₂ => m₁.Retains rootNumber n m₂ ∧ m₂.Retains rootNumber n m₁)
      (·.Lists rootNumber "b") rows (twoFiles.after [.list rootNumber 0 (.padded 96), newFile "c", .list rootNumber 3 (.padded 4096)]) ∧
    (twoFiles.after [.list rootNumber 0 (.padded 96), newFile "c", .list rootNumber 3 (.padded 4096)]).Finishes rootNumber rows ∧
    (rows.map (·.name)).count "b" = 1 := by
  have mounted := displays_twoFiles.mounted
  have laws : twoFiles.PagingLaws rootNumber := Reachable.pagingLaws mounted rootNumber
  have has : (twoFilesTree.after 0 (.makeFile "/c" 0o644 0 0)).Lists "/" [".", "..", "a", "b", "c"] := by decide +kernel
  have member : "b" ∈ [".", "..", "a", "b", "c"] := by decide
  have rest : [".", "..", "a"] ++ fitting 4096 ["b", "c"] = [".", "..", "a", "b", "c"] := by decide +kernel
  obtain ⟨shown, paged⟩ := paged_twoFiles fun n m₁ m₂ => m₁.Retains rootNumber n m₂ ∧ m₂.Retains rootNumber n m₁
  obtain ⟨_, made, shown'⟩ := shown.newFile (by decide) (by decide +kernel : Path.child "/" "c" = "/c") (by decide +kernel)
  have before := shown.listed (by decide) lists_twoFiles
  have after := shown'.listed (by decide) has
  have steady := And.intro (retains_of_listed (n := 3) before after (by decide)) (retains_of_listed (n := 3) after before (by decide))
  have paged := paged.change mounted rfl made steady (shown'.lists (by decide) has member)
  obtain ⟨shown', paged⟩ := shown'.page (by decide) has member mounted paged (by decide : Int64.ofNat 3 = 3) rest
  obtain ⟨rows, enumerated, finishes, _⟩ := shown'.finished (by decide) has mounted paged (by decide)
  rw [after_cons, after_cons]
  exact ⟨mounted, laws, rows, enumerated, finishes, laws.once enumerated finishes⟩

/-- A file is missed when one before it is removed between two pages, and comes twice when another gets a
slot before it. -/
theorem missed_and_repeated :
    (∃ rows, twoFiles.Enumerates rootNumber (fun _ _ _ => True) (·.Lists rootNumber "b") rows
        (twoFiles.after [.list rootNumber 0 (.padded 96), lostFile "a"]) ∧
      (twoFiles.after [.list rootNumber 0 (.padded 96), lostFile "a"]).Finishes rootNumber rows ∧
      (rows.map (·.name)).count "b" = 0) ∧
    ∃ rows, (twoFiles.after [lostFile "a"]).Enumerates rootNumber (fun _ _ _ => True) (·.Lists rootNumber "b") rows
        ((twoFiles.after [lostFile "a"]).after
          [.list rootNumber 0 (.padded 96), newFile "c", .list rootNumber 3 (.padded 4096)]) ∧
      ((twoFiles.after [lostFile "a"]).after
        [.list rootNumber 0 (.padded 96), newFile "c", .list rootNumber 3 (.padded 4096)]).Finishes rootNumber rows ∧
      (rows.map (·.name)).count "b" = 2 := by
  have left : (twoFilesTree.after 0 (.removeFile "/a")).Lists "/" [".", "..", "b"] := by decide +kernel
  have stays : "b" ∈ [".", "..", "b"] := by decide
  have path : Path.child "/" "a" = "/a" := by decide +kernel
  constructor
  · have mounted := displays_twoFiles.mounted
    obtain ⟨shown, paged⟩ := paged_twoFiles fun _ _ _ => True
    obtain ⟨removed, shown⟩ := shown.lostFile (by decide) path (by decide +kernel)
    have paged := paged.change mounted rfl removed trivial (shown.lists (by decide) left stays)
    obtain ⟨rows, enumerated, finishes, names⟩ := shown.finished (by decide) left mounted paged (by decide)
    rw [after_cons]
    exact ⟨rows, enumerated, finishes, by rw [names]; decide⟩
  · obtain ⟨_, shown⟩ := displays_twoFiles.lostFile (by decide) path (by decide +kernel)
    generalize twoFiles.after [lostFile "a"] = m at shown ⊢
    have mounted := shown.mounted
    have first : [] ++ fitting 96 [".", "..", "b"] = [".", "..", "b"] := by decide +kernel
    have second : [".", "..", "b"] ++ fitting 4096 ["b"] = [".", "..", "b", "b"] := by decide +kernel
    have has' : ((twoFilesTree.after 0 (.removeFile "/a")).after 0 (.makeFile "/c" 0o644 0 0)).Lists "/" [".", "..", "c", "b"] := by
      decide +kernel
    have start := shown.starts (by decide) left stays fun _ _ _ => True
    obtain ⟨shown', paged⟩ := shown.page (by decide) left stays mounted start (by decide : Int64.ofNat 0 = 0) first
    obtain ⟨_, made, shown'⟩ := shown'.newFile (by decide) (by decide +kernel : Path.child "/" "c" = "/c") (by decide +kernel)
    have stays' : "b" ∈ [".", "..", "c", "b"] := by decide
    have paged := paged.change mounted rfl made trivial (shown'.lists (by decide) has' stays')
    obtain ⟨shown', paged⟩ := shown'.page (by decide) has' stays' mounted paged (by decide : Int64.ofNat 3 = 3) second
    obtain ⟨rows, enumerated, finishes, names⟩ := shown'.finished (by decide) has' mounted paged (by decide)
    rw [after_cons, after_cons]
    exact ⟨rows, enumerated, finishes, by rw [names]; decide⟩

end Mounted
end RecordFs.Mount
