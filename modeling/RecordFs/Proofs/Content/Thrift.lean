import RecordFs.Proofs.Content.Written
import RecordFs.Proofs.Store.Noting

/-! What a write asks of the store where nothing fails. An identifier is asked for where a slot of the range
is empty, and one for the indirect map where there is none and the range reaches so far. A block is got
only if it was there and is written in part. -/
namespace RecordFs.Content

variable {α β : Type} {l₀ l l' : Layout} {w₀ w w' : World} {a a' : Allocation} {log log' : List Exchange}

/-- Where no call fails, every run of a program that allocates blocks ends in `Q`, with its exchanges noted. -/
def NotesAlloc (x : Allocating α) (a : Allocation) (log : List Exchange) (w : World)
    (Q : Except Failure α → Allocation → List Exchange → World → Prop) : Prop :=
  (((x.run.run a).run w.cache).noting log).Ensures False w.toStock fun r s =>
    Q r.1.1.1 r.1.1.2 r.2 { s with cache := r.1.2 }

namespace NotesAlloc

theorem mono {x : Allocating α} {P Q : Except Failure α → Allocation → List Exchange → World → Prop}
    (hx : NotesAlloc x a log w P) (h : ∀ r a l w, P r a l w → Q r a l w) : NotesAlloc x a log w Q :=
  Access.ensures_mono (fun _ _ hP => h _ _ _ _ hP) hx

theorem and {x : Allocating α} {P Q : Except Failure α → Allocation → List Exchange → World → Prop}
    (h : NotesAlloc x a log w P) (k : NotesAlloc x a log w Q) :
    NotesAlloc x a log w fun r a' l w' => P r a' l w' ∧ Q r a' l w' := Access.ensures_and h k

theorem of_ensures {x : Allocating α} {Q : Except Failure α → Allocation → World → Prop} (h : EnsuresAlloc False x a w Q)
    (log : List Exchange) : NotesAlloc x a log w fun r a' _ w' => Q r a' w' := Access.ensures_noting h log

theorem bind (x : Allocating α) (f : α → Allocating β)
    (Q : Except Failure β → Allocation → List Exchange → World → Prop) :
    NotesAlloc (x >>= f) a log w Q ↔
      NotesAlloc x a log w fun r a' log' w' =>
        match r with
        | .ok b => NotesAlloc (f b) a' log' w' Q
        | .error e => Q (.error e) a' log' w' := by
  change Access.Ensures False ((((x.run.run a).run w.cache).bind _).noting log) _ _ ↔ _
  rw [Access.noting_bind, Access.ensures_bind]
  refine iff_of_eq (congrArg (Access.Ensures False (((x.run.run a).run w.cache).noting log) w.toStock) ?_)
  funext ⟨⟨⟨r, a'⟩, c⟩, log'⟩ s
  cases r <;> rfl

theorem act (x : Action α) (Q : Except Failure α → Allocation → List Exchange → World → Prop) :
    NotesAlloc (act x) a log w Q ↔ Notes x log w fun r log' w' => Q r a log' w' := by
  change Access.Ensures False (((x.run.run w.cache).bind _).noting log) _ _ ↔ _
  rw [Access.noting_bind, Access.ensures_bind]
  exact Iff.rfl

theorem allocation (Q : Except Failure Allocation → Allocation → List Exchange → World → Prop) :
    NotesAlloc allocation a log w Q ↔ Q (.ok a) a log w := Iff.rfl

theorem ofExcept (v : Except Failure α) (Q : Except Failure α → Allocation → List Exchange → World → Prop) :
    NotesAlloc (MonadExcept.ofExcept v) a log w Q ↔ Q v a log w := by
  cases v <;> exact Iff.rfl

end NotesAlloc

/-- What finding the indirect map comes to: it is new, or it is that of the map, fetched unless it is at hand. -/
inductive Finds (a : Allocation) (log : List Exchange) (w : World) (table : IndirectMap) :
    Allocation → List Exchange → World → Prop where
  | new (id : Id) (none : a.map.indirect = .zero) (empty : table = .empty) :
    Finds a log w table { map := { a.map with indirect := id }, indirect := some .empty, changed := true } log (w.take id)
  | held (named : a.map.indirect ≠ .zero) : Finds a log w table a log w
  | fetched (named : a.map.indirect ≠ .zero) (missing : a.indirect = none) :
    Finds a log w table { a with indirect := some table } (log ++ [.get a.map.indirect (.ok (w.find a.map.indirect))]) w

theorem notes_indirectMap (a : Allocation) (log : List Exchange) (w : World) :
    NotesAlloc indirectMap a log w fun r a' log' w' => ∀ table, r = .ok table → Finds a log w table a' log' w' := by
  rw [indirectMap, NotesAlloc.bind, NotesAlloc.allocation]
  dsimp only
  split
  · rename_i none
    rw [NotesAlloc.bind, NotesAlloc.act]
    refine Store.notes_freshId fun id _ => ?_
    rintro _ ⟨⟩
    exact .new id none rfl
  · rename_i named
    cases at_hand : a.indirect with
    | some table =>
      rintro _ ⟨⟩
      exact .held named
    | none =>
      obtain ⟨v, yields, _⟩ := Store.exists_yields_load False IndirectMap w a.map.indirect
      have idle := yields.ensures (Q := fun r w' => w' = w) False.elim rfl
      rw [NotesAlloc.bind, NotesAlloc.act]
      refine ((Store.notes_load a.map.indirect).and (.of_ensures idle log)).mono ?_
      rintro (e | table) log' _ ⟨rfl, rfl⟩
      · rintro _ ⟨⟩
      · rintro _ ⟨⟩
        exact .fetched named at_hand

/-- What finding a block comes to, with its identifier and whether it is new. -/
structure Draws (k : Fin maxBlocks) (a : Allocation) (log : List Exchange) (w : World) (v : Id × Bool)
    (a' : Allocation) (log' : List Exchange) (w' : World) : Prop where
  indirect : a'.map.indirect = a.map.indirect ∨ a.map.indirect = .zero ∧ directBlocks ≤ k.val
  taken : ∀ id, w'.taken id → w.taken id ∨ v.2 = true ∧ v.1 = id ∨ a.map.indirect = .zero ∧ a'.map.indirect = id
  changed : a'.changed = true ↔ a.changed = true ∨ v.2 = true ∧ directBlocks ≤ k.val
  log : log' = log ∨ ∃ reply, log' = log ++ [.get a.map.indirect reply] ∧
    a.map.indirect ≠ .zero ∧ a.indirect = none ∧ directBlocks ≤ k.val

section place
variable {k : Fin maxBlocks}

theorem direct_of_place {i : Fin directBlocks} (at_ : place k = .inl i) : ¬ directBlocks ≤ k.val := by
  intro beyond
  rw [place, dif_neg (Nat.not_lt.mpr beyond)] at at_
  cases at_

theorem beyond_of_place {i : Fin indirectBlocks} (at_ : place k = .inr i) : directBlocks ≤ k.val := by
  refine Nat.not_lt.mp fun direct => ?_
  rw [place, dif_pos direct] at at_
  cases at_

variable {table : IndirectMap} {id : Id} (finds : Finds a log w table a' log' w') (beyond : directBlocks ≤ k.val)
include finds beyond

/-- A new indirect map has no blocks, so a block that is there is in one that was there. -/
theorem Finds.draws_old {i : Fin indirectBlocks} (kept : table.blocks[i] ≠ .zero) : Draws k a log w (id, false) a' log' w' := by
  cases finds with
  | new x none empty =>
    subst empty
    exact absurd (Vector.get_replicate ..) kept
  | held named => exact ⟨.inl rfl, fun _ => .inl, by simp, .inl rfl⟩
  | fetched named missing => exact ⟨.inl rfl, fun _ => .inl, by simp, .inr ⟨_, rfl, named, missing, beyond⟩⟩

theorem Finds.draws_new (table' : IndirectMap) :
    Draws k a log w (id, true) { a' with indirect := some table', changed := true } log' (w'.take id) := by
  cases finds with
  | new x none empty =>
    refine ⟨.inr ⟨none, beyond⟩, ?_, by simp [beyond], .inl rfl⟩
    rintro _ (rfl | rfl | used)
    · exact .inr (.inl ⟨rfl, rfl⟩)
    · exact .inr (.inr ⟨none, rfl⟩)
    · exact .inl used
  | held named =>
    refine ⟨.inl rfl, ?_, by simp [beyond], .inl rfl⟩
    rintro _ (rfl | used)
    · exact .inr (.inl ⟨rfl, rfl⟩)
    · exact .inl used
  | fetched named missing =>
    refine ⟨.inl rfl, ?_, by simp [beyond], .inr ⟨_, rfl, named, missing, beyond⟩⟩
    rintro _ (rfl | used)
    · exact .inr (.inl ⟨rfl, rfl⟩)
    · exact .inl used

end place

theorem notes_blockFor (k : Fin maxBlocks) (a : Allocation) (log : List Exchange) (w : World) :
    NotesAlloc (blockFor k) a log w fun r a' log' w' => ∀ v, r = .ok v → Draws k a log w v a' log' w' := by
  unfold blockFor
  cases at_ : place k with
  | inl i =>
    have direct := direct_of_place at_
    dsimp only
    rw [NotesAlloc.bind, NotesAlloc.allocation]
    dsimp only
    split
    · rintro _ ⟨⟩
      exact ⟨.inl rfl, fun _ => .inl, by simp, .inl rfl⟩
    · rw [NotesAlloc.bind, NotesAlloc.act]
      refine Store.notes_freshId fun id _ => ?_
      rintro _ ⟨⟩
      refine ⟨.inl rfl, ?_, by simp [direct], .inl rfl⟩
      rintro _ (rfl | used)
      · exact .inr (.inl ⟨rfl, rfl⟩)
      · exact .inl used
  | inr i =>
    have beyond := beyond_of_place at_
    dsimp only
    rw [NotesAlloc.bind]
    refine (notes_indirectMap a log w).mono ?_
    rintro (e | table) a' log' w' finds
    · rintro _ ⟨⟩
    dsimp only
    split
    · rename_i kept
      rintro _ ⟨⟩
      exact (finds table rfl).draws_old beyond kept
    · rw [NotesAlloc.bind, NotesAlloc.act]
      refine Store.notes_freshId fun id _ => ?_
      rintro _ ⟨⟩
      exact (finds table rfl).draws_new beyond _

theorem Allocated.unchanged_of_missing (h : Allocated l₀ w₀ l a w) (missing : a.indirect = Option.none) : a.changed = false := by
  cases changed : a.changed with
  | false => rfl
  | true =>
    have at_hand := (h.at_hand changed).1
    rw [missing] at at_hand
    cases at_hand

/-- What a write has asked for when it has done these spans. -/
structure Sparing (l₀ : Layout) (w₀ : World) (spans : List Span) (l : Layout) (a : Allocation) (log : List Exchange)
    (w : World) : Prop where
  slots : ∀ k, l₀.slot k = .zero → l.slot k ≠ .zero → ∃ span ∈ spans, span.index = k
  filled : ∀ span ∈ spans, l.slot span.index ≠ .zero
  indirect : l.map.indirect = l₀.map.indirect ∨ l₀.map.indirect = .zero ∧ ∃ span ∈ spans, directBlocks ≤ span.index.val
  taken : ∀ id, w.taken id →
    w₀.taken id ∨ (∃ k, l₀.slot k = .zero ∧ l.slot k = id) ∨ l₀.map.indirect = .zero ∧ l.map.indirect = id
  changed : a.changed = true ↔ ∃ span ∈ spans, directBlocks ≤ span.index.val ∧ l₀.slot span.index = .zero
  gets : ∀ id reply, .get id reply ∈ log → id ≠ .zero ∧
    (id = l₀.map.indirect ∧ (∃ span ∈ spans, directBlocks ≤ span.index.val) ∨
      ∃ span ∈ spans, span.length ≠ blockSize ∧ l₀.slot span.index = id)
  puts : (log.filterMap Exchange.stored?).map (·.1) = spans.map fun span => l.slot span.index
  blocks : ∀ put ∈ log.filterMap Exchange.stored?, ∃ b : Block, put.2 = Stored.encode b

theorem Placed.kept {k j : Fin maxBlocks} {id : Id} {isNew : Bool} (h : Placed l w k l' id isNew)
    (nonzero : l.slot j ≠ .zero) : l'.slot j = l.slot j := by
  by_cases same : j = k
  · subst same
    cases isNew with
    | true => exact absurd (h.new rfl).1 nonzero
    | false => rw [h.slot, h.old rfl]
  · exact h.others j same

theorem Placed.isNew_iff {k : Fin maxBlocks} {id : Id} {isNew : Bool} (h : Placed l w k l' id isNew) :
    isNew = true ↔ l.slot k = .zero := by
  constructor
  · exact fun new => (h.new new).1
  · intro zero
    cases isNew with
    | true => rfl
    | false => exact absurd ((h.old rfl).symm.trans zero) h.nonzero

/-- A block that is fetched, if one is. -/
inductive Fetches (span : Span) (id : Id) (isNew : Bool) : List Exchange → Prop where
  | none : Fetches span id isNew []
  | one (reply : Reply (Option ByteArray)) (old : isNew = false) (part : span.length ≠ blockSize) :
    Fetches span id isNew [.get id reply]

theorem Sparing.start (l : Layout) (w : World) : Sparing l w [] l { map := l.map } [] w where
  slots _ zero nonzero := absurd zero nonzero
  filled := nofun
  indirect := .inl rfl
  taken _ := .inl
  changed := by simp
  gets := nofun
  puts := rfl
  blocks := nofun

section step
variable {spans : List Span} {span : Span} {id : Id} {isNew : Bool} {fetched : List Exchange}
  (h : Sparing l₀ w₀ spans l a log w) (closed : w₀.Closed) (allocated : Allocated l₀ w₀ l a w)
  (allocated' : Allocated l₀ w₀ l' a' w') (placed : Placed l w span.index l' id isNew)
  (draws : Draws span.index a log w (id, isNew) a' log' w')

theorem Fetches.puts {l : List Exchange} (fetches : Fetches span id isNew l) : l.filterMap Exchange.stored? = [] := by
  cases fetches <;> rfl

include draws in
theorem Draws.puts : log'.filterMap Exchange.stored? = log.filterMap Exchange.stored? := by
  rcases draws.log with rfl | ⟨reply, rfl, _⟩
  · rfl
  · rw [List.filterMap_append]
    exact List.append_nil _

include draws in
/-- When a block is put after it was found and fetched, it is the only one. -/
theorem Draws.puts_put (fetches : Fetches span id isNew fetched) (bytes : ByteArray) :
    (log' ++ fetched ++ [Exchange.put id bytes (.ok ())]).filterMap Exchange.stored? =
      log.filterMap Exchange.stored? ++ [(id, bytes)] := by
  rw [List.filterMap_append, List.filterMap_append, draws.puts, fetches.puts, List.append_nil]
  rfl

include h

/-- A slot is as at the start as long as no span was about its block. -/
theorem Sparing.slot_of_later (allocated : Allocated l₀ w₀ l a w) (later : ∀ earlier ∈ spans, earlier.index < span.index) :
    l.slot span.index = l₀.slot span.index := by
  rcases allocated.grown.slots span.index with same | ⟨zero, _⟩
  · exact same
  · rw [zero]
    by_contra nonzero
    obtain ⟨earlier, member, same⟩ := h.slots _ zero nonzero
    exact absurd same (Fin.ne_of_lt (later earlier member))

include allocated placed draws

theorem Sparing.gets_step (slot : l.slot span.index = l₀.slot span.index) (fetches : Fetches span id isNew fetched)
    {x : Id} {reply : Reply (Option ByteArray)} (member : .get x reply ∈ log' ++ fetched) : x ≠ .zero ∧
      (x = l₀.map.indirect ∧ (∃ some ∈ spans ++ [span], directBlocks ≤ some.index.val) ∨
        ∃ some ∈ spans ++ [span], some.length ≠ blockSize ∧ l₀.slot some.index = x) := by
  have here : span ∈ spans ++ [span] := by simp
  have before {earlier : Span} (member : earlier ∈ spans) : earlier ∈ spans ++ [span] := by simp [member]
  have earlier (member : .get x reply ∈ log) : x ≠ .zero ∧
      (x = l₀.map.indirect ∧ (∃ some ∈ spans ++ [span], directBlocks ≤ some.index.val) ∨
        ∃ some ∈ spans ++ [span], some.length ≠ blockSize ∧ l₀.slot some.index = x) := by
    obtain ⟨nonzero, ⟨same, some, member, beyond⟩ | ⟨some, member, fetched⟩⟩ := h.gets x reply member
    · exact ⟨nonzero, .inl ⟨same, some, before member, beyond⟩⟩
    · exact ⟨nonzero, .inr ⟨some, before member, fetched⟩⟩
  rcases List.mem_append.mp member with member | member
  · rcases draws.log with rfl | ⟨_, rfl, named, missing, beyond⟩
    · exact earlier member
    · rcases List.mem_append.mp member with member | member
      · exact earlier member
      · cases List.mem_singleton.mp member
        -- An indirect map that is not at hand is that of the start.
        have same := (allocated.same (allocated.unchanged_of_missing missing)).2
        exact ⟨named, .inl ⟨allocated.map ▸ same, span, here, beyond⟩⟩
  · cases fetches with
    | none => cases member
    | one reply' old part =>
      cases List.mem_singleton.mp member
      exact ⟨placed.nonzero, .inr ⟨span, here, part, slot ▸ placed.old old⟩⟩

include allocated'

include closed in
theorem Sparing.taken_step (slot : l.slot span.index = l₀.slot span.index) (x : Id) (used : w'.taken x) :
    w₀.taken x ∨ (∃ k, l₀.slot k = .zero ∧ l'.slot k = x) ∨ l₀.map.indirect = .zero ∧ l'.map.indirect = x := by
  rw [← allocated'.map]
  rcases draws.taken x used with used | ⟨new, same⟩ | ⟨none, same⟩
  · rcases h.taken x used with old | ⟨k, zero, same⟩ | ⟨zero, same⟩
    · exact .inl old
    · by_cases none : l.slot k = .zero
      · rw [← same, none]
        exact .inl closed.zero
      · exact .inr (.inl ⟨k, zero, (placed.kept none).trans same⟩)
    · rcases draws.indirect with kept | ⟨none, _⟩
      · rw [kept, allocated.map]
        exact .inr (.inr ⟨zero, same⟩)
      · rw [← same, ← allocated.map, none]
        exact .inl closed.zero
  · rw [← same]
    exact .inr (.inl ⟨span.index, slot ▸ (placed.new new).1, placed.slot⟩)
  · refine .inr (.inr ⟨?_, same⟩)
    by_contra named
    rw [allocated.map, allocated.grown.indirect_of_ne named] at none
    exact named none

omit placed in
/-- A span names an indirect map only where there was none. -/
theorem Sparing.indirect_step : l'.map.indirect = l₀.map.indirect ∨
    l₀.map.indirect = .zero ∧ ∃ some ∈ spans ++ [span], directBlocks ≤ some.index.val := by
  rw [← allocated'.map]
  rcases draws.indirect with same | ⟨zero, beyond⟩
  · rw [same, allocated.map]
    exact h.indirect.imp_right fun ⟨zero, earlier, member, beyond⟩ =>
      ⟨zero, earlier, List.mem_append_left _ member, beyond⟩
  · rw [allocated.map] at zero
    exact .inr ⟨allocated.grown.zero_of_indirect zero, span, List.mem_concat_self, beyond⟩

include closed in
theorem Sparing.step (fetches : Fetches span id isNew fetched) (later : ∀ earlier ∈ spans, earlier.index < span.index)
    (b : Block) {w'' : World} (taken : w''.taken = w'.taken) :
    Sparing l₀ w₀ (spans ++ [span]) l' a' (log' ++ fetched ++ [.put id (Stored.encode b) (.ok ())]) w'' := by
  have slot := h.slot_of_later allocated later
  have put := draws.puts_put fetches (Stored.encode b)
  have kept (some : Span) (member : some ∈ spans) : l'.slot some.index = l.slot some.index := placed.kept (h.filled some member)
  refine {
    slots := fun k zero nonzero => ?slots
    filled := List.forall_mem_append.mpr ⟨fun some member => ?earlier, List.forall_mem_singleton.mpr ?here⟩
    indirect := h.indirect_step allocated allocated' draws
    taken := fun x used => h.taken_step closed allocated allocated' placed draws slot x (taken ▸ used)
    changed := ?changed
    gets := fun x reply member => ?gets
    puts := ?puts
    blocks := ?blocks }
  case slots =>
    by_cases same : k = span.index
    · exact ⟨span, List.mem_concat_self, same.symm⟩
    · rw [placed.others k same] at nonzero
      obtain ⟨earlier, member, same⟩ := h.slots k zero nonzero
      exact ⟨earlier, List.mem_append_left _ member, same⟩
  case earlier =>
    rw [kept some member]
    exact h.filled some member
  case here =>
    rw [placed.slot]
    exact placed.nonzero
  case changed =>
    rw [draws.changed, h.changed, placed.isNew_iff, slot]
    simp only [List.mem_append, List.mem_singleton, or_and_right, exists_or, exists_eq_left]
    exact or_congr_right and_comm
  case gets =>
    refine h.gets_step allocated placed draws slot fetches ((List.mem_append.mp member).resolve_right ?_)
    simp
  case puts =>
    rw [put, List.map_append, List.map_append, h.puts, List.map_congr_left kept]
    exact congrArg (spans.map _ ++ [·]) placed.slot.symm
  case blocks =>
    rw [put]
    exact List.forall_mem_append.mpr ⟨h.blocks, List.forall_mem_singleton.mpr ⟨b, rfl⟩⟩

end step

/-- Going along the spans asks for no more than that. -/
theorem notes_writeSpans {data : ByteArray} {offset stop pos position : Nat} {before spans : List Span} (closed : w₀.Closed)
    (held : l₀.Held w₀) (cuts : Cuts stop pos spans) (stops : stop = offset + data.size)
    (h : Filling l₀ w₀ data offset stop pos l a w) (reached : position = pos - offset)
    (sparing : Sparing l₀ w₀ before l a log w) (sorted : (before ++ spans).Pairwise (·.index < ·.index)) :
    NotesAlloc (writeSpans data spans position) a log w fun r a' log' w' => r = .ok () ∧ ∃ l',
      Filling l₀ w₀ data offset stop stop l' a' w' ∧ Sparing l₀ w₀ (before ++ spans) l' a' log' w' := by
  induction spans generalizing pos position before l a log w with
  | nil =>
    cases cuts with
    | nil done =>
      obtain rfl := Nat.le_antisymm h.within done
      rw [List.append_nil]
      exact ⟨rfl, l, h, sparing⟩
  | cons span rest ih =>
    have next : position + span.length = pos + span.length - offset := by
      have := h.started
      omega
    have later (earlier : Span) (member : earlier ∈ before) : earlier.index < span.index :=
      (List.pairwise_append.mp sorted).2.2 earlier member span (List.mem_cons_self ..)
    rw [List.append_cons] at sorted ⊢
    rw [writeSpans, NotesAlloc.bind]
    have found := (notes_blockFor span.index a log w).and (.of_ensures (ensures_blockFor closed held h.toAllocated span.index) log)
    refine found.mono ?_
    rintro r a' log' w' ⟨draws, idle, ⟨⟨id, isNew⟩, l', rfl, allocated, placed⟩ | ⟨⟨⟩, _⟩⟩
    have draws := draws _ rfl
    have saves (base : Block) (kept : ¬ (span.start = 0 ∧ span.length = blockSize) → base = l.block w span.index) fits
        {fetched : List Exchange} (fetches : Fetches span id isNew fetched) : NotesAlloc (do
          act (Store.save id (base.overlay span.start (data.extract position (position + span.length)) fits))
          writeSpans data rest (position + span.length)) a' (log' ++ fetched) w' fun r a' log' w' => r = .ok () ∧ ∃ l',
            Filling l₀ w₀ data offset stop stop l' a' w' ∧ Sparing l₀ w₀ (before ++ [span] ++ rest) l' a' log' w' := by
      have apart : w'.Apart id := by
        obtain rfl := placed.slot
        exact allocated.apart_root closed held placed.nonzero
      let block := base.overlay span.start (data.extract position (position + span.length)) fits
      have ensures : Ensures False (Store.save id block) w' fun r w'' => r = .ok () ∧ w'' = w'.save id block :=
        Store.ensures_save_of_apart apart False.elim ⟨rfl, rfl⟩
      rw [NotesAlloc.bind, NotesAlloc.act]
      refine ((Store.notes_save id block).and (.of_ensures ensures _)).mono ?_
      rintro _ _ _ ⟨rfl, rfl, rfl⟩
      have step := h.step cuts stops idle allocated placed kept (by rw [reached]) fits closed held
      exact ih cuts.tail step next (sparing.step closed h.toAllocated allocated placed draws fetches later block rfl) sorted
    dsimp only
    split
    · rename_i unfetched
      have saved := saves Block.zero (Filling.zero_of_unfetched placed unfetched)
        (by have := span.fits; rw [ByteArray.size_extract]; omega) .none
      rwa [List.append_nil] at saved
    · rename_i fetched
      obtain ⟨b, stored, same⟩ := h.stored_of_fetched placed idle fetched
      rw [Bool.or_eq_true, not_or, Bool.not_eq_true, decide_eq_true_eq] at fetched
      have ensures : Ensures False (Store.load Block id) w' fun r w'' => r = .ok b ∧ w'' = w' :=
        Store.ensures_load stored False.elim ⟨rfl, rfl⟩
      rw [NotesAlloc.bind, NotesAlloc.act]
      refine ((Store.notes_load id).and (.of_ensures ensures _)).mono ?_
      rintro _ _ _ ⟨rfl, rfl, rfl⟩
      exact saves b (fun _ => same) _ (.one _ fetched.1 fetched.2)

theorem Sparing.of_taken {spans : List Span} (h : Sparing l₀ w₀ spans l a log w) (taken : w'.taken = w.taken) :
    Sparing l₀ w₀ spans l a log w' :=
  { h with taken := fun id used => h.taken id (taken ▸ used) }

/-- The range reaches a block that a map does not have itself. -/
def Reaches (start stop : Nat) : Prop := ∃ k : Fin maxBlocks, directBlocks ≤ k.val ∧ Meets start stop k

section range
variable {start stop : Nat} (fits : stop ≤ maxFileSize)

theorem exists_span_iff (k : Fin maxBlocks) : (∃ span ∈ spans start stop fits, span.index = k) ↔ Meets start stop k :=
  (cuts_spans fits).exists_index_iff k

theorem meets_of_span {span : Span} (member : span ∈ spans start stop fits) : Meets start stop span.index :=
  (exists_span_iff fits _).mp ⟨span, member, rfl⟩

variable {fits} (h : Sparing l₀ w₀ (spans start stop fits) l a log w)
include h

namespace Sparing

theorem meets {k : Fin maxBlocks} (zero : l₀.slot k = .zero) (nonzero : l.slot k ≠ .zero) : Meets start stop k :=
  (exists_span_iff fits k).mp (h.slots k zero nonzero)

theorem nonzero {k : Fin maxBlocks} (meets : Meets start stop k) : l.slot k ≠ .zero := by
  obtain ⟨span, member, rfl⟩ := (exists_span_iff fits k).mpr meets
  exact h.filled span member

/-- The indirect map differs from the stored one just when a slot of it was filled. -/
theorem changed_iff : a.changed = true ↔ ∃ k, directBlocks ≤ k.val ∧ l₀.slot k = .zero ∧ Meets start stop k := by
  rw [h.changed]
  constructor
  · rintro ⟨span, member, beyond, zero⟩
    exact ⟨span.index, beyond, zero, meets_of_span fits member⟩
  · rintro ⟨k, beyond, zero, meets⟩
    obtain ⟨span, member, rfl⟩ := (exists_span_iff fits k).mpr meets
    exact ⟨span, member, beyond, zero⟩

theorem indirect_eq (none : ¬ (l₀.map.indirect = .zero ∧ Reaches start stop)) : l.map.indirect = l₀.map.indirect := by
  refine h.indirect.resolve_right ?_
  rintro ⟨zero, span, member, beyond⟩
  exact none ⟨zero, span.index, beyond, meets_of_span fits member⟩

end Sparing
end range

section write
variable {mapId : Id} {data : ByteArray} {offset : Nat}

/-- The last puts of a write. -/
def finishing (mapId : Id) (l : Layout) (changed : Bool) : List Exchange :=
  (if changed then [.put l.map.indirect (Stored.encode l.table) (.ok ())] else []) ++
    [.put mapId (Stored.encode l.map) (.ok ())]

theorem stored_finishing (l : Layout) (changed : Bool) : (finishing mapId l changed).filterMap Exchange.stored? =
    (if changed then [(l.map.indirect, Stored.encode l.table)] else []) ++ [(mapId, Stored.encode l.map)] := by
  cases changed <;> rfl

theorem get_not_mem_finishing (l : Layout) (changed : Bool) (id : Id) (reply : Reply (Option ByteArray)) :
    .get id reply ∉ finishing mapId l changed := by
  cases changed <;> simp [finishing]

/-- How a write has gone that met no failure: after the blocks the indirect map is put, if one of its slots was
filled, and then the map. -/
def Wrote (l : Layout) (mapId : Id) (w : World) (data : ByteArray) (offset : Nat) (fits : offset + data.size ≤ maxFileSize)
    (r : Except Failure Nat) (map' : BlockMap) (log : List Exchange) (w' : World) : Prop :=
  ∃ l' a before, Written False l mapId w data offset l' r w' ∧ r = .ok data.size ∧ map' = l'.map ∧
    Sparing l w (spans offset (offset + data.size) fits) l' a before w' ∧ log = before ++ finishing mapId l' a.changed

theorem notes_writeBlocks (closed : w.Closed) (held : l.Held w) (keyed : Keyed l mapId w) (apart : w.Apart mapId)
    (fits : offset + data.size ≤ maxFileSize) :
    NotesAlloc (writeBlocks mapId data offset) { map := l.map } [] w fun r a log w' =>
      Wrote l mapId w data offset fits r a.map log w' := by
  have cuts : Cuts (offset + data.size) offset _ := cuts_spans fits
  have start : Filling l w data offset (offset + data.size) offset l { map := l.map } w :=
    .start held (Nat.le_add_right offset data.size)
  rw [writeBlocks, NotesAlloc.bind, NotesAlloc.ofExcept, checkExtent_of_le fits]
  dsimp only
  rw [NotesAlloc.bind]
  refine (notes_writeSpans closed held cuts rfl start (Nat.sub_self _).symm (.start l w) cuts.sorted).mono ?_
  rintro _ a log w' ⟨rfl, l', h, sparing⟩
  dsimp only
  rw [NotesAlloc.bind, NotesAlloc.allocation]
  have last {w'' : World} (before : List Exchange) (t : Tabled l mapId w l' w' w'') (taken : w''.taken = w'.taken)
      (same : log ++ finishing mapId l' a.changed = before ++ [.put mapId (Stored.encode l'.map) (.ok ())]) : NotesAlloc (do
        act (Store.save mapId a.map)
        return data.size) a before w'' fun r a log w' => Wrote l mapId w data offset fits r a.map log w' := by
    have ensures : Ensures False (Store.save mapId l'.map) w'' fun r w => r = .ok () ∧ w = w''.save mapId l'.map :=
      Store.ensures_save_of_apart ((World.apart_congr t.cache).mpr apart) False.elim ⟨rfl, rfl⟩
    rw [NotesAlloc.bind, NotesAlloc.act, h.map]
    refine ((Store.notes_save mapId l'.map).and (.of_ensures ensures _)).mono ?_
    rintro _ _ _ ⟨rfl, rfl, rfl⟩
    exact ⟨l', a, log, t.done h keyed apart rfl, rfl, h.map, sparing.of_taken taken, same.symm⟩
  dsimp only
  cases changed : a.changed with
  | false =>
    refine last log (h.tabled_of_unchanged closed held changed) rfl ?_
    rw [changed]
    rfl
  | true =>
    obtain ⟨at_hand, nonzero⟩ := h.at_hand changed
    have ensures : Ensures False (Store.save l'.map.indirect l'.table) w' fun r w =>
        r = .ok () ∧ w = w'.save l'.map.indirect l'.table :=
      Store.ensures_save_of_apart (h.apart_indirect closed held nonzero) False.elim ⟨rfl, rfl⟩
    simp only [if_true, at_hand, h.map]
    rw [NotesAlloc.bind, NotesAlloc.act]
    refine ((Store.notes_save l'.map.indirect l'.table).and (.of_ensures ensures _)).mono ?_
    rintro _ _ _ ⟨rfl, rfl, rfl⟩
    have same : log ++ finishing mapId l' a.changed =
        log ++ [.put l'.map.indirect (Stored.encode l'.table) (.ok ())] ++ [.put mapId (Stored.encode l'.map) (.ok ())] := by
      rw [changed, List.append_assoc]
      rfl
    have rest := last _ (h.tabled_of_changed closed held nonzero) rfl same
    rwa [h.map] at rest

theorem notes_writeMap (closed : w.Closed) (held : l.Held w) (keyed : Keyed l mapId w) (apart : w.Apart mapId)
    (fits : offset + data.size ≤ maxFileSize) :
    (((writeMap mapId l.map data offset).run w.cache).noting []).Ensures False w.toStock fun r s =>
      Wrote l mapId w data offset fits r.1.1.1 r.1.1.2 r.2 { s with cache := r.1.2 } := by
  change Access.Ensures False ((Access.bind _ _).noting []) _ _
  rw [Access.noting_bind, Access.ensures_bind]
  exact notes_writeBlocks closed held keyed apart fits

end write

end RecordFs.Content
