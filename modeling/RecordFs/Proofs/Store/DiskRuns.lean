import RecordFs.Proofs.Store.Ensures
import RecordFs.Store.Disk

/-! Running on a disk. Whatever is ensured of a program holds of its run on every disk that hands
out new identifiers, with whatever calls that disk lets fail. -/
namespace RecordFs

namespace Records

private theorem find_putEntry (id x : Id) (bytes : ByteArray) (l : List (Id × ByteArray)) :
    ((putEntry id bytes l).find? (·.1 = x)).map (·.2) =
      if x = id then some bytes else (l.find? (·.1 = x)).map (·.2) := by
  induction l with
  | nil =>
    by_cases h : x = id
    · simp [putEntry, h]
    · simp [putEntry, h, Ne.symm h]
  | cons entry l ih =>
    by_cases he : entry.1 = id
    · by_cases h : x = id
      · simp [putEntry, he, h]
      · simp [putEntry, he, h, Ne.symm h]
    · by_cases hx : entry.1 = x
      · have h : x ≠ id := fun hc => he (hx.trans hc)
        simp [putEntry, hx, h]
      · simpa [putEntry, he, List.find?_cons, hx] using ih

theorem get_put (records : Records) (id x : Id) (bytes : ByteArray) :
    (records.put id bytes).get? x = if x = id then some bytes else records.get? x :=
  find_putEntry id x bytes records.entries

end Records

namespace Disk

/-- No identifier was handed out twice so far, and neither zero nor the fixed key of the root pointer was. -/
structure Supplied (disk : Disk) : Prop where
  distinct : ∀ m < disk.issued, ∀ n < disk.issued, disk.supply m = disk.supply n → m = n
  ne_zero : ∀ n < disk.issued, disk.supply n ≠ .zero
  ne_rootPointer : ∀ n < disk.issued, disk.supply n ≠ .rootPointer

/-- Some get or put fails, now or later. -/
def Faulty (disk : Disk) : Prop := (∃ k, disk.getFails k) ∨ ∃ k, disk.putFails k

/-- What the disk holds. -/
def stock (disk : Disk) : Stock where
  find := disk.find?
  taken id := id = .zero ∨ id = .rootPointer ∨ ∃ n < disk.issued, disk.supply n = id

/-- What the disk holds, where these identifiers were taken when it had handed out so many. -/
def since (disk : Disk) (taken : Id → Prop) (start : Nat) : Stock where
  find := disk.find?
  taken id := taken id ∨ ∃ n, start ≤ n ∧ n < disk.issued ∧ disk.supply n = id

/-- What was handed out since then had not been taken, and none of it came twice. -/
structure Fresh (disk : Disk) (taken : Id → Prop) (start : Nat) : Prop where
  new : ∀ n, start ≤ n → n < disk.issued → ¬ taken (disk.supply n)
  distinct : ∀ m, start ≤ m → m < disk.issued → ∀ n, start ≤ n → n < disk.issued → disk.supply m = disk.supply n → m = n

/-- Zero and the fixed key of the root pointer are taken from the start. -/
theorem stock_eq_since (disk : Disk) : disk.stock = disk.since (fun id => id = .zero ∨ id = .rootPointer) 0 := by
  simp only [stock, since, Nat.zero_le, true_and, or_assoc]

theorem Supplied.fresh {disk : Disk} (h : disk.Supplied) : disk.Fresh (fun id => id = .zero ∨ id = .rootPointer) 0 where
  new n _ before := not_or.mpr ⟨h.ne_zero n before, h.ne_rootPointer n before⟩
  distinct m _ hm n _ hn := h.distinct m hm n hn

/-- A run changes neither which calls fail nor which identifiers come, and takes none back. -/
structure Like (a b : Disk) : Prop where
  supply : b.supply = a.supply
  issued : a.issued ≤ b.issued
  getFails : b.getFails = a.getFails
  putFails : b.putFails = a.putFails

theorem Like.rfl {disk : Disk} : Like disk disk := ⟨Eq.refl _, Nat.le_refl _, Eq.refl _, Eq.refl _⟩

theorem Like.trans {a b c : Disk} (h : Like a b) (k : Like b c) : Like a c :=
  ⟨k.supply.trans h.supply, Nat.le_trans h.issued k.issued, k.getFails.trans h.getFails, k.putFails.trans h.putFails⟩

theorem Like.supplied {a b : Disk} (h : Like a b) (s : b.Supplied) : a.Supplied := by
  obtain ⟨distinct, zero, pointer⟩ := s
  rw [h.supply] at distinct zero pointer
  have le := h.issued
  exact ⟨fun m hm n hn => distinct m (by omega) n (by omega), fun n hn => zero n (by omega),
    fun n hn => pointer n (by omega)⟩

theorem Like.fresh {a b : Disk} (h : Like a b) {taken : Id → Prop} {start : Nat} (f : b.Fresh taken start) :
    a.Fresh taken start := by
  obtain ⟨new, distinct⟩ := f
  rw [h.supply] at new distinct
  have le := h.issued
  exact ⟨fun n hs hn => new n hs (by omega), fun m hs hm n hs' hn => distinct m hs (by omega) n hs' (by omega)⟩

theorem Like.faulty {a b : Disk} (h : Like a b) : b.Faulty ↔ a.Faulty := by
  rw [Faulty, Faulty, h.getFails, h.putFails]

theorem like_get (disk : Disk) (id : Id) : Like disk (disk.get id).2 :=
  ⟨Eq.refl _, Nat.le_refl _, Eq.refl _, Eq.refl _⟩

theorem like_put (disk : Disk) (id : Id) (bytes : ByteArray) : Like disk (disk.put id bytes).2 := by
  cases failed : disk.putFails disk.puts <;> constructor <;> simp [put, failed]

theorem like_fresh (disk : Disk) : Like disk disk.fresh.2 := ⟨Eq.refl _, Nat.le_succ _, Eq.refl _, Eq.refl _⟩

theorem like_run {α : Type} (x : Access α) (disk : Disk) : Like disk (x.run backend disk).2 := by
  induction x generalizing disk with
  | done a => exact .rfl
  | get id next ih => exact (disk.like_get id).trans (ih _ _)
  | put id bytes next ih => exact (disk.like_put id bytes).trans (ih _ _)
  | fresh next ih => exact disk.like_fresh.trans (ih _ _)

theorem get_reply (disk : Disk) (id : Id) :
    (disk.get id).1 = .ok (disk.stock.find id) ∨ disk.Faulty ∧ (disk.get id).1 = .error disk.fault := by
  cases failed : disk.getFails disk.gets with
  | false => exact .inl (by simp [get, failed, stock])
  | true => exact .inr ⟨.inl ⟨_, failed⟩, by simp [get, failed]⟩

theorem find?_put (disk : Disk) (id x : Id) (bytes : ByteArray) :
    (disk.put id bytes).2.find? x = if disk.putFails disk.puts = false ∧ x = id then some bytes else disk.find? x := by
  cases failed : disk.putFails disk.puts with
  | false =>
    by_cases h : x = id
    · simp [put, failed, find?, Records.get_put, h]
    · simp [put, failed, find?, Records.get_put, h]
  | true => simp [put, failed, find?]

theorem issued_put (disk : Disk) (id : Id) (bytes : ByteArray) : (disk.put id bytes).2.issued = disk.issued := by
  cases failed : disk.putFails disk.puts <;> simp [put, failed]

section since
variable (disk : Disk) (taken : Id → Prop) (start : Nat)

/-- Nothing was handed out yet. -/
theorem since_issued : disk.since taken disk.issued = ⟨disk.find?, taken⟩ := by
  rw [since]
  congr 1
  funext id
  refine propext (or_iff_left ?_)
  rintro ⟨n, since, before, _⟩
  omega

theorem put_reply (id : Id) (bytes : ByteArray) :
    (disk.put id bytes).1 = .ok () ∧ (disk.put id bytes).2.since taken start = (disk.since taken start).put id bytes ∨
      disk.Faulty ∧ (disk.put id bytes).1 = .error disk.fault ∧
        (disk.put id bytes).2.since taken start = disk.since taken start := by
  cases failed : disk.putFails disk.puts with
  | false =>
    refine .inl ⟨by simp [put, failed], ?_⟩
    rw [since, since, Stock.put, (disk.like_put id bytes).supply, disk.issued_put]
    congr 1
    funext x
    simp only [find?_put, failed, true_and, Function.update_apply]
  | true => exact .inr ⟨.inr ⟨_, failed⟩, by simp [put, failed], by simp [put, failed, since]; rfl⟩

variable {disk taken start}

theorem fresh_reply (le : start ≤ disk.issued) (fresh : disk.fresh.2.Fresh taken start) :
    ¬ (disk.since taken start).taken disk.fresh.1 ∧
      disk.fresh.2.since taken start = (disk.since taken start).take disk.fresh.1 := by
  have last : disk.issued < disk.fresh.2.issued := Nat.lt_succ_self _
  constructor
  · rintro (old | ⟨n, since, before, same⟩)
    · exact fresh.new _ le last old
    · exact absurd (fresh.distinct n since (Nat.lt_trans before last) _ le last same) (by omega)
  · simp only [Disk.fresh, since, Stock.take]
    congr 1
    funext x
    have last : (∃ n, start ≤ n ∧ n < disk.issued + 1 ∧ disk.supply n = x) ↔
        disk.supply disk.issued = x ∨ ∃ n, start ≤ n ∧ n < disk.issued ∧ disk.supply n = x := by
      constructor
      · rintro ⟨n, since, before, same⟩
        rcases Nat.lt_succ_iff_lt_or_eq.mp before with before | rfl
        · exact .inr ⟨n, since, before, same⟩
        · exact .inl same
      · rintro (same | ⟨n, since, before, same⟩)
        · exact ⟨_, le, Nat.lt_succ_self _, same⟩
        · exact ⟨n, since, Nat.lt_succ_of_lt before, same⟩
    simp only [last, eq_iff_iff, eq_comm (a := x)]
    exact or_left_comm

/-- A run of calls on a disk is one of the ways in which they can be answered. -/
theorem run_ensures_since {α : Type} {faulty : Prop} {x : Access α} {Q : α → Stock → Prop}
    (h : x.Ensures faulty (disk.since taken start) Q) (le : start ≤ disk.issued)
    (fresh : (x.run backend disk).2.Fresh taken start) (fails : disk.Faulty → faulty) :
    Q (x.run backend disk).1 ((x.run backend disk).2.since taken start) := by
  induction x generalizing disk with
  | done a => exact h
  | get id next ih =>
    have go (r : Reply (Option ByteArray)) (hr : (disk.get id).1 = r)
        (hn : (next r).Ensures faulty ((disk.get id).2.since taken start) Q) :=
      ih (disk.get id).1 (hr ▸ hn) (show start ≤ (disk.get id).2.issued from le) fresh
        (fun f => fails ((disk.like_get id).faulty.mp f))
    rcases disk.get_reply id with reply | ⟨hf, reply⟩
    · exact go _ reply h.2
    · exact go _ reply (h.1 (fails hf) _)
  | put id bytes next ih =>
    have like := disk.like_put id bytes
    have go (r : Reply Unit) (hr : (disk.put id bytes).1 = r)
        (hn : (next r).Ensures faulty ((disk.put id bytes).2.since taken start) Q) :=
      ih (disk.put id bytes).1 (hr ▸ hn) (Nat.le_trans le like.issued) fresh (fun f => fails (like.faulty.mp f))
    rcases disk.put_reply taken start id bytes with ⟨reply, stored⟩ | ⟨hf, reply, kept⟩
    · exact go _ reply (by rw [stored]; exact h.2)
    · exact go _ reply (by rw [kept]; exact h.1 (fails hf) _)
  | fresh next ih =>
    obtain ⟨new, stored⟩ := fresh_reply le ((like_run _ _).fresh fresh)
    have rest : (next disk.fresh.1).Ensures faulty (disk.fresh.2.since taken start) Q := stored ▸ h _ new
    exact ih disk.fresh.1 rest (Nat.le_succ_of_le le) fresh (fun f => fails (disk.like_fresh.faulty.mp f))

end since

/-- A run on a disk that never handed out an identifier twice. -/
theorem run_ensures {α : Type} {faulty : Prop} {x : Access α} {disk : Disk} {Q : α → Stock → Prop}
    (h : x.Ensures faulty disk.stock Q) (supplied : (x.run backend disk).2.Supplied) (fails : disk.Faulty → faulty) :
    Q (x.run backend disk).1 (x.run backend disk).2.stock := by
  rw [stock_eq_since] at h ⊢
  exact run_ensures_since h (Nat.zero_le _) supplied.fresh fails

/-- A run of a program that only gets. -/
theorem run_looks {α : Type} {faulty : Prop} {x : Access α} {disk : Disk} {Q : α → Prop}
    (h : x.Looks faulty disk.stock Q) (fails : disk.Faulty → faulty) : Q (x.run backend disk).1 := by
  induction x generalizing disk with
  | done a => exact h
  | get id next ih =>
    have go (r : Reply (Option ByteArray)) (hr : (disk.get id).1 = r)
        (hn : (next r).Looks faulty (disk.get id).2.stock Q) :=
      ih (disk.get id).1 (hr ▸ hn) (fun f => fails ((disk.like_get id).faulty.mp f))
    rcases disk.get_reply id with reply | ⟨hf, reply⟩
    · exact go _ reply h.2
    · exact go _ reply (h.1 (fails hf) _)
  | put id bytes next ih => exact h.elim
  | fresh next ih => exact h.elim

/-- The same disk after some more gets. -/
def Consulted (a b : Disk) : Prop := ∃ gets trace, b = { a with gets, trace }

theorem Consulted.supplied {a b : Disk} (h : Consulted a b) (supplied : a.Supplied) : b.Supplied := by
  obtain ⟨gets, trace, rfl⟩ := h
  exact ⟨supplied.distinct, supplied.ne_zero, supplied.ne_rootPointer⟩

/-- A program that only gets leaves nothing but the count and the trace of its calls. -/
theorem consulted_run {α : Type} {faulty : Prop} {x : Access α} {disk : Disk} {Q : α → Prop}
    (h : x.Looks faulty disk.stock Q) (fails : disk.Faulty → faulty) : Consulted disk (x.run backend disk).2 := by
  induction x generalizing disk with
  | done a => exact ⟨_, _, rfl⟩
  | get id next ih =>
    have go (hn : (next (disk.get id).1).Looks faulty disk.stock Q) :
        Consulted disk ((next (disk.get id).1).run backend (disk.get id).2).2 := by
      have rest : Consulted (disk.get id).2 ((next (disk.get id).1).run backend (disk.get id).2).2 :=
        ih (disk.get id).1 hn (fun f => fails ((disk.like_get id).faulty.mp f))
      obtain ⟨gets, trace, same⟩ := rest
      exact ⟨gets, trace, same⟩
    apply go
    rcases disk.get_reply id with reply | ⟨hf, reply⟩
    · exact reply ▸ h.2
    · exact reply ▸ h.1 (fails hf) _
  | put id bytes next ih => exact h.elim
  | fresh next ih => exact h.elim

end Disk
end RecordFs
