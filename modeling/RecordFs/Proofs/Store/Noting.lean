import RecordFs.Proofs.Store.Careful
import RecordFs.Proofs.Store.QuietRuns

/-! Programs that note their exchanges with the store. What is ensured of such a program is ensured of the
exchanges as well, so that statements about what a run asks for are proved like those about its outcome. -/
namespace RecordFs

namespace Access
variable {α β σ : Type} {faulty : Prop} {log : List Exchange} {s : Stock}

/-- The program with a note of its exchanges, after those that were noted before. -/
def noting : Access α → List Exchange → Access (α × List Exchange)
  | done a, log => done (a, log)
  | get id next, log => get id fun r => (next r).noting (log ++ [.get id r])
  | put id bytes next, log => put id bytes fun r => (next r).noting (log ++ [.put id bytes r])
  | fresh next, log => fresh fun id => (next id).noting log

/-- A program that takes notes does what it does without. -/
theorem run_noting (backend : Backend σ) (x : Access α) (log : List Exchange) (s : σ) : (x.noting log).run backend s =
    (((x.run backend s).1, log ++ x.exchanges backend s), (x.run backend s).2) := by
  induction x generalizing log s with
  | done a => exact congrArg (fun l => ((a, l), s)) (List.append_nil log).symm
  | get id next ih =>
    refine (ih _ _ _).trans ?_
    rw [List.append_assoc]
    rfl
  | put id bytes next ih =>
    refine (ih _ _ _).trans ?_
    rw [List.append_assoc]
    rfl
  | fresh next ih => exact ih _ _ _

theorem noting_bind (x : Access α) (f : α → Access β) (log : List Exchange) :
    (x.bind f).noting log = (x.noting log).bind fun r => (f r.1).noting r.2 := by
  induction x generalizing log with
  | done a => rfl
  | get id next ih => exact congrArg (get id) (funext fun r => ih r _)
  | put id bytes next ih => exact congrArg (put id bytes) (funext fun r => ih r _)
  | fresh next ih => exact congrArg fresh (funext fun id => ih id _)

/-- What is ensured without notes is ensured with them. -/
theorem ensures_noting {x : Access α} {Q : α → Stock → Prop} (h : x.Ensures faulty s Q) (log : List Exchange) :
    (x.noting log).Ensures faulty s fun r s' => Q r.1 s' := by
  induction x generalizing log s with
  | done a => exact h
  | get id next ih => exact ⟨fun hf f => ih _ (h.1 hf f) _, ih _ h.2 _⟩
  | put id bytes next ih => exact ⟨fun hf f => ih _ (h.1 hf f) _, ih _ h.2 _⟩
  | fresh next ih => exact fun id new => ih id (h id new) log

end Access

/-- What is ensured of a program that takes notes holds of the exchanges of a run in which nothing failed. -/
theorem Disk.noted_of_quiet {α : Type} {x : Access α} {disk : Disk} {taken : Id → Prop}
    {Q : α → List Exchange → Stock → Prop} (h : (x.noting []).Ensures False ⟨disk.find?, taken⟩ fun r s => Q r.1 r.2 s)
    (quiet : disk.Quiet (x.run backend disk).2) (fresh : (x.run backend disk).2.Fresh taken disk.issued) :
    Q (x.run backend disk).1 (x.exchanges backend disk) ((x.run backend disk).2.since taken disk.issued) := by
  have run := x.run_noting backend [] disk
  have ends := run_ensures_of_quiet h (by rwa [run]) (by rwa [run])
  rwa [run] at ends

variable {α β ρ : Type} [Stored ρ] {log : List Exchange} {w : World}

/-- Where no call fails, every run of the action ends in `Q`, with its exchanges noted. -/
def Notes (x : Action α) (log : List Exchange) (w : World) (Q : Except Failure α → List Exchange → World → Prop) : Prop :=
  ((x.run.run w.cache).noting log).Ensures False w.toStock fun r s => Q r.1.1 r.2 { s with cache := r.1.2 }

namespace Notes

theorem mono {x : Action α} {P Q : Except Failure α → List Exchange → World → Prop} (hx : Notes x log w P)
    (h : ∀ r l w, P r l w → Q r l w) : Notes x log w Q :=
  Access.ensures_mono (fun _ _ hP => h _ _ _ hP) hx

theorem bind (x : Action α) (f : α → Action β) (Q : Except Failure β → List Exchange → World → Prop) :
    Notes (x >>= f) log w Q ↔
      Notes x log w fun r log' w' =>
        match r with
        | .ok a => Notes (f a) log' w' Q
        | .error e => Q (.error e) log' w' := by
  change Access.Ensures False (((x.run.run w.cache).bind _).noting log) _ _ ↔ _
  rw [Access.noting_bind, Access.ensures_bind]
  refine iff_of_eq (congrArg (Access.Ensures False ((x.run.run w.cache).noting log) w.toStock) ?_)
  funext ⟨⟨r, c⟩, l⟩ s
  cases r <;> rfl

theorem and {x : Action α} {P Q : Except Failure α → List Exchange → World → Prop} (h : Notes x log w P)
    (k : Notes x log w Q) : Notes x log w fun r l w' => P r l w' ∧ Q r l w' := Access.ensures_and h k

theorem of_ensures {x : Action α} {Q : Except Failure α → World → Prop} (h : Ensures False x w Q) (log : List Exchange) :
    Notes x log w fun r _ w' => Q r w' := Access.ensures_noting h log

end Notes

namespace Store

theorem notes_freshId {Q : Except Failure Id → List Exchange → World → Prop}
    (answers : ∀ id, ¬ w.taken id → Q (.ok id) log (w.take id)) : Notes freshId log w Q := answers

theorem notes_expect {v : Except Malformed α} {Q : List Exchange → Prop} (h : Q log) :
    Notes (expect v) log w fun _ log' _ => Q log' := by
  cases v <;> exact h

theorem notes_get {id : Id} {Q : Except Failure (Option ByteArray) → List Exchange → World → Prop}
    (answers : Q (.ok (w.find id)) (log ++ [.get id (.ok (w.find id))]) w) : Notes (get id) log w Q := ⟨False.elim, answers⟩

/-- A load is one get, whatever comes of it. -/
theorem notes_load (id : Id) : Notes (load ρ id) log w fun _ log' _ => log' = log ++ [.get id (.ok (w.find id))] := by
  have fetched : Notes (fetch id (Stored.kind ρ)) log w fun _ log' _ => log' = log ++ [.get id (.ok (w.find id))] := by
    rw [fetch, Notes.bind]
    apply notes_get
    dsimp only
    cases w.find id with
    | none => rfl
    | some bytes =>
      rw [Notes.bind]
      refine (notes_expect (Q := fun l => l = log ++ [.get id (.ok (some bytes))]) rfl).mono ?_
      rintro (e | ⟨⟩) log' w' rfl <;> rfl
  rw [load, Notes.bind]
  refine fetched.mono ?_
  rintro (e | bytes) log' w' rfl
  · rfl
  · exact notes_expect rfl

/-- Saving is one put, also under the root's key. -/
theorem notes_save (id : Id) (r : ρ) : Notes (save id r) log w fun _ log' _ => log' = log ++ [.put id (Stored.encode r) (.ok ())] := by
  obtain ⟨s, cache⟩ := w
  generalize same : (fun (_ : Except Failure Unit) (log' : List Exchange) (_ : World) =>
    log' = log ++ [.put id (Stored.encode r) (.ok ())]) = Q
  rw [save, put, Notes.bind]
  refine ⟨False.elim, ?_⟩
  change Notes _ (log ++ [.put id (Stored.encode r) (.ok ())]) ⟨s.put id (Stored.encode r), cache⟩ Q
  have noted (r' w') : Q r' (log ++ [.put id (Stored.encode r) (.ok ())]) w' := same ▸ rfl
  rw [Notes.bind]
  cases cache with
  | none => exact noted _ _
  | some root =>
    change Notes (if root.key = id then _ else _) _ _ Q
    split
    · rw [Notes.bind]
      cases Stored.read Inode (Stored.encode r) <;> exact noted _ _
    · exact noted _ _

end Store
end RecordFs
