import RecordFs.Proofs.Store.World

/-! What is certain of a program whatever the store does. Every get and put may fail when the
store is faulty, a put that fails stores nothing, and identifiers handed out were not taken. -/
namespace RecordFs

namespace Access
variable {α β : Type}

/-- Every way in which the calls of a program can be answered ends in `Q`. -/
def Ensures (faulty : Prop) : Access α → Stock → (α → Stock → Prop) → Prop
  | done a, s, Q => Q a s
  | get id next, s, Q =>
    (faulty → ∀ f, (next (.error f)).Ensures faulty s Q) ∧ (next (.ok (s.find id))).Ensures faulty s Q
  | put id bytes next, s, Q =>
    (faulty → ∀ f, (next (.error f)).Ensures faulty s Q) ∧
      (next (.ok ())).Ensures faulty (s.put id bytes) Q
  | fresh next, s, Q => ∀ id, ¬ s.taken id → (next id).Ensures faulty (s.take id) Q

theorem ensures_mono {faulty : Prop} {x : Access α} {s : Stock} {P Q : α → Stock → Prop}
    (h : ∀ a s, P a s → Q a s) (hx : x.Ensures faulty s P) : x.Ensures faulty s Q := by
  induction x generalizing s with
  | done a => exact h a s hx
  | get id next ih => exact ⟨fun hf f => ih _ (hx.1 hf f), ih _ hx.2⟩
  | put id bytes next ih => exact ⟨fun hf f => ih _ (hx.1 hf f), ih _ hx.2⟩
  | fresh next ih => exact fun id hid => ih id (hx id hid)

theorem ensures_bind {faulty : Prop} (x : Access α) (f : α → Access β) (s : Stock) (Q : β → Stock → Prop) :
    (x.bind f).Ensures faulty s Q ↔ x.Ensures faulty s fun a s' => (f a).Ensures faulty s' Q := by
  induction x generalizing s with
  | done a => exact Iff.rfl
  | get id next ih =>
    exact and_congr (forall₂_congr fun _ g => ih (.error g) s) (ih (.ok (s.find id)) s)
  | put id bytes next ih =>
    exact and_congr (forall₂_congr fun _ g => ih (.error g) s) (ih (.ok ()) (s.put id bytes))
  | fresh next ih => exact forall₂_congr fun id _ => ih id (s.take id)

/-- The program only gets, whatever the replies are, and ends in `Q`. -/
def Looks (faulty : Prop) : Access α → Stock → (α → Prop) → Prop
  | done a, _, Q => Q a
  | get id next, s, Q => (faulty → ∀ f, (next (.error f)).Looks faulty s Q) ∧ (next (.ok (s.find id))).Looks faulty s Q
  | put .., _, _ => False
  | fresh _, _, _ => False

theorem looks_mono {faulty : Prop} {x : Access α} {s : Stock} {P Q : α → Prop} (h : ∀ a, P a → Q a)
    (hx : x.Looks faulty s P) : x.Looks faulty s Q := by
  induction x with
  | done a => exact h a hx
  | get id next ih => exact ⟨fun hf f => ih _ (hx.1 hf f), ih _ hx.2⟩
  | put id bytes next ih => exact hx
  | fresh next ih => exact hx

theorem looks_bind {faulty : Prop} (x : Access α) (f : α → Access β) (s : Stock) (Q : β → Prop) :
    (x.bind f).Looks faulty s Q ↔ x.Looks faulty s fun a => (f a).Looks faulty s Q := by
  induction x with
  | done a => exact Iff.rfl
  | get id next ih => exact and_congr (forall₂_congr fun _ g => ih (.error g)) (ih (.ok (s.find id)))
  | put id bytes next ih => exact Iff.rfl
  | fresh next ih => exact Iff.rfl

/-- What only gets changes nothing. -/
theorem ensures_of_looks {faulty : Prop} {x : Access α} {s : Stock} {Q : α → Prop} (h : x.Looks faulty s Q) :
    x.Ensures faulty s fun a s' => s' = s ∧ Q a := by
  induction x with
  | done a => exact ⟨rfl, h⟩
  | get id next ih => exact ⟨fun hf f => ih _ (h.1 hf f), ih _ h.2⟩
  | put id bytes next ih => exact h.elim
  | fresh next ih => exact h.elim

end Access

variable {α β ρ : Type} [Stored ρ] {faulty : Prop} {w : World}

/-- Every run of an action, from the root in memory on, ends in `Q`. -/
def Ensures (faulty : Prop) (x : Action α) (w : World) (Q : Except Failure α → World → Prop) : Prop :=
  Access.Ensures faulty (x.run.run w.cache) w.toStock fun r s => Q r.1 { s with cache := r.2 }

/-- A call of the store that failed. -/
abbrev Failure.ofFault (f : Fault) : Failure := .store (.fault f)

theorem Ensures.mono {x : Action α} {P Q : Except Failure α → World → Prop} (hx : Ensures faulty x w P)
    (h : ∀ r w, P r w → Q r w) : Ensures faulty x w Q :=
  Access.ensures_mono (fun _ _ hP => h _ _ hP) hx

theorem ensures_bind (x : Action α) (f : α → Action β) (Q : Except Failure β → World → Prop) :
    Ensures faulty (x >>= f) w Q ↔
      Ensures faulty x w fun r w' =>
        match r with
        | .ok a => Ensures faulty (f a) w' Q
        | .error e => Q (.error e) w' := by
  refine (Access.ensures_bind (x.run.run w.cache) _ w.toStock _).trans ?_
  refine iff_of_eq (congrArg (Access.Ensures faulty (x.run.run w.cache) w.toStock) ?_)
  funext ⟨r, c⟩ s
  cases r <;> rfl

theorem ensures_map (f : α → β) (x : Action α) (Q : Except Failure β → World → Prop) :
    Ensures faulty (f <$> x) w Q ↔ Ensures faulty x w fun r w' => Q (r.map f) w' := by
  rw [← bind_pure_comp, ensures_bind]
  refine iff_of_eq (congrArg (Ensures faulty x w) ?_)
  funext r w'
  cases r <;> rfl

/-- The action only gets, keeps the root in memory and has the outcome `v` unless a call fails. -/
def Yields (faulty : Prop) (x : Action α) (w : World) (v : Except Failure α) : Prop :=
  (x.run.run w.cache).Looks faulty w.toStock fun r => r.2 = w.cache ∧ (r.1 = v ∨ faulty ∧ ∃ f, r.1 = .error (.ofFault f))

namespace Yields

theorem ensures {x : Action α} {v : Except Failure α} {Q : Except Failure α → World → Prop}
    (h : Yields faulty x w v) (fails : faulty → ∀ f, Q (.error (.ofFault f)) w) (answers : Q v w) :
    Ensures faulty x w Q := by
  refine Access.ensures_mono ?_ (Access.ensures_of_looks h)
  rintro ⟨r, c⟩ s ⟨rfl, rfl, rfl | ⟨hf, f, rfl⟩⟩
  · exact answers
  · exact fails hf f

theorem pure (a : α) : Yields faulty (pure a) w (.ok a) := ⟨rfl, .inl rfl⟩

theorem throw (e : Failure) : Yields faulty (throw e : Action α) w (.error e) := ⟨rfl, .inl rfl⟩

theorem ofExcept (v : Except Failure α) : Yields faulty (MonadExcept.ofExcept v) w v := by
  cases v <;> exact ⟨rfl, .inl rfl⟩

theorem bind {x : Action α} {v : Except Failure α} {f : α → Action β} {g : α → Except Failure β}
    (hx : Yields faulty x w v) (hf : ∀ a, v = .ok a → Yields faulty (f a) w (g a)) :
    Yields faulty (x >>= f) w (v >>= g) := by
  refine (Access.looks_bind (x.run.run w.cache) _ w.toStock _).mpr (Access.looks_mono ?_ hx)
  rintro ⟨r, c⟩ ⟨rfl, rfl | ⟨faults, f, rfl⟩⟩
  · cases r with
    | ok a => exact hf a rfl
    | error e => exact ⟨rfl, .inl rfl⟩
  · exact ⟨rfl, .inr ⟨faults, f, rfl⟩⟩

theorem bind_ok {x : Action α} {a : α} {f : α → Action β} {v : Except Failure β}
    (hx : Yields faulty x w (.ok a)) (hf : Yields faulty (f a) w v) : Yields faulty (x >>= f) w v :=
  bind (g := fun _ => v) hx fun b hb => by
    cases hb
    exact hf

theorem bind_error {x : Action α} {e : Failure} (f : α → Action β) (hx : Yields faulty x w (.error e)) :
    Yields faulty (x >>= f) w (.error e) := bind (g := fun _ => .error e) hx nofun

/-- A program that starts with a known outcome and goes on from it. -/
theorem andThen {x : Action α} {v : Except Failure α} {f : α → Action β} {Q : Except Failure β → World → Prop}
    (hx : Yields faulty x w v) (fails : faulty → ∀ f, Q (.error (.ofFault f)) w)
    (refused : ∀ e, v = .error e → Q (.error e) w) (next : ∀ a, v = .ok a → Ensures faulty (f a) w Q) :
    Ensures faulty (x >>= f) w Q := by
  refine (RecordFs.ensures_bind x f Q).mpr (hx.ensures fails ?_)
  cases v with
  | ok a => exact next a rfl
  | error e => exact refused e rfl

end Yields

namespace Store

theorem ensures_get_cache (Q : Except Failure Cache → World → Prop) :
    Ensures faulty (MonadState.get : Action Cache) w Q ↔ Q (.ok w.cache) w := Iff.rfl

theorem ensures_get {id : Id} {Q : Except Failure (Option ByteArray) → World → Prop}
    (fails : faulty → ∀ f, Q (.error (.ofFault f)) w) (answers : Q (.ok (w.find id)) w) :
    Ensures faulty (get id) w Q :=
  ⟨fails, answers⟩

theorem ensures_freshId {Q : Except Failure Id → World → Prop}
    (answers : ∀ id, ¬ w.taken id → Q (.ok id) (w.take id)) : Ensures faulty freshId w Q :=
  answers

/-- Bytes under the root's key must be an inode. -/
theorem ensures_put {id : Id} {bytes : ByteArray} {Q : Except Failure Unit → World → Prop}
    (root : ∀ r, w.cache = some r → r.key = id → ∃ i, Stored.read Inode bytes = .ok i)
    (fails : faulty → ∀ f, Q (.error (.ofFault f)) w) (answers : Q (.ok ()) (w.put id bytes)) :
    Ensures faulty (put id bytes) w Q := by
  obtain ⟨s, cache⟩ := w
  rw [put, ensures_bind]
  refine ⟨fails, ?_⟩
  change Ensures faulty _ ⟨s.put id bytes, cache⟩ Q
  rw [ensures_bind, ensures_get_cache]
  cases cache with
  | none => exact answers
  | some r =>
    by_cases same : r.key = id
    · obtain ⟨i, read⟩ := root r rfl same
      simp only [World.put, Cache.refresh, Option.map_some, if_pos same, read] at answers
      simp only [if_pos same, read]
      exact answers
    · simp only [World.put, Cache.refresh, Option.map_some, if_neg same] at answers
      simp only [if_neg same]
      exact answers

theorem ensures_save {id : Id} {r : ρ} {Q : Except Failure Unit → World → Prop}
    (root : ∀ c, w.cache = some c → c.key = id → ∃ i, Stored.read Inode (Stored.encode r) = .ok i)
    (fails : faulty → ∀ f, Q (.error (.ofFault f)) w) (answers : Q (.ok ()) (w.save id r)) :
    Ensures faulty (save id r) w Q :=
  ensures_put root fails answers

theorem ensures_save_of_apart {id : Id} {r : ρ} {Q : Except Failure Unit → World → Prop} (apart : w.Apart id)
    (fails : faulty → ∀ f, Q (.error (.ofFault f)) w) (answers : Q (.ok ()) (w.save id r)) :
    Ensures faulty (save id r) w Q :=
  ensures_save (fun c hc same => absurd same (apart c hc)) fails answers

theorem yields_get (id : Id) : Yields faulty (get id) w (.ok (w.find id)) :=
  ⟨fun hf f => ⟨rfl, .inr ⟨hf, f, rfl⟩⟩, rfl, .inl rfl⟩

theorem yields_fetch {id : Id} {kind : Kind} {bytes : ByteArray} (found : w.find id = some bytes)
    (size : bytes.size = kind.size) : Yields faulty (fetch id kind) w (.ok bytes) := by
  refine .bind_ok (yields_get id) ?_
  simp only [found, Kind.check, if_pos size, expect, pure_bind]
  exact .pure bytes

theorem yields_load {id : Id} {r : ρ} (stored : w.get ρ id = some r) : Yields faulty (load ρ id) w (.ok r) := by
  obtain ⟨bytes, found, read⟩ := World.find_of_get stored
  have size := Stored.size_of_read read
  rw [Stored.read_of_size size] at read
  refine .bind_ok (yields_fetch found size) ?_
  rw [read]
  exact .pure r

theorem ensures_load {id : Id} {r : ρ} {Q : Except Failure ρ → World → Prop} (stored : w.get ρ id = some r)
    (fails : faulty → ∀ f, Q (.error (.ofFault f)) w) (answers : Q (.ok r) w) :
    Ensures faulty (load ρ id) w Q :=
  (yields_load stored).ensures fails answers

end Store
end RecordFs
