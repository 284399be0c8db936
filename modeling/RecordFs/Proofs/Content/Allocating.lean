import RecordFs.Proofs.Content.Layout

/-! Programs that allocate blocks. What they allocate is new, each block stands at one index,
and nothing that was allocated before is moved. -/
namespace RecordFs.Content

variable {α β : Type} {faulty : Prop} {a : Allocation} {w : World}

/-- Every run of a program that allocates blocks ends in `Q`. -/
def EnsuresAlloc (faulty : Prop) (x : Allocating α) (a : Allocation) (w : World)
    (Q : Except Failure α → Allocation → World → Prop) : Prop :=
  Access.Ensures faulty ((x.run.run a).run w.cache) w.toStock fun r s => Q r.1.1 r.1.2 { s with cache := r.2 }

theorem EnsuresAlloc.mono {x : Allocating α} {P Q : Except Failure α → Allocation → World → Prop}
    (hx : EnsuresAlloc faulty x a w P) (h : ∀ r a w, P r a w → Q r a w) : EnsuresAlloc faulty x a w Q :=
  Access.ensures_mono (fun _ _ hP => h _ _ _ hP) hx

theorem ensuresAlloc_bind (x : Allocating α) (f : α → Allocating β)
    (Q : Except Failure β → Allocation → World → Prop) :
    EnsuresAlloc faulty (x >>= f) a w Q ↔
      EnsuresAlloc faulty x a w fun r a' w' =>
        match r with
        | .ok b => EnsuresAlloc faulty (f b) a' w' Q
        | .error e => Q (.error e) a' w' := by
  refine (Access.ensures_bind ((x.run.run a).run w.cache) _ w.toStock _).trans ?_
  refine iff_of_eq (congrArg (Access.Ensures faulty ((x.run.run a).run w.cache) w.toStock) ?_)
  funext ⟨⟨r, a'⟩, c⟩ s
  cases r <;> rfl

@[simp] theorem ensuresAlloc_pure (b : α) (Q : Except Failure α → Allocation → World → Prop) :
    EnsuresAlloc faulty (pure b) a w Q ↔ Q (.ok b) a w := Iff.rfl

@[simp] theorem ensuresAlloc_ofExcept (v : Except Failure α) (Q : Except Failure α → Allocation → World → Prop) :
    EnsuresAlloc faulty (MonadExcept.ofExcept v) a w Q ↔ Q v a w := by
  cases v <;> exact Iff.rfl

theorem ensuresAlloc_allocation (Q : Except Failure Allocation → Allocation → World → Prop) :
    EnsuresAlloc faulty allocation a w Q ↔ Q (.ok a) a w := Iff.rfl

theorem ensuresAlloc_set (a' : Allocation) (Q : Except Failure PUnit → Allocation → World → Prop) :
    EnsuresAlloc faulty (set a') a w Q ↔ Q (.ok ⟨⟩) a' w := Iff.rfl

theorem ensuresAlloc_modify (f : Allocation → Allocation) (Q : Except Failure PUnit → Allocation → World → Prop) :
    EnsuresAlloc faulty (modify f) a w Q ↔ Q (.ok ⟨⟩) (f a) w := Iff.rfl

theorem ensuresAlloc_act (x : Action α) (Q : Except Failure α → Allocation → World → Prop) :
    EnsuresAlloc faulty (act x) a w Q ↔ Ensures faulty x w fun r w' => Q r a w' := by
  refine (Access.ensures_bind (x.run.run w.cache) _ w.toStock _).trans ?_
  exact Iff.rfl

/-- A write is a run from the map alone; what was allocated is forgotten with the outcome. -/
theorem ensures_write_of {mapId : Id} {map : BlockMap} {data : ByteArray} {offset : Nat}
    {Q : Except Failure Nat → World → Prop}
    (h : EnsuresAlloc faulty (writeBlocks mapId data offset) { map } w fun r _ w' => Q r w') :
    Ensures faulty (write mapId map data offset) w Q := by
  refine (Access.ensures_bind _ _ w.toStock _).mpr ?_
  refine (Access.ensures_bind _ _ w.toStock _).mpr ?_
  exact h

end RecordFs.Content
