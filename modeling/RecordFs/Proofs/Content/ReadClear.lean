import RecordFs.Proofs.Content.Layout

/-! Reading gives the view of a file byte for byte. Clearing makes a range of it zero, in the
blocks that are there, and does so block by block when a call fails on the way. -/
namespace RecordFs.Content

variable {faulty : Prop} {w : World} {l : Layout}

variable (faulty) in
theorem yields_blockAt (held : l.Held w) {indirect : Option IndirectMap} (known : Known l indirect)
    (k : Fin maxBlocks) : ∃ indirect', Known l indirect' ∧
      Yields faulty (blockAt l.map indirect k) w (.ok (l.slot k, indirect')) := by
  unfold blockAt
  cases h : place k with
  | inl i => exact ⟨indirect, known, by rw [Layout.slot_of_direct h]; exact .pure _⟩
  | inr i =>
    rw [Layout.slot_of_beyond h]
    by_cases zero : l.map.indirect = .zero
    · refine ⟨indirect, known, ?_⟩
      rw [held.table_of_zero zero]
      simp only [if_pos zero, IndirectMap.empty, Vector.get_replicate]
      exact .pure _
    · refine ⟨some l.table, fun t ht => (Option.some.inj ht).symm, ?_⟩
      simp only [if_neg zero]
      cases indirect with
      | some t =>
        rw [known t rfl]
        exact .pure _
      | none => exact .bind_ok (Store.yields_load (held.table_of_ne zero)) (.pure _)

/-- A span of the view, joined to what was read before it. -/
private theorem append_span {stop pos : Nat} {span : Span} {rest : List Span}
    (cuts : Cuts stop pos (span :: rest)) (view : Nat → UInt8) (out piece : ByteArray)
    (size : piece.size = span.length)
    (bytes : ∀ i < span.length, byteAt piece i = view (pos + i)) :
    out ++ piece ++ bytesOf (fun i => view (pos + span.length + i)) (stop - (pos + span.length)) =
      out ++ bytesOf (fun i => view (pos + i)) (stop - pos) := by
  rw [ByteArray.append_assoc]
  congr 1
  have fits := cuts.length_le
  apply ext_byteAt
  · rw [ByteArray.size_append, size, size_bytesOf, size_bytesOf]
    omega
  · intro i hi
    rw [ByteArray.size_append, size, size_bytesOf] at hi
    rw [byteAt_append, size, byteAt_bytesOf, byteAt_bytesOf, if_pos (show i < stop - pos by omega)]
    split
    · rename_i first
      exact bytes i first
    · rw [if_pos (by omega)]
      congr 1
      omega

theorem yields_readSpans {stop pos : Nat} {spans : List Span} (cuts : Cuts stop pos spans) (held : l.Held w)
    {indirect : Option IndirectMap} (known : Known l indirect) (out : ByteArray) :
    Yields faulty (readSpans l.map spans indirect out) w
      (.ok (out ++ bytesOf (fun i => l.view w (pos + i)) (stop - pos))) := by
  induction spans generalizing pos indirect out with
  | nil =>
    cases cuts with
    | nil done =>
      have none : bytesOf (fun i => l.view w (pos + i)) (stop - pos) = ByteArray.empty := by
        rw [Nat.sub_eq_zero_of_le done]
        rfl
      rw [none, ByteArray.append_empty]
      exact .pure out
  | cons span rest ih =>
    obtain ⟨indirect', known', block⟩ := yields_blockAt faulty held known span.index
    refine .bind_ok block ?_
    by_cases zero : l.slot span.index = .zero
    · simp only [if_pos zero]
      have rest := ih cuts.tail known' (out ++ zeros span.length)
      rwa [append_span cuts (l.view w) out (zeros span.length) (size_zeros _) (fun i hi => by
        rw [Layout.view_of_zero (cuts.div_mod_add hi).1 zero, byteAt_zeros])] at rest
    · simp only [if_neg zero]
      obtain ⟨b, stored⟩ := held.blocks span.index zero
      refine .bind_ok (Store.yields_load stored) ?_
      have rest := ih cuts.tail known' (out ++ b.slice span.start span.length)
      have size : (b.slice span.start span.length).size = span.length := by
        have := span.fits
        rw [Block.slice, ByteArray.size_extract, b.size_bytes]
        omega
      rwa [append_span cuts (l.view w) out _ size (fun i hi => by
        obtain ⟨here, at_⟩ := cuts.div_mod_add hi
        rw [Layout.view_eq here, Layout.block_of_get zero stored, at_, Block.byteAt_slice, if_pos hi])] at rest

/-- Reading stops at the greatest file size only. -/
theorem yields_read (held : l.Held w) (offset length : Nat) :
    Yields faulty (read l.map offset length) w
      (.ok (bytesOf (fun i => l.view w (offset + i))
        (min (min (offset + length) countMax) maxFileSize - offset))) := by
  have nothing : Known l none := fun _ h => nomatch h
  rw [← ByteArray.empty_append (b := bytesOf _ _)]
  exact yields_readSpans (cuts_spans (Nat.min_le_right _ _)) held nothing .empty

/-- The outcome of clearing `[start, stop)`. -/
structure Cleared (faulty : Prop) (l : Layout) (start stop : Nat) (w : World) (r : Except Failure Unit)
    (w' : World) : Prop where
  held : l.Held w'
  taken : w'.taken = w.taken
  touches : l.Touches w w'
  outside : ∀ n, ¬ (start ≤ n ∧ n < stop) → l.view w' n = l.view w n
  result : (r = .ok () ∧ ∀ n, start ≤ n → n < stop → l.view w' n = 0) ∨ faulty ∧ ∃ f, r = .error (.ofFault f)

/-- A span is cleared, and then the rest. -/
private theorem Cleared.span {stop pos : Nat} {span : Span} {r : Except Failure Unit} {w₁ w' : World}
    (later : Cleared faulty l (pos + span.length) stop w₁ r w') (taken : w₁.taken = w.taken) (touches : l.Touches w w₁)
    (same : ∀ n, ¬ (pos ≤ n ∧ n < stop) → l.view w₁ n = l.view w n)
    (zero : ∀ n, pos ≤ n → n < pos + span.length → l.view w₁ n = 0) : Cleared faulty l pos stop w r w' where
  held := later.held
  taken := later.taken.trans taken
  touches := touches.trans later.touches
  outside n hn := by rw [later.outside n (by omega), same n hn]
  result := by
    refine later.result.imp_left ?_
    rintro ⟨ok, cleared⟩
    refine ⟨ok, fun n low high => ?_⟩
    by_cases beyond : pos + span.length ≤ n
    · exact cleared n beyond high
    · rw [later.outside n (by omega), zero n low (by omega)]

theorem ensures_clearSpans {stop pos : Nat} {spans : List Span} (cuts : Cuts stop pos spans) (held : l.Held w)
    {indirect : Option IndirectMap} (known : Known l indirect) :
    Ensures faulty (clearSpans l.map spans indirect) w (Cleared faulty l pos stop w) := by
  have unchanged (pos : Nat) {w : World} (held : l.Held w) (hf : faulty) (f : Fault) :
      Cleared faulty l pos stop w (.error (.ofFault f)) w :=
    ⟨held, rfl, .refl l w, fun _ _ => rfl, .inr ⟨hf, f, rfl⟩⟩
  induction spans generalizing pos indirect w with
  | nil =>
    cases cuts with
    | nil done => exact ⟨held, rfl, .refl l w, fun _ _ => rfl, .inl ⟨rfl, by omega⟩⟩
  | cons span rest ih =>
    obtain ⟨indirect', known', block⟩ := yields_blockAt faulty held known span.index
    rw [clearSpans, ensures_bind]
    refine block.ensures (fun hf f => unchanged pos held hf f) ?_
    simp only
    by_cases zero : l.slot span.index = .zero
    · simp only [if_pos zero]
      refine (ih cuts.tail held known').mono fun r w' later => ?_
      refine later.span rfl (.refl l w) (fun _ _ => rfl) ?_
      intro n low high
      exact Layout.view_of_zero (cuts.div_eq low high) zero
    · simp only [if_neg zero]
      obtain ⟨b, stored⟩ := held.blocks span.index zero
      rw [ensures_bind]
      refine Store.ensures_load stored (fun hf f => unchanged pos held hf f) ?_
      simp only
      rw [ensures_bind]
      refine Store.ensures_save_of_apart (held.apart _ zero) (fun hf f => unchanged pos held hf f) ?_
      have saved := held.toBacked.view_save zero
        (b.overlay span.start (zeros span.length) (by simpa using span.fits))
      refine (ih cuts.tail (held.save zero _) known').mono fun r w' later => ?_
      refine later.span rfl (held.toBacked.touches_save zero _) ?_ ?_
      · intro n hn
        rw [saved]
        split
        · rename_i here
          have off := mt (cuts.mem_iff here).mpr hn
          rw [Block.byteAt_overlay, size_zeros, if_neg off, Layout.view_eq here, Layout.block_of_get zero stored]
        · rfl
      · intro n low high
        have here := cuts.div_eq low high
        have on := (cuts.mem_iff here).mp ⟨low, Nat.lt_of_lt_of_le high cuts.length_le⟩
        rw [saved, if_pos here, Block.byteAt_overlay, size_zeros, if_pos on, byteAt_zeros]

theorem ensures_clear (held : l.Held w) (start stop : Nat) :
    Ensures faulty (clear l.map start stop) w (Cleared faulty l start (min stop maxFileSize) w) :=
  ensures_clearSpans (cuts_spans _) held fun _ h => nomatch h

end RecordFs.Content
