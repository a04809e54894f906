import OsProgramming.Reactor.BufferQueue

/-! Appending when memory runs out. The growth routine signals a refusal only by
leaving the capacity short, and none of its callers looks at the capacity. So an
append is atomic exactly when `realloc`, if it is called, serves the request;
otherwise the bytes are stored behind the block. -/

namespace OsProgramming.Reactor

open Library Buffer

/-- Exactly the given bytes are added at the back, or `false` is returned and
nothing has changed. -/
def AppendsAtomically (b : Buffer) (bytes : List Byte) (result : Result (Buffer × Bool)) : Prop :=
  (∃ b', result = .ok (b', true) ∧ b'.WellFormed ∧ b'.readable = b.readable ++ bytes) ∨
    result = .ok (b, false)

/-- A failed read changes nothing, and a count is one of bytes now in the buffer. -/
def ReadsAtomically (b : Buffer) (bytes : List Byte) (result : Result (Buffer × ℤ)) : Prop :=
  (∃ b', result = .ok (b', bytes.length) ∧ b'.WellFormed ∧
      b'.readable = b.readable ++ bytes) ∨
    result = .ok (b, -1)

theorem bufferAppend_atomic_iff {b : Buffer} (hb : b.WellFormed) (source : List Byte) {n : ℕ}
    (answer : Alloc Byte) (h0 : 0 < n) (hn : (n : ℤ) ≤ intMax) (hsource : n ≤ source.length) :
    AppendsAtomically b (source.take n) (bufferAppend b (some source) n answer) ↔
      RoomServed b n answer := by
  constructor
  · intro h
    by_contra hserved
    rw [bufferAppend_unserved source hb h0 hserved] at h
    rcases h with ⟨b', h, -⟩ | h <;> cases h
  · intro hserved
    exact .inl (bufferAppend_ok source hb h0 hn hsource hserved)

theorem bufferAppendChar_unserved {b : Buffer} (c : Byte) {answer : Alloc Byte}
    (hb : b.WellFormed) (hserved : ¬ RoomServed b 1 answer) :
    bufferAppendChar b c answer = .error .outOfBounds := by
  rw [bufferAppendChar_eq]
  exact bufferAppend_unserved (n := 1) [c] hb one_pos hserved

theorem bufferAppendChar_atomic_iff {b : Buffer} (hb : b.WellFormed) (c : Byte)
    (answer : Alloc Byte) :
    AppendsAtomically b [c] (bufferAppendChar b c answer) ↔ RoomServed b 1 answer := by
  rw [bufferAppendChar_eq]
  exact bufferAppend_atomic_iff (n := 1) hb [c] answer one_pos (by simp [intMax]) le_rfl

/-- The tail has been filled when the rest finds no room. -/
theorem bufferSocketRead_unserved {b : Buffer} {socket : ReadAnswer} {answer : Alloc Byte}
    (hb : b.WellFormed) (hserved : ¬ SpillServed b socket answer) :
    bufferSocketRead b socket answer = .error .outOfBounds := by
  cases socket with
  | failed errno => exact absurd (fun h => absurd h (Nat.not_lt_zero _)) hserved
  | offered offered =>
    rw [SpillServed, Classical.not_imp] at hserved
    obtain ⟨hspill, hserved⟩ := hserved
    obtain ⟨hwf, -⟩ := hb.tailFilled (readvDelivers b (.offered offered))
    rw [bufferSocketRead_spills answer hb hspill,
      bufferAppend_unserved _ hwf (Nat.sub_pos_of_lt hspill) hserved, error_bind]

theorem bufferSocketRead_atomic_iff {b : Buffer} (hb : b.WellFormed) (socket : ReadAnswer)
    (answer : Alloc Byte) :
    ReadsAtomically b (readvDelivers b socket) (bufferSocketRead b socket answer) ↔
      SpillServed b socket answer := by
  constructor
  · intro h
    by_contra hserved
    rw [bufferSocketRead_unserved hb hserved] at h
    rcases h with ⟨b', h, -⟩ | h <;> cases h
  · intro hserved
    cases socket with
    | failed errno => exact .inr rfl
    | offered offered => exact .inl (bufferSocketRead_ok hb hserved)

@[simp] theorem tailFilled_nil (b : Buffer) : b.tailFilled [] = b := by
  simp [tailFilled]

/-- From every well-formed buffer, each of the three is atomic exactly when the
`realloc` that it calls, if it calls one, succeeds. -/
theorem atomic_iff_served {b : Buffer} (hb : b.WellFormed) (answer : Alloc Byte) :
    (∀ (source : List Byte) (n : ℕ), 0 < n → (n : ℤ) ≤ intMax → n ≤ source.length →
      (AppendsAtomically b (source.take n) (bufferAppend b (some source) n answer) ↔
        RoomServed b n answer)) ∧
    (∀ c, AppendsAtomically b [c] (bufferAppendChar b c answer) ↔ RoomServed b 1 answer) ∧
    (∀ socket, ReadsAtomically b (readvDelivers b socket) (bufferSocketRead b socket answer) ↔
      SpillServed b socket answer) :=
  ⟨fun source _ h0 hn hsource => bufferAppend_atomic_iff hb source answer h0 hn hsource,
    fun c => bufferAppendChar_atomic_iff hb c answer,
    fun socket => bufferSocketRead_atomic_iff hb socket answer⟩

/-- The block that `buffer_new` allocates, full of unread bytes. -/
def fullBuffer : Buffer := ⟨List.replicate initBufferSize 0, 0, initBufferSize, initBufferSize⟩

theorem wellFormed_fullBuffer : fullBuffer.WellFormed where
  zero_le_read := le_rfl
  read_le_write := Int.natCast_nonneg _
  write_le_total := le_rfl
  total_eq_length := by rw [fullBuffer, List.length_replicate]
  total_le_max := by show ((65536 : ℕ) : ℤ) ≤ intMax; decide

theorem not_roomServed_fullBuffer : ¬ RoomServed fullBuffer 1 none := by
  have hr : Reallocates fullBuffer 1 := by decide
  intro h
  simpa [realloc] using h hr

theorem atomic_iff_served_fullBuffer :
    fullBuffer.WellFormed ∧
      ¬ AppendsAtomically fullBuffer [7] (bufferAppendChar fullBuffer 7 none) :=
  ⟨wellFormed_fullBuffer, fun h => not_roomServed_fullBuffer
    (((atomic_iff_served wellFormed_fullBuffer none).2.1 7).mp h)⟩

/-- One byte for a full buffer while `realloc` returns `NULL`: all three store it
behind the block. -/
theorem append_not_atomic :
    fullBuffer.WellFormed ∧ bufferAppend fullBuffer (some [7]) 1 none = .error .outOfBounds ∧
      bufferAppendChar fullBuffer 7 none = .error .outOfBounds ∧
      bufferSocketRead fullBuffer (.offered [7]) none = .error .outOfBounds := by
  have hspill : ¬ SpillServed fullBuffer (.offered [7]) none := by
    intro h
    have hroom := h (by decide)
    rw [show bufferWriteableSize fullBuffer = 0 from rfl, Int.toNat_zero, List.take_zero,
      tailFilled_nil] at hroom
    exact not_roomServed_fullBuffer hroom
  exact ⟨wellFormed_fullBuffer,
    bufferAppend_unserved (n := 1) [7] wellFormed_fullBuffer one_pos not_roomServed_fullBuffer,
    bufferAppendChar_unserved 7 wellFormed_fullBuffer not_roomServed_fullBuffer,
    bufferSocketRead_unserved wellFormed_fullBuffer hspill⟩

end OsProgramming.Reactor
