import OsProgramming.Stream.HostileMessage

/-! The count that `readn` returns, for every `size_t`. The remaining length is kept in
an `int`: what the conversion drops from the size, a multiple of `2 ^ 32`, the final
subtraction counts as received. -/

namespace OsProgramming.Stream

open Library Reactor

section

variable {size n : ℕ}

/-- What is dropped is 0, up to the wrap of the `size_t`, for the sizes that sign
extension gives back. -/
theorem toSizeT_count_iff (hsize : size < 18446744073709551616) (hn : (n : ℤ) ≤ intMax) :
    toSizeT (size - wrapInt size + n) = n ↔
      size ≤ 2147483647 ∨ 18446744071562067968 ≤ size := by
  unfold intMax at hn
  unfold toSizeT wrapInt
  rw [Int.bmod_def]
  split_ifs <;> omega

/-- No count is taken for a failure. -/
theorem toSizeT_count_ne_failed (hn : (n : ℤ) ≤ intMax) :
    toSizeT (size - wrapInt size + n) ≠ toSizeT (-1) := by
  unfold intMax at hn
  unfold toSizeT wrapInt
  rw [Int.bmod_def]
  split_ifs <;> omega

end

/-- The call returns, and its result is -1 or the number of the bytes that it has stored. -/
def CountsStored (stream : List ReadAnswer) (buffer : List Byte) (size : ℕ) : Prop :=
  ∃ count stream' bytes, readn stream buffer size =
      .ok (count, stream', bytes ++ buffer.drop bytes.length) ∧
    pending stream = bytes ++ pending stream' ∧ (count ≠ toSizeT (-1) → count = bytes.length)

/-- `readn` counts what it stores for exactly the sizes that an `int` can hold or gives
back by sign extension, and where a failing call hides the count. The buffer has room for
what the loop asks for. -/
theorem countsStored_iff {stream : List ReadAnswer} {buffer : List Byte} {size : ℕ}
    (hsize : size < 18446744073709551616) (hroom : (wrapInt size).toNat ≤ buffer.length) :
    CountsStored stream buffer size ↔
      size ≤ 2147483647 ∨ 18446744071562067968 ≤ size ∨
        FailsWithin stream (wrapInt size).toNat := by
  obtain ⟨count, stream', bytes, hread, hpending, hle, hcount⟩ := readn_any stream buffer size hroom
  have hint : (bytes.length : ℤ) ≤ intMax := by
    have := (wrapInt_bounds size).2
    unfold intMax at this ⊢
    omega
  -- the call is a function, so these are its only outcome
  have hstored : CountsStored stream buffer size ↔
      (count ≠ toSizeT (-1) → count = bytes.length) := by
    constructor
    · rintro ⟨count', stream₁, bytes', hread', hpending', hstored⟩
      rw [hread, Except.ok.injEq, Prod.mk.injEq, Prod.mk.injEq] at hread'
      obtain ⟨rfl, rfl, -⟩ := hread'
      rwa [List.append_cancel_right (hpending.symm.trans hpending')]
    · exact fun h => ⟨count, stream', bytes, hread, hpending, h⟩
  rw [hstored, ← or_assoc]
  rcases hcount with ⟨hfails, hcount⟩ | ⟨hfails, hcount⟩
  · exact iff_of_true (fun h => (h hcount).elim) (.inr hfails)
  · rw [hcount, or_iff_left hfails, ← toSizeT_count_iff hsize hint]
    exact imp_iff_right (toSizeT_count_ne_failed hint)

/-- Five bytes asked for and three received, and a size that becomes a negative `int`. -/
theorem countsStored_iff_short :
    CountsStored [.offered [1, 2], .failed .eintr, .offered [3]] [0, 0, 0, 0, 0] 5 ∧
      ¬ CountsStored [.offered [1, 2]] (List.replicate 8 0) 2147483648 := by
  refine ⟨(countsStored_iff (by decide) (by decide)).mpr (.inl (by decide)), fun h => ?_⟩
  rcases (countsStored_iff (by decide) (by decide)).mp h with hlow | hhigh | hfails
  · exact absurd hlow (by decide)
  · exact absurd hhigh (by decide)
  · exact not_failsWithin_zero _ hfails

theorem readn_of_nonpos (stream : List ReadAnswer) (buffer : List Byte) {size : ℕ}
    (h : wrapInt size ≤ 0) :
    readn stream buffer size = .ok (toSizeT (size - wrapInt size), stream, buffer) := by
  rw [readn, readnLoop, if_neg h.not_gt, ok_bind]

/-- For `2 ^ 32` bytes the call asks for nothing and returns `2 ^ 32`. -/
theorem not_countsStored :
    readn [] (List.replicate 4294967296 0) 4294967296 =
        .ok (4294967296, [], List.replicate 4294967296 0) ∧
      ¬ CountsStored [] (List.replicate 4294967296 0) 4294967296 := by
  have hread (buffer : List Byte) : readn [] buffer 4294967296 = .ok (4294967296, [], buffer) :=
    readn_of_nonpos [] buffer (by decide)
  refine ⟨hread _, ?_⟩
  generalize List.replicate 4294967296 (0 : Byte) = buffer
  rintro ⟨count, stream', bytes, hcall, hpending, hcount⟩
  have heq := (hread buffer).symm.trans hcall
  rw [Except.ok.injEq, Prod.mk.injEq] at heq
  obtain rfl : bytes = [] := (List.append_eq_nil_iff.mp hpending.symm).1
  rw [← heq.1] at hcount
  exact absurd (hcount (by decide)) (by decide)

end OsProgramming.Stream
