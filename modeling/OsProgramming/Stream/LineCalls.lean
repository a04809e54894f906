import OsProgramming.Stream.Line

/-! The calls of `read_line` on a buffer that may be too short for a line. What one call
leaves of a line is given by the next. -/

namespace OsProgramming.Stream

open Library Reactor

variable {stream : List ReadAnswer} {buffer : List Byte} {length : ℕ}

theorem cutLine_le_intMax (hmax : (length : ℤ) ≤ intMax) (bytes : List Byte) :
    ((cutLine carriageReturn newline (length - 1) bytes).1.length : ℤ) ≤ intMax := by
  have hle : (cutLine carriageReturn newline (length - 1) bytes).1.length ≤ length - 1 :=
    length_cutLine_le (length - 1) bytes
  omega

theorem intMax_lt {n : ℕ} (h : (n : ℤ) ≤ intMax) : n < 18446744073709551616 := by
  unfold intMax at h
  omega

/-- Only where the stream has ended does a call give nothing. -/
theorem pending_eq_nil (hlength : 2 ≤ length) {bytes : List Byte}
    (hcut : (cutLine carriageReturn newline (length - 1) bytes).1.length = 0) : bytes = [] := by
  obtain ⟨n, rfl⟩ : ∃ n, length = n + 2 := ⟨length - 2, by omega⟩
  match bytes with
  | [] => rfl
  | byte :: bytes =>
    have hpos : 0 < (cutLine carriageReturn newline (n + 1) (byte :: bytes)).1.length :=
      (cutLine_lt n byte bytes).1
    exact absurd hcut (Nat.pos_iff_ne_zero.mp hpos)

/-- The calls come to the end of the stream. -/
theorem exists_lines (h : Uninterrupted stream) (hlength : 2 ≤ length)
    (hmax : (length : ℤ) ≤ intMax) (hroom : length ≤ buffer.length) :
    ∃ found, Lines (readLine length) stream buffer found := by
  induction hsize : (pending stream).length using Nat.strong_induction_on
    generalizing stream buffer with
  | _ size ih =>
    subst hsize
    have hint := cutLine_le_intMax hmax (pending stream)
    obtain ⟨stream', buffer', hcall, -, -, hlen, h', hpending⟩ :=
      readLine_cut h (by omega) (intMax_lt hmax) hroom rfl hint
    by_cases hzero : (cutLine carriageReturn newline (length - 1) (pending stream)).1.length = 0
    · exact ⟨[], .stop hcall (.inl hzero)⟩
    · have hlt : (pending stream').length < (pending stream).length := by
        obtain ⟨n, rfl⟩ : ∃ n, length = n + 2 := ⟨length - 2, by omega⟩
        rw [hpending]
        cases hbytes : pending stream with
        | nil =>
          rw [hbytes] at hzero
          exact absurd rfl hzero
        | cons byte bytes => exact (cutLine_lt n byte bytes).2
      obtain ⟨found, hfound⟩ := ih _ hlt h' (hlen ▸ hroom) rfl
      exact ⟨_, .line hcall ⟨hzero, ne_minusOne hint⟩ hfound⟩

/-- However they are cut, the lines together are the stream, normalised. -/
theorem flatten_of_lines {found : List (List Byte)} (h : Uninterrupted stream)
    (hlength : 2 ≤ length) (hmax : (length : ℤ) ≤ intMax) (hroom : length ≤ buffer.length)
    (hfound : Lines (readLine length) stream buffer found) :
    found.flatten = normalize carriageReturn newline (pending stream) := by
  induction hfound with
  | @stop stream stream' buffer buffer' count hcall hcount =>
    have hint := cutLine_le_intMax hmax (pending stream)
    obtain ⟨stream₁, buffer₁, hcall', -⟩ :=
      readLine_cut h (by omega) (intMax_lt hmax) hroom rfl hint
    rw [hcall'] at hcall
    cases hcall
    have hzero := hcount.resolve_right (ne_minusOne hint)
    rw [pending_eq_nil hlength hzero]
    rfl
  | @line stream stream' buffer buffer' count lines hcall _ _ ih =>
    have hint := cutLine_le_intMax hmax (pending stream)
    obtain ⟨stream₁, buffer₁, hcall', htake, -, hlen, h', hpending⟩ :=
      readLine_cut h (by omega) (intMax_lt hmax) hroom rfl hint
    rw [hcall'] at hcall
    cases hcall
    rw [List.flatten_cons, htake, ih h' (hlen ▸ hroom), hpending]
    exact (normalize_eq_cutLine newline_ne _ _).symm

/-- A call gives fewer than `length` bytes and a NUL, an LF as the last of them only, and
nothing only at the end of the stream; the calls together give the stream, normalised. -/
theorem read_line_normalizes (h : Uninterrupted stream) (hlength : 2 ≤ length)
    (hmax : (length : ℤ) ≤ intMax) (hroom : length ≤ buffer.length) :
    (∃ count stream' buffer', readLine length stream buffer = .ok (count, stream', buffer') ∧
      count ≤ length - 1 ∧ buffer'[count]? = some 0 ∧ newline ∉ (buffer'.take count).dropLast ∧
      (count = 0 → pending stream = []) ∧ Uninterrupted stream' ∧
      buffer'.length = buffer.length) ∧
    (∃ found, Lines (readLine length) stream buffer found) ∧
    ∀ found, Lines (readLine length) stream buffer found →
      found.flatten = normalize carriageReturn newline (pending stream) := by
  refine ⟨?_, exists_lines h hlength hmax hroom,
    fun found => flatten_of_lines h hlength hmax hroom⟩
  have hint := cutLine_le_intMax hmax (pending stream)
  obtain ⟨stream', buffer', hcall, htake, hnul, hlen, h', -⟩ :=
    readLine_cut h (by omega) (intMax_lt hmax) hroom rfl hint
  refine ⟨_, stream', buffer', hcall, length_cutLine_le _ _, hnul, ?_, pending_eq_nil hlength, h',
    hlen⟩
  rw [htake]
  exact not_mem_dropLast_cutLine _ _

/-- The first line is cut before its CRLF, the second is a CR before a CRLF. -/
theorem read_line_normalizes_cut :
    (∃ found, Lines (readLine 3) [.offered [97, 98, 13], .offered [10, 13, 13, 10, 99]]
      (List.replicate 3 0) found) ∧
    ∀ found, Lines (readLine 3) [.offered [97, 98, 13], .offered [10, 13, 13, 10, 99]]
      (List.replicate 3 0) found → found.flatten = [97, 98, 10, 10, 10, 99] :=
  (read_line_normalizes (by simp [Uninterrupted]) (by decide) (by decide) (by decide)).2

end OsProgramming.Stream
