import OsProgramming.Stream.Line

/-! The two line readers against their capacity. The block has `length` cells, so a call
that returns has stored only at indices below `length`. -/

namespace OsProgramming.Stream

open Library Reactor

variable {stream : List ReadAnswer} {buffer : List Byte} {length : ℕ}

/-- The call returns, and if there is room for a NUL, there is one. -/
def Terminates (length : ℕ) (r : Result (ℕ × List ReadAnswer × List Byte)) : Prop :=
  ∃ count stream' buffer', r = .ok (count, stream', buffer') ∧
    (0 < length → 0 ∈ buffer'.take length)

/-! ### The plain reader -/

theorem readLineLoop_stop (harriving : arriving false stream = []) {fuel : ℕ} {countUp : ℤ}
    {c : Byte} : ∃ stream', readLineLoop length (fuel + 2) stream buffer countUp c =
      .ok (countUp, stream', buffer) := by
  rw [readLineLoop]
  split_ifs
  · rcases read_one_cases stream with ⟨byte, stream', -, hcons⟩ | ⟨-, hnone⟩
    · rw [harriving] at hcons
      cases hcons
    · split
      · next byte bytes stream' hread => exact absurd (congrArg Prod.fst hread) (hnone byte bytes)
      · next answer stream' _ _ => exact ⟨stream', readLineLoop_newline⟩
  · exact ⟨stream, rfl⟩

/-- With room for `budget` more bytes, not counting the NUL, the loop ends in front of the
last cell. -/
theorem readLineLoop_returns {fuel countUp budget : ℕ} {c : Byte}
    (hlength : length < 18446744073709551616) (hroom : buffer.length = length) (hc : c ≠ newline)
    (hbudget : countUp + budget + 1 = length) (hfuel : budget + 2 ≤ fuel)
    (hmax : ((countUp +
      (cutLine carriageReturn newline budget (arriving false stream)).1.length : ℕ) : ℤ) ≤ intMax) :
    ∃ (n : ℕ) (stream' : List ReadAnswer) (buffer' : List Byte),
      readLineLoop length fuel stream buffer countUp c = .ok (n, stream', buffer') ∧ n < length ∧
        buffer'.length = length := by
  obtain ⟨fuel, rfl⟩ : ∃ n, fuel = n + 2 := ⟨fuel - 2, by omega⟩
  induction budget generalizing stream buffer fuel countUp c with
  | zero => exact ⟨countUp, stream, buffer, readLineLoop_full hbudget, by omega, hroom⟩
  | succ budget ih =>
    rcases read_one_cases stream with ⟨byte, stream', hread, harriving⟩ | ⟨harriving, -⟩
    · have hlt : countUp < buffer.length := by omega
      rw [harriving] at hmax
      have hpos : 0 < (cutLine carriageReturn newline (budget + 1)
          (byte :: arriving false stream')).1.length := (cutLine_lt budget byte _).1
      rw [readLineLoop_byte hc (toSizeT_lt hlength (by omega) (by omega)) hread,
        store_one buffer hlt, ok_bind, wrapInt_succ (by omega)]
      by_cases hend : byte = newline ∨ byte = carriageReturn
      · have hlast : (if byte = carriageReturn then newline else byte) = newline := by
          rcases hend with rfl | rfl
          · exact if_neg newline_ne.symm
          · exact if_pos rfl
        rw [hlast, readLineLoop_newline]
        exact ⟨_, _, _, rfl, by omega, by rwa [List.length_set]⟩
      · rw [not_or] at hend
        rw [cutLine_of_middle hend.1 hend.2, List.length_cons] at hmax
        obtain ⟨fuel, rfl⟩ : ∃ n, fuel = n + 1 := ⟨fuel - 1, by omega⟩
        rw [if_neg hend.2, if_neg hend.2]
        have hroom' : (buffer.set countUp byte).length = length := by rwa [List.length_set]
        exact ih hroom' hend.1 (by omega) (by push_cast at *; omega) fuel (by omega)
    · obtain ⟨stream', hstop⟩ := readLineLoop_stop harriving
      exact ⟨countUp, stream', buffer, hstop, by omega, hroom⟩

/-- With no cell at all, the NUL has no place. -/
theorem readLineLoop_zero {fuel : ℕ} {countUp countUp' : ℤ} {c : Byte} {stream' : List ReadAnswer}
    {buffer' : List Byte}
    (hloop : readLineLoop length fuel stream [] countUp c = .ok (countUp', stream', buffer')) :
    buffer' = [] := by
  induction fuel generalizing stream c with
  | zero => cases hloop
  | succ fuel ih =>
    rw [readLineLoop] at hloop
    split_ifs at hloop
    · split at hloop
      · obtain ⟨buffer₁, hstore, -⟩ := bind_eq_ok.mp hloop
        rw [store_nil] at hstore
        cases hstore
      · exact ih hloop
    · cases hloop
      rfl

theorem readLine_terminates_iff (hlength : length < 18446744073709551616)
    (hroom : buffer.length = length) :
    Terminates length (readLine length stream buffer) ↔
      0 < length ∧ ((length : ℤ) - 1 ≤ intMax ∨
        ((firstLine carriageReturn newline (arriving false stream)).1.length : ℤ) ≤ intMax) := by
  have hcut : (cutLine carriageReturn newline (length - 1) (arriving false stream)).1.length =
      min (length - 1) (firstLine carriageReturn newline (arriving false stream)).1.length :=
    length_cutLine _ _
  constructor
  · rintro ⟨count, stream', buffer', hcall, -⟩
    have hpos : 0 < length := by
      by_contra hzero
      obtain rfl : buffer = [] := List.length_eq_zero_iff.mp (by omega)
      obtain ⟨⟨countUp, stream₁, buffer₁⟩, hloop, hcall⟩ := bind_eq_ok.mp hcall
      obtain ⟨buffer₂, hstore, -⟩ := bind_eq_ok.mp hcall
      obtain rfl : buffer₁ = [] := readLineLoop_zero hloop
      rw [store_nil] at hstore
      cases hstore
    have hmax := readLine_le_intMax hpos hlength hcall
    exact ⟨hpos, by omega⟩
  · rintro ⟨hpos, hmax⟩
    obtain ⟨n, stream', buffer', hloop, hn, hlen⟩ :
        ∃ (n : ℕ) (stream' : List ReadAnswer) (buffer' : List Byte),
          readLineLoop length (length + 1) stream buffer (0 : ℕ) 0 = .ok (n, stream', buffer') ∧
            n < length ∧ buffer'.length = length :=
      readLineLoop_returns hlength hroom (by decide) (show 0 + (length - 1) + 1 = length by omega)
        (by omega) (by omega)
    rw [Nat.cast_zero] at hloop
    have hlt : n < buffer'.length := by omega
    refine ⟨toSizeT n, stream', buffer'.set n 0, ?_, ?_⟩
    · simp only [readLine, readLine_fuel hpos hlength, hloop, store_one _ hlt, ok_bind]
    · intro _
      rw [List.take_of_length_le (by rw [List.length_set]; omega)]
      exact List.mem_set hlt 0

/-! ### The reader with a buffer -/

/-- The bytes that are ready in the static buffer, and those that arrive. -/
theorem refill_cases (ready : List Byte) (stream : List ReadAnswer) :
    (∃ c ready' stream', refill ready stream = (.offered (c :: ready'), stream') ∧
        ready ++ arriving true stream = c :: (ready' ++ arriving true stream') ∧
        stream'.length ≤ stream.length) ∨
      (∃ stream', refill ready stream = (.offered [], stream') ∧ ready = [] ∧
        arriving true stream = []) ∨
      ∃ errno stream', refill ready stream = (.failed errno, stream') ∧ ready = [] ∧
        stream = .failed errno :: stream' := by
  cases ready with
  | cons c ready => exact .inl ⟨c, ready, stream, rfl, rfl, le_rfl⟩
  | nil =>
    have hpos : 0 < 512 := by decide
    rw [refill, if_pos rfl, List.nil_append]
    rcases read_arriving true stream hpos with ⟨c, ready', stream', hread, harriving⟩ |
      ⟨stream', hread, harriving⟩ | ⟨errno, stream', rfl⟩
    · exact .inl ⟨c, ready', stream', hread, harriving, length_le_of_read hread⟩
    · exact .inr (.inl ⟨stream', hread, rfl, harriving⟩)
    · exact .inr (.inr ⟨errno, stream', rfl, rfl, rfl⟩)

/-- Where a NUL can come from: the bytes that are there already, an LF among the bytes that
are taken, and these bytes. -/
def HoldsNul (before taken behind : List Byte) : Prop :=
  0 ∈ before ∨ newline ∈ taken ∨ 0 ∈ taken ∨ 0 ∈ behind.drop taken.length

instance (before taken behind : List Byte) : Decidable (HoldsNul before taken behind) :=
  inferInstanceAs (Decidable (_ ∨ _))

theorem holdsNul_cons {before taken behind : List Byte} {c old : Byte} (hc : c ≠ newline) :
    HoldsNul before (c :: taken) (old :: behind) ↔ HoldsNul (before ++ [c]) taken behind := by
  simp only [HoldsNul, List.mem_append, List.mem_cons, Ne.symm hc, false_or,
    List.length_cons, List.drop_succ_cons]
  tauto

theorem holdsNul_nil (buffer : List Byte) (pointer : ℕ) :
    0 ∈ buffer ↔ HoldsNul (buffer.take pointer) [] (buffer.drop pointer) := by
  have hsplit : 0 ∈ buffer ↔ 0 ∈ buffer.take pointer ∨ 0 ∈ buffer.drop pointer := by
    rw [← List.mem_append, List.take_append_drop]
  simpa [HoldsNul] using hsplit

/-- After `pointer` bytes, and with room for `budget` more and a NUL, the loop returns. -/
theorem readLineBufferedLoop_returns {fuel pointer budget : ℕ} {ready : List Byte}
    (hlength : length = budget + 1) (hmax : length < 18446744073709551616)
    (hroom : pointer + length = buffer.length) (hfuel : budget + stream.length + 1 ≤ fuel) :
    ∃ (count : ℕ) (stream' : List ReadAnswer) (buffer' : List Byte),
      readLineBufferedLoop fuel stream ready buffer pointer length =
        .ok (count, stream', buffer') ∧
      buffer'.length = buffer.length ∧
      (0 ∈ buffer' ↔ HoldsNul (buffer.take pointer)
        ((ready ++ arriving true stream).take budget) (buffer.drop pointer)) := by
  induction fuel generalizing stream ready buffer pointer budget length with
  | zero => omega
  | succ fuel ih =>
    have hdec : toSizeT (length - 1) = budget := by
      unfold toSizeT
      omega
    have hnone := holdsNul_nil buffer pointer
    rw [readLineBufferedLoop, hdec]
    split_ifs with hmore
    swap
    · obtain rfl : budget = 0 := by omega
      exact ⟨_, stream, buffer, rfl, rfl, hnone⟩
    rcases refill_cases ready stream with ⟨c, ready', stream', hrefill, hdata, hle⟩ |
      ⟨stream', hrefill, rfl, harriving⟩ | ⟨errno, stream', hrefill, rfl, rfl⟩
    · obtain ⟨budget, rfl⟩ : ∃ n, budget = n + 1 := ⟨budget - 1, by omega⟩
      have hlt : pointer < buffer.length := by omega
      have hbehind : buffer.drop pointer = buffer[pointer] :: buffer.drop (pointer + 1) :=
        List.drop_eq_getElem_cons hlt
      simp only [hrefill, store_one buffer hlt, ok_bind]
      rw [hdata, List.take_succ_cons]
      by_cases hc : c = newline
      · have hend : pointer + 1 < (buffer.set pointer c).length := by
          rw [List.length_set]
          omega
        rw [if_pos hc, show (pointer : ℤ) + 1 = ((pointer + 1 : ℕ) : ℤ) by push_cast; rfl,
          store_one _ hend, ok_bind]
        refine ⟨_, _, _, rfl, by simp, iff_of_true (List.mem_set hend 0) (.inr (.inl ?_))⟩
        rw [hc]
        exact List.mem_cons_self
      · have hroom' : pointer + 1 + (budget + 1) = (buffer.set pointer c).length := by
          rw [List.length_set]
          omega
        obtain ⟨count, stream'', buffer', hloop, hlen, hnul⟩ :=
          @ih stream' (buffer.set pointer c) (budget + 1) (pointer + 1) budget ready' rfl
            (by omega) hroom' (by omega)
        rw [if_neg hc, hloop]
        refine ⟨count, stream'', buffer', rfl, hlen.trans (List.length_set ..), ?_⟩
        rw [hnul, hbehind, holdsNul_cons hc, take_succ_set hlt, List.drop_set_of_lt (by omega)]
    · simp only [hrefill, harriving, List.append_nil, List.take_nil]
      exact ⟨0, stream', buffer, rfl, rfl, hnone⟩
    · simp only [hrefill]
      split_ifs with heintr
      · rw [arriving, if_pos ⟨rfl, heintr⟩, ← hlength]
        rw [List.length_cons] at hfuel
        exact ih hlength hmax hroom (by omega)
      · rw [arriving, if_neg (fun h => heintr h.2), List.append_nil, List.take_nil]
        exact ⟨_, stream', buffer, rfl, rfl, hnone⟩

/-- With a capacity of 0 the limit is the largest `size_t`, and the first byte has no place. -/
theorem readLineBufferedLoop_zero {fuel : ℕ}
    (hmax : toSizeT (length - 1) = 18446744073709551615) (hfuel : stream.length + 1 ≤ fuel) :
    (∃ r, readLineBufferedLoop fuel stream [] [] 0 length = .ok r) ↔ arriving true stream = [] := by
  induction fuel generalizing stream length with
  | zero => omega
  | succ fuel ih =>
    rw [readLineBufferedLoop, hmax, if_pos (by omega)]
    rcases refill_cases [] stream with ⟨c, ready, stream', hrefill, hdata, -⟩ |
      ⟨stream', hrefill, -, harriving⟩ | ⟨errno, stream', hrefill, -, rfl⟩
    · rw [List.nil_append] at hdata
      simp [hrefill, hdata, store_nil]
    · simp [hrefill, harriving]
    · simp only [hrefill, arriving, true_and]
      split_ifs
      · rw [List.length_cons] at hfuel
        have hmax' : toSizeT ((18446744073709551615 + 1 : ℕ) - 1) = 18446744073709551615 := by decide
        exact ih hmax' (by omega)
      · simp

theorem readLineBuffered_terminates_iff (hlength : length < 18446744073709551616)
    (hroom : buffer.length = length) :
    Terminates length (readLineBuffered length stream buffer) ↔
      if length = 0 then arriving true stream = []
      else HoldsNul [] ((arriving true stream).take (length - 1)) buffer := by
  split_ifs with hzero
  · subst hzero
    obtain rfl : buffer = [] := List.length_eq_zero_iff.mp hroom
    have hmax : toSizeT ((0 : ℕ) - 1) = 18446744073709551615 := by decide
    have hfuel : stream.length + 1 ≤ toSizeT ((0 : ℕ) - 1) + stream.length + 1 := by omega
    rw [← readLineBufferedLoop_zero hmax hfuel]
    constructor
    · rintro ⟨count, stream', buffer', hcall, -⟩
      exact ⟨_, hcall⟩
    · rintro ⟨⟨count, stream', buffer'⟩, hcall⟩
      exact ⟨count, stream', buffer', hcall, fun h => absurd h (lt_irrefl 0)⟩
  · have hfuel : length - 1 + stream.length + 1 ≤
        toSizeT (length - 1) + stream.length + 1 := by
      unfold toSizeT
      omega
    have hbudget : length = length - 1 + 1 := by omega
    obtain ⟨count, stream', buffer', hcall, hlen, hnul⟩ :=
      @readLineBufferedLoop_returns stream buffer length _ 0 (length - 1) [] hbudget hlength
        (by omega) hfuel
    have htake : buffer'.take length = buffer' := List.take_of_length_le (by omega)
    rw [List.nil_append, List.take_zero, List.drop_zero] at hnul
    rw [← hnul]
    constructor
    · rintro ⟨count', stream'', buffer'', hcall', hmem⟩
      cases hcall.symm.trans hcall'
      exact htake ▸ hmem (by omega)
    · exact fun hmem => ⟨count, stream', buffer', hcall, fun _ => htake.symm ▸ hmem⟩

/-- The plain reader keeps its promise if there is room for the NUL and what it takes of the
line fits in an `int`; the other one if a line ends in its bytes, or a NUL is there by
chance, and with no room at all if nothing arrives. -/
theorem line_readers_terminate_iff (hlength : length < 18446744073709551616)
    (hroom : buffer.length = length) :
    (Terminates length (readLine length stream buffer) ↔
      0 < length ∧ ((length : ℤ) - 1 ≤ intMax ∨
        ((firstLine carriageReturn newline (arriving false stream)).1.length : ℤ) ≤ intMax)) ∧
    (Terminates length (readLineBuffered length stream buffer) ↔
      if length = 0 then arriving true stream = []
      else HoldsNul [] ((arriving true stream).take (length - 1)) buffer) :=
  ⟨readLine_terminates_iff hlength hroom, readLineBuffered_terminates_iff hlength hroom⟩

/-- A capacity of 0 leaves no place for the NUL, and a stream that ends in the middle of a
line has none. -/
theorem line_readers_leave_open :
    ¬ Terminates 0 (readLine 0 [] []) ∧
      ¬ Terminates 4 (readLineBuffered 4 [.offered [97, 98]] [1, 1, 1, 1]) := by
  constructor
  · have hiff := @readLine_terminates_iff [] [] 0 (by decide) rfl
    exact fun h => absurd (hiff.mp h).1 (lt_irrefl 0)
  · have hiff := @readLineBuffered_terminates_iff [.offered [97, 98]] [1, 1, 1, 1] 4 (by decide) rfl
    exact fun h => absurd (hiff.mp h) (by decide)

/-- One cell is enough for the plain reader, and four for a line of two bytes. -/
theorem line_readers_terminate_iff_line :
    Terminates 1 (readLine 1 [.offered [97, 98, 10]] [1]) ∧
      Terminates 4 (readLineBuffered 4 [.failed .eintr, .offered [97], .offered [10]]
        [1, 1, 1, 1]) := by
  have hplain := (@line_readers_terminate_iff [.offered [97, 98, 10]] [1] 1 (by decide) rfl).1
  have hbuffered := (@line_readers_terminate_iff [.failed .eintr, .offered [97], .offered [10]]
    [1, 1, 1, 1] 4 (by decide) rfl).2
  exact ⟨hplain.mpr (by decide), hbuffered.mpr (by decide)⟩

end OsProgramming.Stream
