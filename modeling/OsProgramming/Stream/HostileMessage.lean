import OsProgramming.Stream.Message

/-! `read_message` on any stream: one that no client sent, that is cut anywhere, that
fails or ends anywhere. What a call has taken from the stream and its two local
comparisons decide what it returns and what it has stored. -/

namespace OsProgramming.Stream

open Library Reactor

/-! ### The loop on any stream -/

/-- A call fails, or returns nothing, or takes what has arrived. -/
theorem read_cases (stream : List ReadAnswer) {n : ℕ} (hn : 0 < n) :
    (∃ errno stream', read n stream = (.failed errno, stream') ∧
        pending stream' = pending stream) ∨
      (∃ stream', read n stream = (.offered [], stream') ∧ pending stream' = pending stream) ∨
      ∃ byte bytes stream', read n stream = (.offered (byte :: bytes), stream') ∧
        bytes.length < n ∧ pending stream = byte :: bytes ++ pending stream' := by
  match stream with
  | [] => exact .inr (.inl ⟨[], rfl, rfl⟩)
  | .failed errno :: stream => exact .inl ⟨errno, stream, rfl, rfl⟩
  | .offered [] :: stream =>
    refine .inr (.inl ⟨stream, ?_, rfl⟩)
    simp [read]
  | .offered (byte :: bytes) :: stream =>
    obtain ⟨n, rfl⟩ : ∃ m, n = m + 1 := ⟨n - 1, by omega⟩
    refine .inr (.inr ⟨byte, bytes.take n, _, rfl, by rw [List.length_take]; omega, ?_⟩)
    split_ifs with hle
    · simp only [List.length_cons] at hle
      rw [List.take_of_length_le (by omega), pending, List.cons_append]
    · simp [pending, ← List.append_assoc]

/-- A call fails, and not because of a signal, before the stream has given `n` bytes
or its end. -/
def FailsWithin : List ReadAnswer → ℕ → Prop
  | [], _ => False
  | .failed errno :: stream, n => 0 < n ∧ (errno ≠ .eintr ∨ FailsWithin stream n)
  | .offered bytes :: stream, n => 0 < n ∧ bytes ≠ [] ∧ FailsWithin stream (n - bytes.length)

/-- A call returns nothing before the stream has given `n` bytes, and none before it fails but
for a signal. -/
def EndsWithin : List ReadAnswer → ℕ → Prop
  | [], n => 0 < n
  | .failed errno :: stream, n => 0 < n ∧ errno = .eintr ∧ EndsWithin stream n
  | .offered bytes :: stream, n => 0 < n ∧ (bytes = [] ∨ EndsWithin stream (n - bytes.length))

theorem not_failsWithin_zero (stream : List ReadAnswer) : ¬ FailsWithin stream 0 := by
  match stream with
  | [] => exact id
  | .failed _ :: _ => exact fun h => absurd h.1 (lt_irrefl 0)
  | .offered _ :: _ => exact fun h => absurd h.1 (lt_irrefl 0)

section

variable {stream stream' : List ReadAnswer} {n : ℕ}

theorem failsWithin_failed {errno : Errno} (hn : 0 < n)
    (h : read n stream = (.failed errno, stream')) :
    FailsWithin stream n ↔ errno ≠ .eintr ∨ FailsWithin stream' n := by
  match stream with
  | [] => cases h
  | .failed errno' :: stream =>
    cases h
    exact and_iff_right hn
  | .offered _ :: _ => cases h

theorem not_failsWithin_end (hn : 0 < n) (h : read n stream = (.offered [], stream')) :
    ¬ FailsWithin stream n := by
  match stream with
  | [] => exact id
  | .failed _ :: _ => cases h
  | .offered bytes :: stream =>
    simp only [read, Prod.mk.injEq, ReadAnswer.offered.injEq, List.take_eq_nil_iff] at h
    rintro ⟨-, hne, -⟩
    exact hne (h.1.resolve_left hn.ne')

theorem failsWithin_offered {bytes : List Byte} (hn : 0 < n) (hne : bytes ≠ [])
    (h : read n stream = (.offered bytes, stream')) :
    FailsWithin stream n ↔ FailsWithin stream' (n - bytes.length) := by
  match stream with
  | [] =>
    cases h
    exact absurd rfl hne
  | .failed _ :: _ => cases h
  | .offered arrived :: stream =>
    simp only [read, Prod.mk.injEq, ReadAnswer.offered.injEq] at h
    obtain ⟨rfl, rfl⟩ := h
    have harrived : arrived ≠ [] := by
      rintro rfl
      exact hne List.take_nil
    have hfails : FailsWithin (.offered arrived :: stream) n ↔
        FailsWithin stream (n - arrived.length) := by
      rw [FailsWithin, and_iff_right hn, and_iff_right harrived]
    split_ifs with hle
    · rw [hfails, List.take_of_length_le hle]
    · -- the call has filled the room that there was
      have hzero : n - arrived.length = 0 := by omega
      rw [hfails, List.length_take, min_eq_left (by omega), Nat.sub_self, hzero]
      exact iff_of_false (not_failsWithin_zero _) (not_failsWithin_zero _)

theorem not_endsWithin_zero (stream : List ReadAnswer) : ¬ EndsWithin stream 0 := by
  match stream with
  | [] => exact lt_irrefl 0
  | .failed _ :: _ => exact fun h => absurd h.1 (lt_irrefl 0)
  | .offered _ :: _ => exact fun h => absurd h.1 (lt_irrefl 0)

theorem endsWithin_failed {errno : Errno} (hn : 0 < n)
    (h : read n stream = (.failed errno, stream')) (m : ℕ) :
    EndsWithin stream (n + m) ↔ errno = .eintr ∧ EndsWithin stream' (n + m) := by
  match stream with
  | [] => cases h
  | .failed errno' :: stream =>
    cases h
    exact and_iff_right (Nat.add_pos_left hn m)
  | .offered _ :: _ => cases h

theorem endsWithin_end (hn : 0 < n) (h : read n stream = (.offered [], stream')) (m : ℕ) :
    EndsWithin stream (n + m) := by
  match stream with
  | [] => exact Nat.add_pos_left hn m
  | .failed _ :: _ => cases h
  | .offered bytes :: stream =>
    simp only [read, Prod.mk.injEq, ReadAnswer.offered.injEq, List.take_eq_nil_iff] at h
    exact ⟨Nat.add_pos_left hn m, .inl (h.1.resolve_left hn.ne')⟩

theorem endsWithin_offered {bytes : List Byte} (hn : 0 < n) (hne : bytes ≠ [])
    (h : read n stream = (.offered bytes, stream')) (m : ℕ) :
    EndsWithin stream (n + m) ↔ EndsWithin stream' (n - bytes.length + m) := by
  match stream with
  | [] =>
    cases h
    exact absurd rfl hne
  | .failed _ :: _ => cases h
  | .offered arrived :: stream =>
    simp only [read, Prod.mk.injEq, ReadAnswer.offered.injEq] at h
    obtain ⟨rfl, rfl⟩ := h
    have harrived : arrived ≠ [] := by
      rintro rfl
      exact hne List.take_nil
    have hends : EndsWithin (.offered arrived :: stream) (n + m) ↔
        EndsWithin stream (n + m - arrived.length) := by
      rw [EndsWithin, and_iff_right (Nat.add_pos_left hn m), or_iff_right harrived]
    rw [hends]
    split_ifs with hle
    · rw [List.take_of_length_le hle, Nat.sub_add_comm hle]
    · -- what the call has left arrives first
      have hgt := not_le.mp hle
      have hrest : arrived.drop n ≠ [] := by
        rw [ne_eq, List.drop_eq_nil_iff]
        exact hle
      rw [List.length_take, min_eq_left hgt.le, Nat.sub_self, Nat.zero_add, EndsWithin,
        or_iff_right hrest, List.length_drop]
      have hcount : n + m - arrived.length = m - (arrived.length - n) := by omega
      rw [hcount, iff_and_self]
      intro h
      refine Nat.pos_of_ne_zero ?_
      rintro rfl
      rw [Nat.zero_sub] at h
      exact not_endsWithin_zero _ h

end

/-- The loop stores what it takes, and takes at most what is asked for. -/
theorem readnLoop_cases (stream : List ReadAnswer) {buffer : List Byte} {pointer n : ℕ}
    (hroom : pointer + n ≤ buffer.length) :
    ∃ result stream' bytes, readnLoop stream buffer pointer n =
        .ok (result, stream', buffer.take pointer ++ bytes ++
          buffer.drop (pointer + bytes.length)) ∧
      pending stream = bytes ++ pending stream' ∧ bytes.length ≤ n ∧
      (FailsWithin stream n ∧ result = none ∨
        ¬ FailsWithin stream n ∧ result = some ((n - bytes.length : ℕ) : ℤ)) := by
  induction hsize : answers stream using Nat.strong_induction_on
    generalizing stream buffer pointer n
    with
  | _ size ih =>
    subst hsize
    rcases Nat.eq_zero_or_pos n with rfl | hpos
    · exact ⟨some 0, stream, [], by simp [readnLoop_zero], rfl, le_rfl,
        .inr ⟨not_failsWithin_zero stream, rfl⟩⟩
    rcases read_cases stream hpos with
      ⟨errno, stream', hread, hpending⟩ | ⟨stream', hread, hpending⟩ |
        ⟨byte, bytes, stream', hread, hlt, hpending⟩
    · have hfails := failsWithin_failed hpos hread
      by_cases hintr : errno = .eintr
      · subst hintr
        rw [readnLoop_interrupted hpos hread, ← hpending, hfails, ne_eq, eq_self, not_true_eq_false,
          false_or]
        exact ih _ (answers_failed hread) stream' hroom rfl
      · refine ⟨none, stream', [], ?_, hpending.symm, Nat.zero_le _,
          .inl ⟨hfails.mpr (.inl hintr), rfl⟩⟩
        rw [readnLoop_failed hpos hintr hread]
        simp
    · refine ⟨some n, stream', [], ?_, hpending.symm, Nat.zero_le _,
        .inr ⟨not_failsWithin_end hpos hread, rfl⟩⟩
      rw [readnLoop_end hpos hread]
      simp
    · obtain ⟨buffer', hblock, hthen⟩ := readnLoop_then hread hlt hroom
      obtain ⟨result, stream'', more, hrest, hpending', hmore, hresult⟩ :=
        ih _ (answers_offered hread) stream' hblock rfl
      have hlen : (byte :: bytes).length ≤ n := hlt
      refine ⟨result, stream'', byte :: bytes ++ more, hthen hrest, ?_, ?_, ?_⟩
      · rw [hpending, hpending', List.append_assoc]
      · rw [List.length_append]
        omega
      · rw [List.length_append, ← Nat.sub_sub, failsWithin_offered hpos (List.cons_ne_nil _ _) hread]
        exact hresult

/-- The stream ends within `n + m` bytes when the loop comes short, or when it ends within `m`
bytes behind what the loop has taken. -/
theorem endsWithin_readnLoop (stream : List ReadAnswer) {stream' : List ReadAnswer}
    {buffer buffer' : List Byte} {pointer n : ℕ} {result : Option ℤ}
    (hroom : pointer + n ≤ buffer.length)
    (h : readnLoop stream buffer pointer n = .ok (result, stream', buffer')) (m : ℕ) :
    EndsWithin stream (n + m) ↔
      ∃ left, result = some left ∧ (0 < left ∨ left = 0 ∧ EndsWithin stream' m) := by
  induction hsize : answers stream using Nat.strong_induction_on
    generalizing stream buffer pointer n
    with
  | _ size ih =>
    subst hsize
    rcases Nat.eq_zero_or_pos n with rfl | hpos
    · rw [Nat.cast_zero, readnLoop_zero] at h
      cases h
      simp
    rcases read_cases stream hpos with
      ⟨errno, stream₁, hread, -⟩ | ⟨stream₁, hread, -⟩ | ⟨byte, bytes, stream₁, hread, hlt, -⟩
    · rw [endsWithin_failed hpos hread]
      by_cases hintr : errno = .eintr
      · subst hintr
        rw [readnLoop_interrupted hpos hread] at h
        rw [eq_self, true_and]
        exact ih _ (answers_failed hread) stream₁ hroom h rfl
      · rw [readnLoop_failed hpos hintr hread] at h
        cases h
        simp [hintr]
    · rw [readnLoop_end hpos hread] at h
      cases h
      simp [endsWithin_end hpos hread, hpos]
    · rw [readnLoop_stores hread hlt hroom] at h
      rw [endsWithin_offered hpos (List.cons_ne_nil _ _) hread]
      have hlen : (byte :: bytes).length ≤ n := hlt
      refine ih _ (answers_offered hread) stream₁ ?_ h rfl
      rw [length_stored _ (by omega)]
      omega

/-- The `int` that the size becomes is what the loop asks for, and the `size_t` is what the
remaining count is taken from. -/
theorem readn_any (stream : List ReadAnswer) (buffer : List Byte) (size : ℕ)
    (hroom : (wrapInt size).toNat ≤ buffer.length) :
    ∃ count stream' bytes, readn stream buffer size =
        .ok (count, stream', bytes ++ buffer.drop bytes.length) ∧
      pending stream = bytes ++ pending stream' ∧ bytes.length ≤ (wrapInt size).toNat ∧
      (FailsWithin stream (wrapInt size).toNat ∧ count = toSizeT (-1) ∨
        ¬ FailsWithin stream (wrapInt size).toNat ∧
          count = toSizeT (size - wrapInt size + bytes.length)) := by
  by_cases hpos : 0 < wrapInt size
  · obtain ⟨n, hn⟩ := Int.eq_ofNat_of_zero_le hpos.le
    rw [hn, Int.toNat_natCast] at hroom ⊢
    obtain ⟨result, stream', bytes, hloop, hpending, hle, hresult⟩ :=
      readnLoop_cases stream (show 0 + n ≤ buffer.length by omega)
    simp only [Nat.cast_zero, Nat.zero_add, List.take_zero, List.nil_append] at hloop
    rcases hresult with ⟨hfails, rfl⟩ | ⟨hfails, rfl⟩
    · exact ⟨_, stream', bytes, by rw [readn, hn, hloop, ok_bind], hpending, hle,
        .inl ⟨hfails, rfl⟩⟩
    · refine ⟨_, stream', bytes, by rw [readn, hn, hloop, ok_bind], hpending, hle,
        .inr ⟨hfails, ?_⟩⟩
      rw [Nat.cast_sub hle, ← sub_add]
  · have hzero : (wrapInt size).toNat = 0 := by omega
    rw [hzero]
    refine ⟨_, stream, [], ?_, rfl, le_rfl, .inr ⟨not_failsWithin_zero stream, rfl⟩⟩
    rw [readn, readnLoop, if_neg hpos, ok_bind]
    simp

theorem readn_cases (stream : List ReadAnswer) (buffer : List Byte) {n : ℕ}
    (hn : (n : ℤ) ≤ intMax) (hroom : n ≤ buffer.length) :
    ∃ count stream' bytes, readn stream buffer n =
        .ok (count, stream', bytes ++ buffer.drop bytes.length) ∧
      pending stream = bytes ++ pending stream' ∧ bytes.length ≤ n ∧
      (count = toSizeT (-1) ∨ count = bytes.length) := by
  have hint : wrapInt n = n := wrapInt_of_le (by omega) hn
  obtain ⟨count, stream', bytes, hread, hpending, hle, hcount⟩ :=
    readn_any stream buffer n (by rw [hint]; exact hroom)
  rw [hint, Int.toNat_natCast] at hle hcount
  refine ⟨count, stream', bytes, hread, hpending, hle, hcount.imp And.right ?_⟩
  rintro ⟨-, rfl⟩
  rw [sub_self, zero_add]
  exact toSizeT_natCast (by omega)

/-! ### The call -/

/-- What a call with room for `length` bytes has taken from the stream, what it returns
and what it leaves in the buffer. -/
inductive ReadOutcome (stream : List ReadAnswer) (length : ℕ) (buffer : List Byte) :
    List Byte → ℕ → List Byte → Prop
  | headerFailed {taken : List Byte} (hlen : taken.length ≤ 8) (hends : ¬ EndsWithin stream 8) :
    ReadOutcome stream length buffer taken (toSizeT (-1)) buffer
  | headerEnds {taken : List Byte} (hlen : taken.length < 8) (hends : EndsWithin stream 8) :
    ReadOutcome stream length buffer taken 0 buffer
  | tooLong {header : List Byte} (hheader : header.length = 8)
    (hlong : length < ntohl (header.take 4)) (hends : ¬ EndsWithin stream 8) :
    ReadOutcome stream length buffer header (toSizeT (-1)) buffer
  | bodyFailed {header body : List Byte} (hheader : header.length = 8)
    (hfits : ntohl (header.take 4) ≤ length) (hbody : body.length ≤ ntohl (header.take 4)) :
    ReadOutcome stream length buffer (header ++ body) (toSizeT (-1)) (body ++ buffer.drop body.length)
  | bodyEnds {header body : List Byte} (hheader : header.length = 8)
    (hfits : ntohl (header.take 4) ≤ length) (hbody : body.length < ntohl (header.take 4)) :
    ReadOutcome stream length buffer (header ++ body) 0 (body ++ buffer.drop body.length)
  | complete {header body : List Byte} (hheader : header.length = 8)
    (hfits : body.length ≤ length) (hbody : body.length = ntohl (header.take 4)) :
    ReadOutcome stream length buffer (header ++ body) body.length (body ++ buffer.drop body.length)

theorem wrapInt_failed : wrapInt (toSizeT (-1) : ℕ) = -1 := by decide

theorem readHeader_cases (stream : List ReadAnswer) :
    ∃ count stream' bytes, readn stream [0, 0, 0, 0] 4 = .ok (count, stream', bytes ++
        [0, 0, 0, 0].drop bytes.length) ∧
      pending stream = bytes ++ pending stream' ∧ bytes.length ≤ 4 ∧
      (count = toSizeT (-1) ∧ (∀ m, ¬ EndsWithin stream (4 + m)) ∨
        count = bytes.length ∧ bytes.length < 4 ∧ (∀ m, EndsWithin stream (4 + m)) ∨
        count = 4 ∧ bytes.length = 4 ∧ ∀ m, EndsWithin stream (4 + m) ↔ EndsWithin stream' m) := by
  have hroom : 0 + 4 ≤ ([0, 0, 0, 0] : List Byte).length := le_rfl
  have hint : wrapInt ((4 : ℕ) : ℤ) = (4 : ℕ) := by decide
  obtain ⟨result, stream', bytes, hloop, hpending, hle, hresult⟩ := readnLoop_cases stream hroom
  have hends := endsWithin_readnLoop stream hroom hloop
  simp only [Nat.cast_zero, List.take_zero, List.nil_append, Nat.zero_add] at hloop
  rcases hresult with ⟨-, rfl⟩ | ⟨-, rfl⟩
  · refine ⟨toSizeT (-1), stream', bytes, ?_, hpending, hle, .inl ⟨rfl, fun m => ?_⟩⟩
    · rw [readn, hint, hloop, ok_bind]
    · simp [hends]
  · have hcount : toSizeT (((4 : ℕ) : ℤ) - ((4 - bytes.length : ℕ) : ℤ)) = bytes.length := by
      rw [Nat.cast_sub hle, sub_sub_cancel]
      exact toSizeT_natCast (by unfold intMax; omega)
    refine ⟨bytes.length, stream', bytes, ?_, hpending, hle, .inr ?_⟩
    · rw [readn, hint, hloop, ok_bind]
      simp only [hcount]
    · rcases hle.lt_or_eq with hlt | heq
      · refine .inl ⟨rfl, hlt, fun m => (hends m).mpr ⟨_, rfl, .inl (by omega)⟩⟩
      · refine .inr ⟨heq, heq, fun m => (hends m).trans ?_⟩
        simp [heq]

/-- A short count is the end of the stream. -/
theorem toSizeT_wrapInt_short {n : ℕ} (h : n < 4) :
    toSizeT (wrapInt n) ≠ 4 ∧ ¬ wrapInt n < 0 := by
  rw [wrapInt_of_le (by omega) (by unfold intMax; omega),
    toSizeT_natCast (by unfold intMax; omega)]
  omega

/-- With both header fields received, the announced length decides. -/
theorem readMessage_header {stream stream₁ stream₂ : List ReadAnswer} {value block : List Byte}
    (buffer : List Byte) (length : ℕ)
    (hread₁ : readn stream [0, 0, 0, 0] 4 = .ok (4, stream₁, value))
    (hread₂ : readn stream₁ [0, 0, 0, 0] 4 = .ok (4, stream₂, block)) :
    readMessage stream buffer length =
      if length < ntohl value then .ok (toSizeT (-1), stream₂, buffer)
      else readn stream₂ buffer (ntohl value) >>= fun r =>
        if wrapInt r.1 % 4294967296 ≠ ntohl value then
          .ok (if wrapInt r.1 < 0 then toSizeT (-1) else 0, r.2)
        else .ok (toSizeT (wrapInt r.1), r.2) := by
  have hfour : toSizeT (wrapInt ((4 : ℕ) : ℤ)) = 4 := by decide
  simp only [readMessage, hread₁, hread₂, ok_bind, hfour, ne_eq, not_true_eq_false, ↓reduceIte]

/-- A count within the capacity is the same number in every one of its types. -/
theorem count_conversions {n : ℕ} (h : (n : ℤ) ≤ intMax) :
    wrapInt n = n ∧ (n : ℤ) % 4294967296 = n ∧ toSizeT n = n := by
  refine ⟨wrapInt_of_le (by omega) h, ?_, toSizeT_natCast h⟩
  unfold intMax at h
  omega

theorem readMessage_cases (stream : List ReadAnswer) {buffer : List Byte} {length : ℕ}
    (hlength : (length : ℤ) ≤ intMax) (hroom : length ≤ buffer.length) :
    ∃ taken count stream' buffer', readMessage stream buffer length =
        .ok (count, stream', buffer') ∧
      pending stream = taken ++ pending stream' ∧
      ReadOutcome stream length buffer taken count buffer' := by
  have hfour : toSizeT (wrapInt ((4 : ℕ) : ℤ)) = 4 := by decide
  have hfailed : toSizeT (-1) ≠ 4 := by decide
  -- the length
  obtain ⟨count₁, stream₁, bytes₁, hread₁, hpending₁, hle₁,
    ⟨rfl, hends₁⟩ | ⟨rfl, hlt₁, hends₁⟩ | ⟨rfl, hlen₁, hends₁⟩⟩ := readHeader_cases stream
  · refine ⟨bytes₁, _, stream₁, buffer, ?_, hpending₁, .headerFailed (by omega) (hends₁ 4)⟩
    simp [readMessage, hread₁, wrapInt_failed, hfailed]
  · obtain ⟨hne, hnonneg⟩ := toSizeT_wrapInt_short hlt₁
    refine ⟨bytes₁, _, stream₁, buffer, ?_, hpending₁, .headerEnds (by omega) (hends₁ 4)⟩
    simp [readMessage, hread₁, hne, hnonneg]
  have hvalue : bytes₁ ++ [0, 0, 0, 0].drop bytes₁.length = bytes₁ := by simp [hlen₁]
  rw [hvalue] at hread₁
  -- the type
  obtain ⟨count₂, stream₂, bytes₂, hread₂, hpending₂, hle₂, hcount₂⟩ := readHeader_cases stream₁
  have hpending : pending stream = bytes₁ ++ bytes₂ ++ pending stream₂ := by
    rw [hpending₁, hpending₂, List.append_assoc]
  have hlen : (bytes₁ ++ bytes₂).length = 4 + bytes₂.length := by rw [List.length_append, hlen₁]
  have hends : EndsWithin stream 8 ↔ EndsWithin stream₁ (4 + 0) := hends₁ 4
  rcases hcount₂ with ⟨rfl, hends₂⟩ | ⟨rfl, hlt₂, hends₂⟩ | ⟨rfl, hlen₂, hends₂⟩
  · refine ⟨bytes₁ ++ bytes₂, _, stream₂, buffer, ?_, hpending,
      .headerFailed (by omega) (hends.not.mpr (hends₂ 0))⟩
    simp only [readMessage, hread₁, hread₂, ok_bind, hfour, wrapInt_failed, ne_eq, hfailed,
      not_true_eq_false, not_false_eq_true, ↓reduceIte]
    rfl
  · obtain ⟨hne, hnonneg⟩ := toSizeT_wrapInt_short hlt₂
    refine ⟨bytes₁ ++ bytes₂, _, stream₂, buffer, ?_, hpending,
      .headerEnds (by omega) (hends.mpr (hends₂ 0))⟩
    simp only [readMessage, hread₁, hread₂, ok_bind, hfour, hnonneg, ne_eq, hne,
      not_true_eq_false, not_false_eq_true, ↓reduceIte]
  have hheader : (bytes₁ ++ bytes₂).length = 8 := by omega
  have htake : (bytes₁ ++ bytes₂).take 4 = bytes₁ := List.take_left' hlen₁
  have hmessage := readMessage_header buffer length hread₁ hread₂
  by_cases hlong : length < ntohl bytes₁
  · have hnot : ¬ EndsWithin stream 8 := by
      rw [hends, hends₂]
      exact not_endsWithin_zero stream₂
    refine ⟨bytes₁ ++ bytes₂, _, stream₂, buffer, ?_, hpending,
      .tooLong hheader (by rwa [htake]) hnot⟩
    rw [hmessage, if_pos hlong]
  -- the body
  have hfits : ntohl ((bytes₁ ++ bytes₂).take 4) ≤ length := by rw [htake]; exact not_lt.mp hlong
  rw [if_neg hlong, ← htake] at hmessage
  generalize bytes₁ ++ bytes₂ = header at hpending hheader hfits hmessage
  obtain ⟨count₃, stream₃, body, hread₃, hpending₃, hle₃, hcount₃⟩ :=
    readn_cases stream₂ buffer (n := ntohl (header.take 4)) (by omega) (by omega)
  rw [hread₃, ok_bind] at hmessage
  refine ⟨header ++ body, ?_⟩
  rw [hpending, hpending₃, ← List.append_assoc]
  have hmax : (ntohl (header.take 4) : ℤ) ≤ intMax := by omega
  obtain ⟨hcount, hunsigned, hsize⟩ := count_conversions (n := body.length) (by omega)
  rcases hcount₃ with rfl | rfl
  · have hne : (-1 : ℤ) % 4294967296 ≠ ntohl (header.take 4) := by
      unfold intMax at hmax
      omega
    simp only [wrapInt_failed, hne, ne_eq, not_false_eq_true, ↓reduceIte] at hmessage
    exact ⟨_, _, _, hmessage, rfl, .bodyFailed hheader hfits hle₃⟩
  · simp only [hcount, hunsigned, hsize, ne_eq, Nat.cast_inj] at hmessage
    rcases hle₃.lt_or_eq with hlt₃ | heq₃
    · rw [if_pos hlt₃.ne, if_neg (Int.natCast_nonneg _).not_gt] at hmessage
      exact ⟨_, _, _, hmessage, rfl, .bodyEnds hheader hfits hlt₃⟩
    · rw [if_neg (not_not.mpr heq₃)] at hmessage
      exact ⟨_, _, _, hmessage, rfl, .complete hheader (heq₃.trans_le hfits) heq₃⟩

/-! ### Safety -/

section

variable {stream : List ReadAnswer} {length count : ℕ} {buffer taken buffer' : List Byte}

theorem ReadOutcome.inBounds (h : ReadOutcome stream length buffer taken count buffer')
    (hroom : length ≤ buffer.length) :
    buffer'.length = buffer.length ∧ buffer'.drop length = buffer.drop length := by
  have hstored (body : List Byte) (hbody : body.length ≤ length) :
      (body ++ buffer.drop body.length).length = buffer.length ∧
        (body ++ buffer.drop body.length).drop length = buffer.drop length := by
    refine ⟨by rw [List.length_append, List.length_drop]; omega, ?_⟩
    rw [List.drop_append, List.drop_of_length_le hbody, List.drop_drop, List.nil_append,
      Nat.add_sub_cancel' hbody]
  cases h with
  | headerFailed | headerEnds | tooLong => exact ⟨rfl, rfl⟩
  | bodyFailed _ hfits hbody => exact hstored _ (hbody.trans hfits)
  | bodyEnds _ hfits hbody => exact hstored _ (hbody.le.trans hfits)
  | complete _ hfits _ => exact hstored _ hfits

theorem ReadOutcome.result (h : ReadOutcome stream length buffer taken count buffer')
    (hlength : (length : ℤ) ≤ intMax) :
    wrapInt count = -1 ∨ 0 ≤ wrapInt count ∧ wrapInt count ≤ length := by
  have hzero : wrapInt ((0 : ℕ) : ℤ) = 0 := by decide
  cases h with
  | headerFailed | tooLong | bodyFailed => exact .inl wrapInt_failed
  | headerEnds | bodyEnds => exact .inr (by rw [hzero]; omega)
  | complete _ hfits _ =>
    rw [(count_conversions (by omega)).1]
    exact .inr (by omega)

/-- A positive count is that of a complete message. -/
theorem ReadOutcome.announced (h : ReadOutcome stream length buffer taken count buffer')
    (hlength : (length : ℤ) ≤ intMax) (hpos : 0 < wrapInt count) :
    ∃ header body, taken = header ++ body ∧ header.length = 8 ∧
      wrapInt count = ntohl (header.take 4) ∧ body.length = ntohl (header.take 4) ∧
      buffer'.take body.length = body := by
  have hzero : wrapInt ((0 : ℕ) : ℤ) = 0 := by decide
  cases h with
  | headerFailed | tooLong | bodyFailed =>
    rw [wrapInt_failed] at hpos
    exact absurd hpos (by decide)
  | headerEnds | bodyEnds =>
    rw [hzero] at hpos
    exact absurd hpos (lt_irrefl 0)
  | @complete header body hheader hfits hbody =>
    refine ⟨header, body, rfl, hheader, ?_, hbody, List.take_left' rfl⟩
    rw [(count_conversions (by omega)).1, hbody]

/-- A length beyond the capacity leaves the buffer alone, and the result says whether the
stream ends within the header. -/
theorem ReadOutcome.beyond (h : ReadOutcome stream length buffer taken count buffer')
    {value rest tail : List Byte} (hbytes : taken ++ tail = value ++ rest)
    (hvalue : value.length = 4)
    (hlong : length < ntohl value) :
    buffer' = buffer ∧ (EndsWithin stream 8 ∧ wrapInt count = 0 ∧ taken.length < 8 ∨
      ¬ EndsWithin stream 8 ∧ wrapInt count = -1) := by
  have hfield {header body : List Byte} (hheader : header.length = 8)
      (heq : header ++ body ++ tail = value ++ rest) : header.take 4 = value := by
    have htake := congrArg (List.take 4) heq
    rwa [List.append_assoc, List.take_append_of_le_length (by omega), List.take_left' hvalue]
      at htake
  cases h with
  | headerFailed _ hends | tooLong _ _ hends => exact ⟨rfl, .inr ⟨hends, wrapInt_failed⟩⟩
  | headerEnds hlen hends => exact ⟨rfl, .inl ⟨hends, by decide, hlen⟩⟩
  | bodyFailed hheader hfits | bodyEnds hheader hfits =>
    rw [hfield hheader hbytes] at hfits
    exact absurd hlong hfits.not_gt
  | complete hheader hfits hbody =>
    rw [hbody, hfield hheader hbytes] at hfits
    exact absurd hlong hfits.not_gt

end

/-- On any stream `read_message` stores within the capacity, returns -1 or a count up to
it, and a positive count is the announced length of a body that is in the buffer. A length
beyond the capacity leaves the buffer alone and gives 0 where the stream ends within the
eight bytes of the header, else -1. The server's `NUL` is within its block. -/
theorem read_message_safe (stream : List ReadAnswer) {buffer : List Byte} {length : ℕ}
    (hlength : (length : ℤ) ≤ intMax) (hroom : length ≤ buffer.length) :
    ∃ taken count stream' buffer', readMessage stream buffer length =
        .ok (count, stream', buffer') ∧
      pending stream = taken ++ pending stream' ∧
      (buffer'.length = buffer.length ∧ buffer'.drop length = buffer.drop length) ∧
      (wrapInt count = -1 ∨ 0 ≤ wrapInt count ∧ wrapInt count ≤ length) ∧
      (0 < wrapInt count → ∃ header body, taken = header ++ body ∧ header.length = 8 ∧
        wrapInt count = ntohl (header.take 4) ∧ body.length = ntohl (header.take 4) ∧
        buffer'.take body.length = body) ∧
      (∀ value rest, pending stream = value ++ rest → value.length = 4 → length < ntohl value →
        buffer' = buffer ∧ (EndsWithin stream 8 ∧ wrapInt count = 0 ∧ taken.length < 8 ∨
          ¬ EndsWithin stream 8 ∧ wrapInt count = -1)) ∧
      (buffer.length = length + 1 → 0 ≤ wrapInt count →
        ∃ block, store buffer' (wrapInt count) [0] = .ok block) := by
  obtain ⟨taken, count, stream', buffer', hcall, hpending, h⟩ :=
    readMessage_cases stream hlength hroom
  have hresult := h.result hlength
  refine ⟨taken, count, stream', buffer', hcall, hpending, h.inBounds hroom, hresult,
    h.announced hlength, ?_, ?_⟩
  · intro value rest hbytes
    exact h.beyond (hpending.symm.trans hbytes)
  · intro hblock hnonneg
    obtain ⟨n, hn⟩ : ∃ n : ℕ, wrapInt count = n := ⟨(wrapInt count).toNat, by omega⟩
    rw [hn]
    exact ⟨_, store_one buffer' (by rw [(h.inBounds hroom).1]; omega) 0⟩

/-- A length of five for a buffer of four, and the connection reset behind it. -/
theorem read_message_safe_reset :
    ∃ count stream' buffer', readMessage
        [.offered [0, 0], .failed .eintr, .offered [0, 5], .failed .econnreset] [9, 9, 9, 9, 9] 4 =
          .ok (count, stream', buffer') ∧
      buffer' = [9, 9, 9, 9, 9] ∧ wrapInt count = -1 := by
  obtain ⟨taken, count, stream', buffer', hcall, -, -, -, -, hbeyond, -⟩ := read_message_safe
    [.offered [0, 0], .failed .eintr, .offered [0, 5], .failed .econnreset]
    (show ((4 : ℕ) : ℤ) ≤ intMax by decide) (show 4 ≤ [9, 9, 9, 9, 9].length by decide)
  obtain ⟨hbuffer, hresult⟩ := hbeyond [0, 0, 0, 5] [] rfl rfl (by decide)
  refine ⟨count, stream', buffer', hcall, hbuffer, ?_⟩
  rcases hresult with ⟨hends, -⟩ | ⟨-, hcount⟩
  · exact absurd hends (by simp [EndsWithin])
  · exact hcount

/-- A length of five for a buffer of four, and the end of the stream behind it: the
result is 0. -/
theorem read_message_too_long_ends :
    ∃ stream', readMessage [.offered [0, 0, 0, 5]] [9, 9, 9, 9] 4 =
      .ok (0, stream', [9, 9, 9, 9]) := by
  have hsteady : Steady [.offered [0, 0, 0, 5]] := by simp [Steady]
  obtain ⟨stream₁, hread₁, hsteady₁, hpending₁⟩ :=
    readn_spec hsteady [0, 0, 0, 0] (n := 4) (by decide) le_rfl
  obtain ⟨stream₂, hread₂, -, -⟩ :=
    readn_spec hsteady₁ [0, 0, 0, 0] (n := 4) (by decide) le_rfl
  have hnone : pending stream₁ = [] := hpending₁
  have hzero : toSizeT (wrapInt ((0 : ℕ) : ℤ)) ≠ 4 ∧ ¬ wrapInt ((0 : ℕ) : ℤ) < 0 := by decide
  have hfour : toSizeT (wrapInt ((4 : ℕ) : ℤ)) = 4 := by decide
  rw [hnone, List.take_nil, List.length_nil] at hread₂
  change readn _ _ 4 = .ok (4, stream₁, [0, 0, 0, 5]) at hread₁
  refine ⟨stream₂, ?_⟩
  simp only [readMessage, hread₁, hread₂, ok_bind, hfour, hzero.2, ne_eq, hzero.1,
    not_true_eq_false, not_false_eq_true, ↓reduceIte]

end OsProgramming.Stream
