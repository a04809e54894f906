import OsProgramming.Library.Lines
import OsProgramming.Stream.BlockingRead

/-! The two line readers of `read.c`. The loops are given as much fuel as they have
iterations. -/

namespace OsProgramming.Stream

open Library Reactor

def newline : Byte := 10
def carriageReturn : Byte := 13

/-- `recv` of one byte with `MSG_PEEK`. -/
def peek : List ReadAnswer → ReadAnswer × List ReadAnswer
  | [] => (.offered [], [])
  | .failed errno :: stream => (.failed errno, stream)
  | .offered bytes :: stream => (.offered (bytes.take 1), .offered bytes :: stream)

/-- What is done on a CR: its LF is received too, if it is the next byte. -/
def skipNewline (stream : List ReadAnswer) : List ReadAnswer :=
  match peek stream with
  | (.offered (byte :: _), stream) => if byte = newline then (read 1 stream).2 else stream
  | (_, stream) => stream

/-- `length - 1` is a `size_t`, and so is `count_up` when it is compared with it. -/
def readLineLoop (length : ℕ) : ℕ → List ReadAnswer → List Byte → ℤ → Byte →
    Result (ℤ × List ReadAnswer × List Byte)
  | 0, _, _, _, _ => .error .divergence
  | fuel + 1, stream, buffer, countUp, c =>
    if toSizeT countUp < toSizeT (length - 1) ∧ c ≠ newline then
      match read 1 stream with
      | (.offered (byte :: _), stream) => do
        let stream := if byte = carriageReturn then skipNewline stream else stream
        let c := if byte = carriageReturn then newline else byte
        let buffer ← store buffer countUp [c]
        readLineLoop length fuel stream buffer (wrapInt (countUp + 1)) c
      | (_, stream) => readLineLoop length fuel stream buffer countUp newline
    else .ok (countUp, stream, buffer)

def readLine (length : ℕ) (stream : List ReadAnswer) (buffer : List Byte) :
    Result (ℕ × List ReadAnswer × List Byte) := do
  let (countUp, stream, buffer) ← readLineLoop length (toSizeT (length - 1) + 2) stream buffer 0 0
  let buffer ← store buffer countUp [0]
  .ok (toSizeT countUp, stream, buffer)

/-- The static buffer is filled if `n_left`, the number of bytes that are ready in it,
is 0. -/
def refill (ready : List Byte) (stream : List ReadAnswer) : ReadAnswer × List ReadAnswer :=
  if ready = [] then read 512 stream else (.offered ready, stream)

def readLineBufferedLoop : ℕ → List ReadAnswer → List Byte → List Byte → ℕ → ℕ →
    Result (ℕ × List ReadAnswer × List Byte)
  | 0, _, _, _, _, _ => .error .divergence
  | fuel + 1, stream, ready, buffer, pointer, length =>
    let length := toSizeT (length - 1)
    if 0 < length then
      match refill ready stream with
      | (.failed errno, stream) =>
        if errno = .eintr then readLineBufferedLoop fuel stream ready buffer pointer (length + 1)
        else .ok (toSizeT (-1), stream, buffer)
      | (.offered [], stream) => .ok (0, stream, buffer)
      | (.offered (c :: ready), stream) => do
        let buffer ← store buffer pointer [c]
        if c = newline then do
          let buffer ← store buffer (pointer + 1) [0]
          .ok (pointer + 1, stream, buffer)
        else readLineBufferedLoop fuel stream ready buffer (pointer + 1) length
    else .ok (toSizeT (-1), stream, buffer)

/-- `n_left` is 0 in the beginning of each call, so nothing that the static buffer still
holds is ever ready. -/
def readLineBuffered (length : ℕ) (stream : List ReadAnswer) (buffer : List Byte) :
    Result (ℕ × List ReadAnswer × List Byte) :=
  readLineBufferedLoop (toSizeT (length - 1) + stream.length + 1) stream [] buffer 0 length

/-- The lines that call after call gives, up to the first that returns 0 or -1. -/
inductive Lines (call : List ReadAnswer → List Byte → Result (ℕ × List ReadAnswer × List Byte)) :
    List ReadAnswer → List Byte → List (List Byte) → Prop where
  | stop {stream stream' : List ReadAnswer} {buffer buffer' : List Byte} {count : ℕ}
      (hcall : call stream buffer = .ok (count, stream', buffer'))
      (hcount : count = 0 ∨ count = toSizeT (-1)) : Lines call stream buffer []
  | line {stream stream' : List ReadAnswer} {buffer buffer' : List Byte} {count : ℕ}
      {lines : List (List Byte)} (hcall : call stream buffer = .ok (count, stream', buffer'))
      (hcount : count ≠ 0 ∧ count ≠ toSizeT (-1)) (hlines : Lines call stream' buffer' lines) :
      Lines call stream buffer (buffer'.take count :: lines)

/-! ### The plain reader -/

variable {stream : List ReadAnswer} {buffer : List Byte} {length : ℕ}

theorem newline_ne : carriageReturn ≠ newline := by decide

theorem peek_eq (h : Uninterrupted stream) {byte : Byte} {bytes : List Byte}
    (hbytes : pending stream = byte :: bytes) : peek stream = (.offered [byte], stream) := by
  match stream with
  | [] => cases hbytes
  | answer :: stream =>
    obtain ⟨arrived, hne, rfl⟩ := h answer List.mem_cons_self
    match arrived with
    | byte' :: arrived =>
      obtain ⟨rfl, -⟩ := List.cons.inj hbytes
      rfl

theorem skipNewline_spec (h : Uninterrupted stream) :
    Uninterrupted (skipNewline stream) ∧ pending (skipNewline stream) =
      if (pending stream).head? = some newline then (pending stream).tail else pending stream := by
  cases hbytes : pending stream with
  | nil =>
    obtain rfl := h.eq_nil hbytes
    exact ⟨h, rfl⟩
  | cons byte bytes =>
    obtain ⟨stream', hread, h', hpending⟩ := h.read_one hbytes
    by_cases hbyte : byte = newline
    · simp only [skipNewline, peek_eq h hbytes, hbyte, ↓reduceIte, hread, List.head?_cons,
        List.tail_cons]
      exact ⟨h', hpending⟩
    · simp only [skipNewline, peek_eq h hbytes, hbyte, ↓reduceIte, List.head?_cons,
        Option.some.injEq]
      exact ⟨h, hbytes⟩

theorem readLineLoop_newline {fuel : ℕ} {countUp : ℤ} :
    readLineLoop length (fuel + 1) stream buffer countUp newline =
      .ok (countUp, stream, buffer) := by
  rw [readLineLoop, if_neg (fun h => h.2 rfl)]

/-- One byte that is there, with room for it. -/
theorem readLineLoop_byte {fuel : ℕ} {countUp : ℤ} {c byte : Byte} {stream' : List ReadAnswer}
    (hc : c ≠ newline) (hlt : toSizeT countUp < toSizeT (length - 1))
    (hread : read 1 stream = (.offered [byte], stream')) :
    readLineLoop length (fuel + 1) stream buffer countUp c =
      store buffer countUp [if byte = carriageReturn then newline else byte] >>= fun buffer =>
        readLineLoop length fuel (if byte = carriageReturn then skipNewline stream' else stream')
          buffer (wrapInt (countUp + 1)) (if byte = carriageReturn then newline else byte) := by
  rw [readLineLoop, if_pos ⟨hlt, hc⟩, hread]

/-- A byte, or nothing more on this call. -/
theorem read_one_cases (stream : List ReadAnswer) :
    (∃ byte stream', read 1 stream = (.offered [byte], stream') ∧
        arriving false stream = byte :: arriving false stream') ∨
      arriving false stream = [] ∧ ∀ byte bytes, (read 1 stream).1 ≠ .offered (byte :: bytes) := by
  rcases read_arriving false stream Nat.one_pos with
    ⟨byte, bytes, stream', hread, harriving⟩ | ⟨stream', hread, harriving⟩ | ⟨errno, stream', rfl⟩
  · have hlen := length_read hread
    obtain rfl : bytes = [] := List.length_eq_zero_iff.mp (by simpa using hlen)
    exact .inl ⟨byte, stream', hread, harriving⟩
  · exact .inr ⟨harriving, by rw [hread]; nofun⟩
  · exact .inr ⟨rfl, nofun⟩

theorem readLineLoop_end {fuel : ℕ} {countUp : ℤ} {c : Byte} :
    readLineLoop length (fuel + 2) [] buffer countUp c = .ok (countUp, [], buffer) := by
  rw [readLineLoop]
  split_ifs
  · exact readLineLoop_newline
  · rfl

/-- The byte that ends a line, and the LF of a CR. -/
theorem firstLine_end (h : Uninterrupted stream) {byte : Byte}
    (hend : byte = newline ∨ byte = carriageReturn) :
    (if byte = carriageReturn then newline else byte) = newline ∧
      Uninterrupted (if byte = carriageReturn then skipNewline stream else stream) ∧
      firstLine carriageReturn newline (byte :: pending stream) = ([newline],
        pending (if byte = carriageReturn then skipNewline stream else stream)) := by
  obtain ⟨hskip, hpending⟩ := skipNewline_spec h
  rcases hend with rfl | rfl
  · simp [newline_ne.symm, firstLine, h]
  · simp [newline_ne, firstLine, hskip, hpending]

theorem length_firstLine_of_end {byte : Byte} (hend : byte = newline ∨ byte = carriageReturn)
    (bytes : List Byte) : (firstLine carriageReturn newline (byte :: bytes)).1.length = 1 := by
  rcases hend with rfl | rfl
  · simp [firstLine]
  · simp [firstLine, newline_ne]

theorem toSizeT_lt {countUp : ℕ} (hlength : length < 18446744073709551616)
    (hlt : countUp + 1 < length) (hcount : (countUp : ℤ) ≤ intMax) :
    toSizeT countUp < toSizeT (length - 1) := by
  unfold toSizeT
  unfold intMax at hcount
  omega

theorem readLineLoop_full {fuel countUp : ℕ} {c : Byte} (hlength : countUp + 1 = length) :
    readLineLoop length (fuel + 1) stream buffer countUp c = .ok (countUp, stream, buffer) := by
  have hlast : (length : ℤ) - 1 = countUp := by omega
  rw [readLineLoop, hlast, if_neg (fun h => lt_irrefl _ h.1)]

/-- `count_up` bytes of the line are in the buffer, and there is room for `budget` more,
not counting the NUL. -/
theorem readLineLoop_cut {fuel countUp budget : ℕ} {c : Byte} {line rest : List Byte}
    (h : Uninterrupted stream) (hlength : length < 18446744073709551616)
    (hroom : length ≤ buffer.length) (hc : c ≠ newline) (hbudget : countUp + budget + 1 = length)
    (hcut : cutLine carriageReturn newline budget (pending stream) = (line, rest))
    (hfuel : line.length + 2 ≤ fuel) (hmax : ((countUp + line.length : ℕ) : ℤ) ≤ intMax) :
    ∃ stream', readLineLoop length fuel stream buffer countUp c =
        .ok ((countUp + line.length : ℕ), stream',
          buffer.take countUp ++ line ++ buffer.drop (countUp + line.length)) ∧
      Uninterrupted stream' ∧ pending stream' = rest := by
  obtain ⟨fuel, rfl⟩ : ∃ n, fuel = n + 2 := ⟨fuel - 2, by omega⟩
  induction budget generalizing stream buffer fuel countUp c line with
  | zero =>
    cases hcut
    rw [readLineLoop_full hbudget]
    exact ⟨stream, by simp, h, rfl⟩
  | succ budget ih =>
    cases hbytes : pending stream with
    | nil =>
      obtain rfl := h.eq_nil hbytes
      cases hcut
      exact ⟨[], by simp [readLineLoop_end], h, rfl⟩
    | cons byte bytes =>
      obtain ⟨stream', hread, h', rfl⟩ := h.read_one hbytes
      have hlt : countUp < buffer.length := by omega
      have hpos : 0 < line.length := by
        have hlt : 0 < (cutLine carriageReturn newline (budget + 1)
            (byte :: pending stream')).1.length := (cutLine_lt budget byte (pending stream')).1
        rwa [← hbytes, hcut] at hlt
      rw [hbytes] at hcut
      rw [readLineLoop_byte hc (toSizeT_lt hlength (by omega) (by omega)) hread,
        store_one buffer hlt, ok_bind, wrapInt_succ (by omega)]
      by_cases hend : byte = newline ∨ byte = carriageReturn
      · obtain ⟨hc', hstream, hfirst⟩ := firstLine_end h' hend
        rw [cutLine_of_end hend, hfirst] at hcut
        cases hcut
        rw [hc', readLineLoop_newline, List.set_eq_take_append_cons_drop, if_pos hlt,
          List.append_assoc]
        exact ⟨_, rfl, hstream, rfl⟩
      · rw [not_or] at hend
        rw [cutLine_of_middle hend.1 hend.2] at hcut
        cases hcut
        rw [List.length_cons] at hfuel hmax
        have hroom' : length ≤ (buffer.set countUp byte).length := by rwa [List.length_set]
        have hbudget' : countUp + 1 + budget + 1 = length := by omega
        have hmax' : ((countUp + 1 + (cutLine carriageReturn newline budget
            (pending stream')).1.length : ℕ) : ℤ) ≤ intMax := by omega
        obtain ⟨fuel, rfl⟩ : ∃ n, fuel = n + 1 := ⟨fuel - 1, by omega⟩
        obtain ⟨stream'', hloop, h'', hpending⟩ :=
          ih h' hroom' hend.1 hbudget' rfl hmax' fuel (by omega)
        refine ⟨stream'', ?_, h'', hpending⟩
        rw [if_neg hend.2, if_neg hend.2, hloop, List.length_cons, take_succ_set hlt,
          List.drop_set_of_lt (by omega), Nat.add_right_comm countUp 1, Nat.add_assoc countUp,
          List.append_assoc (buffer.take countUp), List.singleton_append]

/-- Once `count_up` is negative, it stays so. -/
theorem readLineLoop_negative {fuel : ℕ} {countUp countUp' : ℤ} {c : Byte}
    {stream' : List ReadAnswer} {buffer' : List Byte} (hneg : countUp < 0)
    (hloop : readLineLoop length fuel stream buffer countUp c = .ok (countUp', stream', buffer')) :
    countUp' < 0 := by
  induction fuel generalizing stream c with
  | zero => cases hloop
  | succ fuel ih =>
    rw [readLineLoop] at hloop
    split_ifs at hloop
    · split at hloop
      · obtain ⟨buffer₁, hstore, -⟩ := bind_eq_ok.mp hloop
        rw [store, if_neg (by omega)] at hstore
        cases hstore
      · exact ih hloop
    · cases hloop
      exact hneg

/-- A line of which more than fits in an `int` is taken makes `count_up` negative. -/
theorem readLineLoop_overflow {fuel countUp budget : ℕ} {countUp' : ℤ} {c : Byte}
    {stream' : List ReadAnswer} {buffer' : List Byte} (hlength : length < 18446744073709551616)
    (hc : c ≠ newline) (hbudget : countUp + budget + 1 = length) (hcount : (countUp : ℤ) ≤ intMax)
    (hmax : intMax < (countUp +
      (cutLine carriageReturn newline budget (arriving false stream)).1.length : ℕ))
    (hloop : readLineLoop length fuel stream buffer countUp c =
      .ok (countUp', stream', buffer')) : countUp' < 0 := by
  induction budget generalizing stream buffer fuel countUp c with
  | zero =>
    rw [cutLine] at hmax
    simp only [List.length_nil, Nat.add_zero] at hmax
    omega
  | succ budget ih =>
    cases fuel with
    | zero => cases hloop
    | succ fuel =>
      rcases read_one_cases stream with ⟨byte, stream₁, hread, harriving⟩ | ⟨harriving, -⟩
      · rw [harriving] at hmax
        rw [readLineLoop_byte hc (toSizeT_lt hlength (by omega) hcount) hread] at hloop
        obtain ⟨buffer₁, -, hloop⟩ := bind_eq_ok.mp hloop
        by_cases hfull : (countUp : ℤ) = intMax
        · rw [hfull] at hloop
          exact readLineLoop_negative (by decide) hloop
        by_cases hend : byte = newline ∨ byte = carriageReturn
        · -- the line ends here, before the limit
          rw [cutLine_of_end hend, length_firstLine_of_end hend] at hmax
          push_cast at hmax
          omega
        · rw [not_or] at hend
          rw [cutLine_of_middle hend.1 hend.2, List.length_cons] at hmax
          rw [if_neg hend.2, if_neg hend.2, wrapInt_succ (by omega)] at hloop
          exact ih hend.1 (by omega) (by omega) (by push_cast at *; omega) hloop
      · rw [harriving, cutLine] at hmax
        simp only [List.length_nil, Nat.add_zero] at hmax
        omega

/-- The loop has as much fuel as its iterations. -/
theorem readLine_fuel (hpos : 0 < length) (hlength : length < 18446744073709551616) :
    toSizeT (length - 1) + 2 = length + 1 := by
  unfold toSizeT
  omega

/-- A call of `read_line` on a stream that blocks: the next line, cut where the NUL has
to be. -/
theorem readLine_cut {line rest : List Byte} (h : Uninterrupted stream) (hpos : 0 < length)
    (hlength : length < 18446744073709551616) (hroom : length ≤ buffer.length)
    (hcut : cutLine carriageReturn newline (length - 1) (pending stream) = (line, rest))
    (hmax : (line.length : ℤ) ≤ intMax) :
    ∃ stream' buffer', readLine length stream buffer = .ok (line.length, stream', buffer') ∧
      buffer'.take line.length = line ∧ buffer'[line.length]? = some 0 ∧
      buffer'.length = buffer.length ∧ Uninterrupted stream' ∧ pending stream' = rest := by
  have hle : line.length ≤ length - 1 := by
    have hle : (cutLine carriageReturn newline (length - 1) (pending stream)).1.length ≤
        length - 1 := length_cutLine_le (length - 1) (pending stream)
    rwa [hcut] at hle
  obtain ⟨stream', hloop, h', hpending⟩ :
      ∃ stream', readLineLoop length (length + 1) stream buffer (0 : ℕ) 0 = _ ∧ _ ∧ _ :=
    readLineLoop_cut h hlength hroom (by decide) (by omega) hcut (by omega)
      (by rw [Nat.zero_add]; exact hmax)
  simp only [Nat.zero_add, Nat.cast_zero, List.take_zero, List.nil_append] at hloop
  have hlen : (line ++ buffer.drop line.length).length = buffer.length := by
    simp only [List.length_append, List.length_drop]
    omega
  have hlt : line.length < (line ++ buffer.drop line.length).length := by omega
  refine ⟨stream', (line ++ buffer.drop line.length).set line.length 0, ?_, ?_, ?_, ?_, h',
    hpending⟩
  · simp only [readLine, readLine_fuel hpos hlength, hloop, store_one _ hlt, ok_bind,
      toSizeT_natCast hmax]
  · rw [List.take_set_of_le le_rfl, List.take_left' rfl]
  · rw [List.getElem?_set_self hlt]
  · rw [List.length_set, hlen]

/-- A line that fits in the buffer and in an `int` is not cut. -/
theorem readLine_spec (h : Uninterrupted stream) (hlength : length < 18446744073709551616)
    (hroom : length ≤ buffer.length)
    (hfit : (firstLine carriageReturn newline (pending stream)).1.length < length)
    (hmax : ((firstLine carriageReturn newline (pending stream)).1.length : ℤ) ≤ intMax) :
    ∃ stream' buffer', readLine length stream buffer =
        .ok ((firstLine carriageReturn newline (pending stream)).1.length, stream', buffer') ∧
      buffer'.take (firstLine carriageReturn newline (pending stream)).1.length =
        (firstLine carriageReturn newline (pending stream)).1 ∧
      buffer'.length = buffer.length ∧ Uninterrupted stream' ∧
      pending stream' = (firstLine carriageReturn newline (pending stream)).2 := by
  have hcut : cutLine carriageReturn newline (length - 1) (pending stream) =
      firstLine carriageReturn newline (pending stream) := cutLine_of_length_le (by omega)
  obtain ⟨stream', buffer', hcall, htake, -, hrest⟩ :=
    readLine_cut h (by omega) hlength hroom hcut hmax
  exact ⟨stream', buffer', hcall, htake, hrest⟩

/-- A call that returns has taken no more than fits in an `int`. -/
theorem readLine_le_intMax {count : ℕ} {stream' : List ReadAnswer} {buffer' : List Byte}
    (hpos : 0 < length) (hlength : length < 18446744073709551616)
    (hcall : readLine length stream buffer = .ok (count, stream', buffer')) :
    ((cutLine carriageReturn newline (length - 1) (arriving false stream)).1.length : ℤ) ≤
      intMax := by
  by_contra hmax
  obtain ⟨⟨countUp, stream₁, buffer₁⟩, hloop, hcall⟩ := bind_eq_ok.mp hcall
  change readLineLoop length _ stream buffer (0 : ℕ) 0 = _ at hloop
  have hbudget : 0 + (length - 1) + 1 = length := by omega
  have hneg : countUp < 0 := readLineLoop_overflow hlength (by decide) hbudget (by decide)
    (by rw [Nat.zero_add]; omega) hloop
  obtain ⟨buffer₂, hstore, -⟩ := bind_eq_ok.mp hcall
  rw [store, if_neg (by omega)] at hstore
  cases hstore

theorem readLine_overflow {count : ℕ} {stream' : List ReadAnswer} {buffer' : List Byte}
    (h : Uninterrupted stream) (hlength : length < 18446744073709551616)
    (hfit : (firstLine carriageReturn newline (pending stream)).1.length < length)
    (hcall : readLine length stream buffer = .ok (count, stream', buffer')) :
    ((firstLine carriageReturn newline (pending stream)).1.length : ℤ) ≤ intMax := by
  have hmax := readLine_le_intMax (by omega) hlength hcall
  rwa [h.arriving_eq, cutLine_of_length_le (by omega)] at hmax

/-- No such result is -1. -/
theorem ne_minusOne {count : ℕ} (h : (count : ℤ) ≤ intMax) : count ≠ toSizeT (-1) := by
  have hminus : toSizeT (-1) = 18446744073709551615 := by decide
  unfold intMax at h
  omega

theorem firstLine_length_lt (hpos : 0 < length) {bytes : List Byte}
    (hfit : ∀ line ∈ lines carriageReturn newline false [] bytes, line.length < length) :
    (firstLine carriageReturn newline bytes).1.length < length := by
  match bytes with
  | [] => exact hpos
  | byte :: bytes =>
    apply hfit
    rw [lines_cons newline_ne]
    exact List.mem_cons_self

/-- The calls of `read_line` give the lines of the stream, as long as they fit in an
`int`. -/
theorem readLine_lines (h : Uninterrupted stream) (hlength : length < 18446744073709551616)
    (hpos : 0 < length) (hroom : length ≤ buffer.length)
    (hfit : ∀ line ∈ lines carriageReturn newline false [] (pending stream), line.length < length)
    (hmax : ∀ line ∈ lines carriageReturn newline false [] (pending stream),
      (line.length : ℤ) ≤ intMax) :
    Lines (readLine length) stream buffer
      (lines carriageReturn newline false [] (pending stream)) := by
  induction hsize : (pending stream).length using Nat.strong_induction_on
    generalizing stream buffer with
  | _ size ih =>
    subst hsize
    have hfirst := firstLine_length_lt hpos hfit
    cases hbytes : pending stream with
    | nil =>
      rw [hbytes] at hfirst
      obtain ⟨stream', buffer', hcall, -⟩ := readLine_spec h hlength hroom (by rwa [hbytes])
        (by rw [hbytes]; decide)
      refine .stop hcall (.inl ?_)
      rw [hbytes]
      rfl
    | cons byte bytes =>
      rw [hbytes] at hfit hmax hfirst
      rw [lines_cons newline_ne] at hfit hmax ⊢
      have hint := hmax _ List.mem_cons_self
      have hlt : 0 < (firstLine carriageReturn newline (byte :: bytes)).1.length ∧ _ :=
        firstLine_lt byte bytes
      obtain ⟨stream', buffer', hcall, htake, hlen, h', hpending⟩ :=
        readLine_spec h hlength hroom (by rwa [hbytes]) (by rw [hbytes]; exact hint)
      rw [hbytes] at hcall htake hpending
      have hrest := ih _ (by rw [hpending, hbytes]; exact hlt.2) h' (hlen ▸ hroom)
        (fun line hmem => hfit line (List.mem_cons_of_mem _ (hpending ▸ hmem)))
        (fun line hmem => hmax line (List.mem_cons_of_mem _ (hpending ▸ hmem))) rfl
      rw [hpending] at hrest
      rw [List.nil_append]
      nth_rewrite 1 [← htake]
      exact .line hcall ⟨by omega, ne_minusOne hint⟩ hrest

/-- They give no others. -/
theorem lines_of_readLine {found : List (List Byte)} (h : Uninterrupted stream)
    (hlength : length < 18446744073709551616) (hpos : 0 < length) (hroom : length ≤ buffer.length)
    (hfit : ∀ line ∈ lines carriageReturn newline false [] (pending stream), line.length < length)
    (hfound : Lines (readLine length) stream buffer found) :
    found = lines carriageReturn newline false [] (pending stream) ∧
      ∀ line ∈ found, (line.length : ℤ) ≤ intMax := by
  induction hfound with
  | @stop stream stream' buffer buffer' count hcall hcount =>
    have hfirst := firstLine_length_lt hpos hfit
    have hint := readLine_overflow h hlength hfirst hcall
    obtain ⟨stream'', buffer'', hcall', -⟩ := readLine_spec h hlength hroom hfirst hint
    cases hcall.symm.trans hcall'
    cases hbytes : pending stream with
    | nil => exact ⟨rfl, nofun⟩
    | cons byte bytes =>
      rw [hbytes] at hcount hint
      have hlt : 0 < (firstLine carriageReturn newline (byte :: bytes)).1.length ∧ _ :=
        firstLine_lt byte bytes
      exact absurd hcount (not_or.mpr ⟨by omega, ne_minusOne hint⟩)
  | @line stream stream' buffer buffer' count rest hcall hcount _ ih =>
    have hfirst := firstLine_length_lt hpos hfit
    have hint := readLine_overflow h hlength hfirst hcall
    obtain ⟨stream'', buffer'', hcall', htake, hlen, h', hpending⟩ :=
      readLine_spec h hlength hroom hfirst hint
    cases hcall.symm.trans hcall'
    cases hbytes : pending stream with
    | nil =>
      rw [hbytes] at hcount
      exact absurd rfl hcount.1
    | cons byte bytes =>
      rw [hbytes] at hfit hpending hint htake
      rw [lines_cons newline_ne] at hfit ⊢
      obtain ⟨rfl, hrest⟩ := ih h' (hlen ▸ hroom)
        (fun line hmem => hfit line (List.mem_cons_of_mem _ (hpending ▸ hmem)))
      rw [htake, hpending]
      refine ⟨rfl, ?_⟩
      intro line hmem
      rcases List.mem_cons.mp hmem with rfl | hmem
      · exact hint
      · exact hrest line (hpending ▸ hmem)

/-! ### The reader with a buffer -/

/-- What a call finds, chunk by chunk. -/
def chunks : List ReadAnswer → List (List Byte)
  | [] => []
  | .failed _ :: stream => chunks stream
  | .offered bytes :: stream => bytes :: chunks stream

/-- No more arrives together than the static buffer holds. -/
def Bounded (stream : List ReadAnswer) : Prop :=
  ∀ bytes, .offered bytes ∈ stream → bytes.length ≤ 512

theorem chunks_flatten (stream : List ReadAnswer) : (chunks stream).flatten = pending stream := by
  induction stream with
  | nil => rfl
  | cons answer stream ih =>
    cases answer with
    | failed errno => exact ih
    | offered bytes => rw [chunks, pending, List.flatten_cons, ih]

theorem nil_not_mem_chunks (h : Steady stream) : [] ∉ chunks stream := by
  induction stream with
  | nil => exact List.not_mem_nil
  | cons answer stream ih =>
    rcases h _ List.mem_cons_self with rfl | ⟨bytes, hne, rfl⟩
    · exact ih h.tail
    · rw [chunks, List.mem_cons, not_or]
      exact ⟨Ne.symm hne, ih h.tail⟩

theorem Bounded.tail {answer : ReadAnswer} (h : Bounded (answer :: stream)) : Bounded stream :=
  fun bytes hmem => h bytes (List.mem_cons_of_mem _ hmem)

/-- The outcome of a call with room for `length` bytes, if `found` are the lines of the
chunks to come: the first of them, if it fits, or else 0 or -1. -/
inductive Outcome (length size : ℕ) (found : List (List Byte)) :
    Result (ℕ × List ReadAnswer × List Byte) → Prop where
  | line {first : List Byte} {rest : List (List Byte)} {stream : List ReadAnswer}
      {buffer : List Byte} (hfound : found = first :: rest) (hfits : first.length < length)
      (htake : buffer.take first.length = first) (hlen : buffer.length = size)
      (hsteady : Steady stream) (hbounded : Bounded stream)
      (hrest : chunkLines newline [] (chunks stream) = rest) :
      Outcome length size found (.ok (first.length, stream, buffer))
  | stop {count : ℕ} {stream : List ReadAnswer} {buffer : List Byte}
      (hfound : ∀ first rest, found = first :: rest → length ≤ first.length)
      (hcount : count = 0 ∨ count = toSizeT (-1)) :
      Outcome length size found (.ok (count, stream, buffer))

/-- A byte that ends no line. -/
theorem chunkLines_cons {line : List Byte} {c : Byte} {ready : List Byte}
    {rest : List (List Byte)} (hc : c ≠ newline) :
    chunkLines newline line ((c :: ready) :: rest) =
      chunkLines newline (line ++ [c]) (ready :: rest) := by
  simp only [chunkLines, List.mem_cons, Ne.symm hc, false_or]
  split_ifs <;> simp [hc]

theorem chunkLines_newline {line ready : List Byte} {rest : List (List Byte)} :
    chunkLines newline line ((newline :: ready) :: rest) =
      (line ++ [newline]) :: chunkLines newline [] rest := by
  simp [chunkLines]

theorem chunkLines_nil {line : List Byte} {rest : List (List Byte)} :
    chunkLines newline line ([] :: rest) = chunkLines newline line rest := by
  simp [chunkLines]

/-- A byte that is ready goes to the buffer, and ends the line or not. -/
theorem byte_outcome {pointer : ℕ} {c : Byte} {ready : List Byte} (hsteady : Steady stream)
    (hbounded : Bounded stream) (hroom : pointer + length ≤ buffer.length) (hmore : 1 < length)
    {next : List Byte → Result (ℕ × List ReadAnswer × List Byte)}
    (hnext : c ≠ newline → Outcome (pointer + length) buffer.length
      (chunkLines newline (buffer.take pointer ++ [c]) (ready :: chunks stream))
      (next (buffer.set pointer c))) :
    Outcome (pointer + length) buffer.length
      (chunkLines newline (buffer.take pointer) ((c :: ready) :: chunks stream))
      (store buffer pointer [c] >>= fun buffer =>
        if c = newline then store buffer (pointer + 1) [0] >>= fun buffer =>
          .ok (pointer + 1, stream, buffer)
        else next buffer) := by
  have hlt : pointer < buffer.length := by omega
  have htake := take_succ_set hlt c
  rw [store_one buffer hlt, ok_bind]
  by_cases hc : c = newline
  · have hline : (buffer.take pointer ++ [newline]).length = pointer + 1 := by
      simp only [List.length_append, List.length_take, List.length_singleton]
      omega
    have hend : pointer + 1 < (buffer.set pointer c).length := by
      rw [List.length_set]
      omega
    rw [if_pos hc, show (pointer : ℤ) + 1 = ((pointer + 1 : ℕ) : ℤ) by push_cast; rfl,
      store_one _ hend, ok_bind, hc, chunkLines_newline, ← hline]
    refine .line rfl (by omega) ?_ ?_ hsteady hbounded rfl
    · rw [hline, List.take_set_of_le le_rfl, ← hc, htake]
    · rw [List.length_set, List.length_set]
  · rw [if_neg hc, chunkLines_cons hc]
    exact hnext hc

/-- What the next byte is taken from. -/
theorem refill_steady (hsteady : Steady stream) (hbounded : Bounded stream) (ready : List Byte) :
    (∃ c ready' stream', refill ready stream = (.offered (c :: ready'), stream') ∧
        Steady stream' ∧ Bounded stream' ∧ stream'.length ≤ stream.length ∧
        ∀ line, chunkLines newline line (ready :: chunks stream) =
          chunkLines newline line ((c :: ready') :: chunks stream')) ∨
      (refill ready stream = (.offered [], []) ∧ ready = [] ∧ stream = []) ∨
      ∃ stream', refill ready stream = (.failed .eintr, stream') ∧ ready = [] ∧
        stream = .failed .eintr :: stream' := by
  match ready, stream with
  | c :: ready, stream =>
    exact .inl ⟨c, ready, stream, rfl, hsteady, hbounded, le_rfl, fun _ => rfl⟩
  | [], [] => exact .inr (.inl ⟨rfl, rfl, rfl⟩)
  | [], .failed errno :: stream =>
    rcases hsteady _ List.mem_cons_self with heq | ⟨bytes, -, heq⟩
    · cases heq
      exact .inr (.inr ⟨stream, rfl, rfl, rfl⟩)
    · cases heq
  | [], .offered bytes :: stream =>
    rcases hsteady _ List.mem_cons_self with heq | ⟨bytes', hne, heq⟩
    · cases heq
    cases heq
    obtain ⟨c, ready, rfl⟩ := List.exists_cons_of_ne_nil hne
    have hle := hbounded _ List.mem_cons_self
    refine .inl ⟨c, ready, stream, ?_, hsteady.tail, hbounded.tail, Nat.le_succ _,
      fun line => chunkLines_nil ..⟩
    rw [refill, if_pos rfl, read, List.take_of_length_le hle, if_pos hle]

theorem readLineBufferedLoop_spec {fuel pointer : ℕ} {ready : List Byte} (hsteady : Steady stream)
    (hbounded : Bounded stream) (hpos : 0 < length) (hlength : length < 18446744073709551616)
    (hroom : pointer + length ≤ buffer.length) (hfuel : length + stream.length ≤ fuel) :
    Outcome (pointer + length) buffer.length
      (chunkLines newline (buffer.take pointer) (ready :: chunks stream))
      (readLineBufferedLoop fuel stream ready buffer pointer length) := by
  induction fuel generalizing stream ready buffer pointer length with
  | zero => omega
  | succ fuel ih =>
    have hdec : toSizeT (length - 1) = length - 1 := by
      unfold toSizeT
      omega
    rw [readLineBufferedLoop, hdec]
    split_ifs with hmore
    swap
    · refine .stop ?_ (.inr rfl)
      intro first rest hfound
      obtain ⟨middle, rfl⟩ := exists_of_chunkLines hfound
      simp only [List.length_append, List.length_take, List.length_singleton]
      omega
    rcases refill_steady hsteady hbounded ready with
      ⟨c, ready', stream', hrefill, hsteady', hbounded', hle, hlines⟩ | ⟨hrefill, rfl, rfl⟩ |
        ⟨stream', hrefill, rfl, rfl⟩
    · simp only [hrefill]
      rw [hlines]
      apply byte_outcome hsteady' hbounded' hroom (by omega)
      intro hc
      have hlt : pointer < buffer.length := by omega
      have hrest : pointer + 1 + (length - 1) ≤ (buffer.set pointer c).length := by
        rw [List.length_set]
        omega
      have hout : Outcome _ _ (chunkLines newline _ (ready' :: chunks stream')) _ :=
        ih hsteady' hbounded' (by omega) (by omega) hrest (by omega)
      rw [take_succ_set hlt, List.length_set,
        show pointer + 1 + (length - 1) = pointer + length by omega] at hout
      exact hout
    · simp only [hrefill]
      refine .stop ?_ (.inl rfl)
      intro first rest hfound
      rw [chunkLines_nil] at hfound
      cases hfound
    · have hout : Outcome _ _ (chunkLines newline _ ([] :: chunks stream')) _ :=
        ih hsteady.tail hbounded.tail hpos hlength hroom
          (by rw [List.length_cons] at hfuel; omega)
      simp only [hrefill, ↓reduceIte]
      rw [show length - 1 + 1 = length by omega]
      exact hout

theorem readLineBuffered_spec (hsteady : Steady stream) (hbounded : Bounded stream)
    (hpos : 0 < length) (hlength : length < 18446744073709551616) (hroom : length ≤ buffer.length) :
    Outcome length buffer.length (chunkLines newline [] (chunks stream))
      (readLineBuffered length stream buffer) := by
  have hfuel : length + stream.length ≤ toSizeT (length - 1) + stream.length + 1 := by
    unfold toSizeT
    omega
  have hout : Outcome _ _ (chunkLines newline _ ([] :: chunks stream)) _ :=
    readLineBufferedLoop_spec hsteady hbounded hpos hlength
      (show 0 + length ≤ buffer.length by omega) hfuel
  rw [chunkLines_nil, List.take_zero, Nat.zero_add] at hout
  exact hout

/-- The calls of `read_line_buffered` give the lines of the chunks, if they fit. -/
theorem readLineBuffered_lines (hsteady : Steady stream) (hbounded : Bounded stream)
    (hpos : 0 < length) (hlength : length < 18446744073709551616) (hroom : length ≤ buffer.length)
    (hfit : ∀ line ∈ chunkLines newline [] (chunks stream), line.length < length) :
    Lines (readLineBuffered length) stream buffer (chunkLines newline [] (chunks stream)) := by
  induction hfound : chunkLines newline [] (chunks stream) generalizing stream buffer with
  | nil =>
    have hout := readLineBuffered_spec hsteady hbounded hpos hlength hroom
    rw [hfound] at hout
    cases hcall : readLineBuffered length stream buffer with
    | error fault =>
      rw [hcall] at hout
      cases hout
    | ok r =>
      rw [hcall] at hout
      cases hout with
      | line hcons => cases hcons
      | stop _ hcount => exact .stop hcall hcount
  | cons first rest ih =>
    have hfits := hfit first (hfound ▸ List.mem_cons_self)
    have hout := readLineBuffered_spec hsteady hbounded hpos hlength hroom
    rw [hfound] at hout
    cases hcall : readLineBuffered length stream buffer with
    | error fault =>
      rw [hcall] at hout
      cases hout
    | ok r =>
      rw [hcall] at hout
      cases hout with
      | stop hnone _ => exact absurd (hnone first rest rfl) (by omega)
      | @line _ _ stream' buffer' hcons _ htake hlen hsteady' hbounded' hrest =>
        cases hcons
        have hpositive : first.length ≠ 0 := by
          obtain ⟨middle, rfl⟩ := exists_of_chunkLines hfound
          simp
        have hminus : toSizeT (-1) = 18446744073709551615 := by decide
        have hlines := ih hsteady' hbounded' (hlen ▸ hroom)
          (fun line hmem => hfit line (hfound ▸ List.mem_cons_of_mem _ (hrest ▸ hmem))) hrest
        nth_rewrite 1 [← htake]
        exact .line hcall ⟨hpositive, by omega⟩ hlines

/-- They give no others. -/
theorem prefix_of_readLineBuffered {found : List (List Byte)} (hsteady : Steady stream)
    (hbounded : Bounded stream) (hpos : 0 < length) (hlength : length < 18446744073709551616)
    (hroom : length ≤ buffer.length) (hfound : Lines (readLineBuffered length) stream buffer found) :
    found <+: chunkLines newline [] (chunks stream) := by
  induction hfound with
  | stop => exact List.nil_prefix
  | @line stream stream' buffer buffer' count rest hcall hcount _ ih =>
    have hout := readLineBuffered_spec hsteady hbounded hpos hlength hroom
    rw [hcall] at hout
    cases hout with
    | stop _ hstop => exact absurd hstop (not_or.mpr hcount)
    | line hcons _ htake hlen hsteady' hbounded' hrest =>
      rw [hcons, htake, List.prefix_cons_inj, ← hrest]
      exact ih hsteady' hbounded' (hlen ▸ hroom)

/-- On the same bytes, the two readers give the same lines if and only if the chunks
that the buffered reader gets end with their lines, and each line fits in an `int`. -/
theorem read_line_buffered_agrees_iff {plain : List ReadAnswer} {block : List Byte}
    (hplain : Uninterrupted plain) (hsteady : Steady stream) (hbounded : Bounded stream)
    (hsame : pending plain = pending stream) (hpos : 0 < length)
    (hlength : length < 18446744073709551616) (hblock : length ≤ block.length)
    (hroom : length ≤ buffer.length)
    (hfit : ∀ line ∈ lines carriageReturn newline false [] (pending stream), line.length < length) :
    (∃ found, Lines (readLine length) plain block found ∧
        Lines (readLineBuffered length) stream buffer found) ↔
      Aligned carriageReturn newline false (chunks stream) ∧
        ∀ line ∈ lines carriageReturn newline false [] (pending stream),
          (line.length : ℤ) ≤ intMax := by
  have hiff := lines_eq_chunkLines_iff newline_ne (nil_not_mem_chunks hsteady) List.not_mem_nil
  rw [chunks_flatten] at hiff
  constructor
  · rintro ⟨found, hread, hbuffered⟩
    obtain ⟨rfl, hmax⟩ := lines_of_readLine hplain hlength hpos hblock (hsame ▸ hfit) hread
    have hprefix := prefix_of_readLineBuffered hsteady hbounded hpos hlength hroom hbuffered
    rw [hsame, ← chunks_flatten] at hprefix
    refine ⟨hiff.mp ?_, hsame ▸ hmax⟩
    rw [← chunks_flatten]
    exact chunkLines_eq_of_prefix newline_ne hprefix
  · rintro ⟨haligned, hmax⟩
    have heq := hiff.mpr haligned
    refine ⟨_, readLine_lines hplain hlength hpos hblock (hsame ▸ hfit) (hsame ▸ hmax), ?_⟩
    rw [hsame, heq]
    exact readLineBuffered_lines hsteady hbounded hpos hlength hroom (heq ▸ hfit)

/-- Two lines in one receive, and a line that ends with CRLF. -/
def twoLines : List ReadAnswer := [.offered [97, 10, 98, 10]]
def crlfLine : List ReadAnswer := [.offered [97, 13, 10]]

/-- The second line is lost, and the CR is kept. -/
theorem read_line_buffered_disagrees :
    (Lines (readLine 8) twoLines (List.replicate 8 0) [[97, 10], [98, 10]] ∧
      Lines (readLineBuffered 8) twoLines (List.replicate 8 0) [[97, 10]] ∧
      ¬ ∃ found, Lines (readLine 8) twoLines (List.replicate 8 0) found ∧
        Lines (readLineBuffered 8) twoLines (List.replicate 8 0) found) ∧
    Lines (readLine 8) crlfLine (List.replicate 8 0) [[97, 10]] ∧
      Lines (readLineBuffered 8) crlfLine (List.replicate 8 0) [[97, 13, 10]] := by
  have hplain : Uninterrupted twoLines := by simp [Uninterrupted, twoLines]
  have hplain' : Uninterrupted crlfLine := by simp [Uninterrupted, crlfLine]
  have hbounded : Bounded twoLines := by simp [Bounded, twoLines]
  have hbounded' : Bounded crlfLine := by simp [Bounded, crlfLine]
  refine ⟨⟨?_, ?_, ?_⟩, ?_, ?_⟩
  · exact readLine_lines hplain (by decide) (by decide) (by decide) (by decide) (by decide)
  · exact readLineBuffered_lines hplain.steady hbounded (by decide) (by decide) (by decide)
      (by decide)
  · rintro ⟨found, hread, hbuffered⟩
    obtain ⟨rfl, -⟩ := lines_of_readLine hplain (by decide) (by decide) (by decide) (by decide) hread
    have hprefix := prefix_of_readLineBuffered hplain.steady hbounded (by decide) (by decide)
      (by decide) hbuffered
    exact absurd hprefix (by decide)
  · exact readLine_lines hplain' (by decide) (by decide) (by decide) (by decide) (by decide)
  · exact readLineBuffered_lines hplain'.steady hbounded' (by decide) (by decide) (by decide)
      (by decide)

/-- The second line straddles two receives. -/
theorem read_line_buffered_agrees_iff_aligned :
    ∃ found, Lines (readLine 8) [.offered [97, 10, 98, 99, 10]] (List.replicate 8 0) found ∧
      Lines (readLineBuffered 8) [.offered [97, 10], .offered [98], .failed .eintr,
        .offered [99, 10]] (List.replicate 8 0) found := by
  refine (read_line_buffered_agrees_iff (by simp [Uninterrupted]) (by simp [Steady])
    (by simp [Bounded]) (by decide) (by decide) (by decide) (by decide) (by decide)
    (by decide)).mpr ⟨?_, by decide⟩
  simp [Aligned, chunks, newline, carriageReturn]

end OsProgramming.Stream
