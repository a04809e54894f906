import OsProgramming.Stream.BlockingRead

/-! Messages with a length in front, of `read.c`. The `int` and `size_t` values of the
source are kept with their conversions. -/

namespace OsProgramming.Stream

open Library Reactor

/-- The loop of `readn`. Its result is `length`, or nothing if it returns -1. -/
def readnLoop (stream : List ReadAnswer) (buffer : List Byte) (pointer length : ℤ) :
    Result (Option ℤ × List ReadAnswer × List Byte) :=
  if 0 < length then
    match _h : read length.toNat stream with
    | (.failed errno, stream') =>
      if errno = .eintr then readnLoop stream' buffer pointer length
      else .ok (none, stream', buffer)
    | (.offered [], stream') => .ok (some length, stream', buffer)
    | (.offered (byte :: bytes), stream') =>
      store buffer pointer (byte :: bytes) >>= fun buffer' =>
        readnLoop stream' buffer' (pointer + (byte :: bytes).length)
          (length - (byte :: bytes).length)
  else .ok (some length, stream, buffer)
termination_by answers stream
decreasing_by
  · exact answers_failed _h
  · exact answers_offered _h

/-- The result is a `size_t`; the buffer is at least as large as its caller says. -/
def readn (stream : List ReadAnswer) (buffer : List Byte) (size : ℕ) :
    Result (ℕ × List ReadAnswer × List Byte) := do
  let (length, stream, buffer) ← readnLoop stream buffer 0 (wrapInt size)
  match length with
  | none => .ok (toSizeT (-1), stream, buffer)
  | some length => .ok (toSizeT (size - length), stream, buffer)

/-- The bytes of a 32-bit number in network order, as it is in memory after `htonl`. -/
def htonl (number : ℕ) : List Byte :=
  [.ofNat (number / 16777216), .ofNat (number / 65536), .ofNat (number / 256), .ofNat number]

/-- The number whose bytes in network order are in memory. -/
def ntohl (bytes : List Byte) : ℕ := bytes.foldl (fun number byte => 256 * number + byte.toNat) 0

/-- The local `u_int32_t` variables hold anything before `readn` has filled them. -/
def readMessage (stream : List ReadAnswer) (buffer : List Byte) (length : ℕ) :
    Result (ℕ × List ReadAnswer × List Byte) := do
  let (readCount, stream, messageLength) ← readn stream [0, 0, 0, 0] 4
  let readCount := wrapInt readCount
  if toSizeT readCount ≠ 4 then
    .ok (if readCount < 0 then toSizeT (-1) else 0, stream, buffer)
  else do
    let messageLength := ntohl messageLength
    let (readCount, stream, _) ← readn stream [0, 0, 0, 0] 4
    let readCount := wrapInt readCount
    if toSizeT readCount ≠ 4 then
      .ok (if readCount < 0 then toSizeT (-1) else 0, stream, buffer)
    else if length < messageLength then .ok (toSizeT (-1), stream, buffer)
    else do
      let (readCount, stream, buffer) ← readn stream buffer messageLength
      let readCount := wrapInt readCount
      if readCount % 4294967296 ≠ messageLength then
        .ok (if readCount < 0 then toSizeT (-1) else 0, stream, buffer)
      else .ok (toSizeT readCount, stream, buffer)

/-- What `stream_client` sends: a `u_int32_t` type and a body. -/
structure Message where
  type : UInt32
  data : List Byte

/-- The three fields of the `struct`, as far as they are sent. -/
def Message.bytes (message : Message) : List Byte :=
  htonl message.data.length ++ htonl message.type.toNat ++ message.data

/-- One call after the other: the value that each returns, and as many bytes of the
buffer. -/
def readMessages (length : ℕ) : ℕ → List ReadAnswer → List Byte →
    Result (List (ℕ × List Byte) × List ReadAnswer × List Byte)
  | 0, stream, buffer => .ok ([], stream, buffer)
  | n + 1, stream, buffer => do
    let (count, stream, buffer) ← readMessage stream buffer length
    let (calls, stream, last) ← readMessages length n stream buffer
    .ok ((count, buffer.take count) :: calls, stream, last)

/-! ### The loop -/

@[simp] theorem length_htonl (number : ℕ) : (htonl number).length = 4 := rfl

theorem ntohl_htonl {number : ℕ} (h : number < 4294967296) : ntohl (htonl number) = number := by
  simp only [ntohl, htonl, List.foldl_cons, List.foldl_nil, UInt8.toNat_ofNat']
  omega

section

variable {stream stream' : List ReadAnswer} {buffer : List Byte} {pointer : ℤ} {n : ℕ}

theorem readnLoop_zero : readnLoop stream buffer pointer 0 = .ok (some 0, stream, buffer) := by
  rw [readnLoop]
  rfl

theorem readnLoop_interrupted (hn : 0 < n) (h : read n stream = (.failed .eintr, stream')) :
    readnLoop stream buffer pointer n = readnLoop stream' buffer pointer n := by
  rw [readnLoop, if_pos (by omega)]
  split <;> simp_all

theorem readnLoop_failed {errno : Errno} (hn : 0 < n) (hne : errno ≠ .eintr)
    (h : read n stream = (.failed errno, stream')) :
    readnLoop stream buffer pointer n = .ok (none, stream', buffer) := by
  rw [readnLoop, if_pos (by omega)]
  split <;> simp_all

theorem readnLoop_end (hn : 0 < n) (h : read n stream = (.offered [], stream')) :
    readnLoop stream buffer pointer n = .ok (some n, stream', buffer) := by
  rw [readnLoop, if_pos (by omega)]
  split <;> simp_all

theorem readnLoop_data {byte : Byte} {bytes : List Byte} (hn : 0 < n)
    (h : read n stream = (.offered (byte :: bytes), stream')) :
    readnLoop stream buffer pointer n =
      store buffer pointer (byte :: bytes) >>= fun buffer' =>
        readnLoop stream' buffer' (pointer + (byte :: bytes).length)
          (n - (byte :: bytes).length) := by
  rw [readnLoop, if_pos (by omega)]
  split <;> simp_all

/-- The bytes that have arrived are stored, and the loop goes on behind them. -/
theorem readnLoop_stores {byte : Byte} {bytes : List Byte} {pointer : ℕ}
    (h : read n stream = (.offered (byte :: bytes), stream')) (hlt : bytes.length < n)
    (hroom : pointer + n ≤ buffer.length) :
    readnLoop stream buffer pointer n =
      readnLoop stream' (buffer.take pointer ++ (byte :: bytes) ++
          buffer.drop (pointer + (byte :: bytes).length))
        (pointer + (byte :: bytes).length : ℕ) (n - (byte :: bytes).length : ℕ) := by
  have hlen : (byte :: bytes).length ≤ n := hlt
  have hptr : (pointer : ℤ) + (byte :: bytes).length = (pointer + (byte :: bytes).length : ℕ) := by
    push_cast
    rfl
  have hleft : (n : ℤ) - (byte :: bytes).length = (n - (byte :: bytes).length : ℕ) := by omega
  rw [readnLoop_data (by omega) h, store_natCast buffer (by omega), ok_bind, hptr, hleft]

/-- What the rest of the loop stores is behind what has arrived, and there is room for it. -/
theorem readnLoop_then {byte : Byte} {bytes : List Byte} {pointer : ℕ}
    (h : read n stream = (.offered (byte :: bytes), stream')) (hlt : bytes.length < n)
    (hroom : pointer + n ≤ buffer.length) :
    ∃ buffer', pointer + (byte :: bytes).length + (n - (byte :: bytes).length) ≤ buffer'.length ∧
      ∀ {result stream'' more}, readnLoop stream' buffer' (pointer + (byte :: bytes).length : ℕ)
          (n - (byte :: bytes).length : ℕ) =
        .ok (result, stream'', buffer'.take (pointer + (byte :: bytes).length) ++ more ++
          buffer'.drop (pointer + (byte :: bytes).length + more.length)) →
      readnLoop stream buffer pointer n =
        .ok (result, stream'', buffer.take pointer ++ (byte :: bytes ++ more) ++
          buffer.drop (pointer + (byte :: bytes ++ more).length)) := by
  have hlen : (byte :: bytes).length ≤ n := hlt
  rw [readnLoop_stores h hlt hroom]
  generalize byte :: bytes = data at hlen ⊢
  have hfits : pointer + data.length ≤ buffer.length := by omega
  refine ⟨_, ?_, fun hrest => hrest.trans ?_⟩
  · rw [length_stored data hfits]
    omega
  · rw [take_stored _ hfits, drop_stored _ hfits, List.length_append]
    simp only [List.append_assoc, Nat.add_assoc]

end

/-- The bytes that are there are read, up to the length that is asked for. -/
theorem readnLoop_spec {stream : List ReadAnswer} (hsteady : Steady stream) {buffer : List Byte}
    {pointer n : ℕ} (hroom : pointer + n ≤ buffer.length) :
    ∃ stream', readnLoop stream buffer pointer n =
        .ok (some (n - ((pending stream).take n).length), stream',
          buffer.take pointer ++ (pending stream).take n ++
            buffer.drop (pointer + ((pending stream).take n).length)) ∧
      Steady stream' ∧ pending stream' = (pending stream).drop n := by
  induction hsize : answers stream using Nat.strong_induction_on generalizing stream buffer pointer n
    with
  | _ size ih =>
    subst hsize
    rcases Nat.eq_zero_or_pos n with rfl | hpos
    · exact ⟨stream, by simp [readnLoop_zero], hsteady, by simp⟩
    rcases hsteady.read_cases hpos with
      ⟨hread, rfl⟩ | ⟨stream', hread, hsteady', hpending⟩ |
        ⟨byte, bytes, stream', hread, hsteady', hlt, hpending⟩
    · refine ⟨[], ?_, hsteady, by simp [pending]⟩
      simp [readnLoop_end hpos hread, pending]
    · rw [readnLoop_interrupted hpos hread, ← hpending]
      exact ih _ (answers_failed hread) hsteady' hroom rfl
    · obtain ⟨buffer', hblock, hthen⟩ := readnLoop_then hread hlt hroom
      obtain ⟨stream'', hrest, hsteady'', hpending''⟩ :=
        ih _ (answers_offered hread) hsteady' hblock rfl
      have hloop := hthen hrest
      have hlen : (byte :: bytes).length ≤ n := hlt
      generalize byte :: bytes = data at hpending hpending'' hlen hloop
      have htake : (pending stream).take n = data ++ (pending stream').take (n - data.length) := by
        rw [hpending, List.take_append, List.take_of_length_le hlen]
      refine ⟨stream'', ?_, hsteady'', ?_⟩
      · rw [hloop, htake, List.length_append]
        refine congrArg Except.ok (Prod.ext (congrArg some ?_) rfl)
        push_cast
        omega
      · rw [hpending'', hpending, List.drop_append, List.drop_of_length_le hlen, List.nil_append]

/-! ### The calls -/

theorem readn_spec {stream : List ReadAnswer} (hsteady : Steady stream) (buffer : List Byte) {n : ℕ}
    (hn : (n : ℤ) ≤ intMax) (hroom : n ≤ buffer.length) :
    ∃ stream', readn stream buffer n = .ok (((pending stream).take n).length, stream',
        (pending stream).take n ++ buffer.drop ((pending stream).take n).length) ∧
      Steady stream' ∧ pending stream' = (pending stream).drop n := by
  obtain ⟨stream', hloop, hsteady', hpending⟩ :=
    readnLoop_spec hsteady (show 0 + n ≤ buffer.length by omega)
  refine ⟨stream', ?_, hsteady', hpending⟩
  have hle : ((pending stream).take n).length ≤ n := List.length_take_le ..
  have hcount : toSizeT (n - (n - ((pending stream).take n).length)) =
      ((pending stream).take n).length := by
    rw [sub_sub_cancel]
    exact toSizeT_natCast (by omega)
  rw [readn, wrapInt_of_le (by omega) hn]
  simp only [Nat.cast_zero] at hloop
  simp only [hloop, ok_bind, hcount, List.take_zero, List.nil_append, Nat.zero_add]

variable {stream : List ReadAnswer} {buffer : List Byte} {length : ℕ}

theorem readMessage_spec (hsteady : Steady stream) (hlength : (length : ℤ) ≤ intMax)
    (hroom : length ≤ buffer.length) {message : Message} {rest : List Byte}
    (hdata : message.data.length ≤ length) (hbytes : pending stream = message.bytes ++ rest) :
    ∃ stream', readMessage stream buffer length = .ok (message.data.length, stream',
        message.data ++ buffer.drop message.data.length) ∧
      Steady stream' ∧ pending stream' = rest := by
  have hmax : (message.data.length : ℤ) ≤ intMax := by omega
  -- the length
  obtain ⟨stream₁, hread₁, hsteady₁, hpending₁⟩ :=
    readn_spec hsteady [0, 0, 0, 0] (n := 4) (by decide) le_rfl
  rw [hbytes, Message.bytes, List.append_assoc, List.append_assoc,
    List.take_left' (length_htonl _)] at hread₁
  rw [hbytes, Message.bytes, List.append_assoc, List.append_assoc,
    List.drop_left' (length_htonl _)] at hpending₁
  -- the type
  obtain ⟨stream₂, hread₂, hsteady₂, hpending₂⟩ :=
    readn_spec hsteady₁ [0, 0, 0, 0] (n := 4) (by decide) le_rfl
  rw [hpending₁, List.take_left' (length_htonl _)] at hread₂
  rw [hpending₁, List.drop_left' (length_htonl _)] at hpending₂
  -- the body
  obtain ⟨stream₃, hread₃, hsteady₃, hpending₃⟩ := readn_spec hsteady₂ buffer hmax (by omega)
  rw [hpending₂, List.take_left' rfl] at hread₃
  rw [hpending₂, List.drop_left' rfl] at hpending₃
  have hfour : wrapInt ((4 : ℕ) : ℤ) = 4 := by decide
  have hnumber : ntohl (htonl message.data.length) = message.data.length :=
    ntohl_htonl (by unfold intMax at hmax; omega)
  have hcount : wrapInt (message.data.length : ℤ) = message.data.length :=
    wrapInt_of_le (by omega) hmax
  have hunsigned : (message.data.length : ℤ) % 4294967296 = message.data.length := by
    unfold intMax at hmax
    omega
  refine ⟨stream₃, ?_, hsteady₃, hpending₃⟩
  simp only [readMessage, hread₁, hread₂, ok_bind, length_htonl, hfour,
    show toSizeT 4 = 4 from rfl, ne_eq, not_true_eq_false, ↓reduceIte]
  simp [hnumber, hread₃, hcount, hunsigned, toSizeT_natCast hmax, Nat.not_lt.mpr hdata]

/-- At the end of the stream. -/
theorem readMessage_end (hsteady : Steady stream) (hend : pending stream = []) :
    ∃ stream', readMessage stream buffer length = .ok (0, stream', buffer) ∧ Steady stream' ∧
      pending stream' = [] := by
  obtain ⟨stream', hread, hsteady', hpending⟩ :=
    readn_spec hsteady [0, 0, 0, 0] (n := 4) (by decide) le_rfl
  rw [hend] at hread hpending
  refine ⟨stream', ?_, hsteady', hpending⟩
  have hzero : wrapInt 0 = 0 := by decide
  simp [readMessage, hread, hzero, toSizeT]

theorem readMessages_succ {n count : ℕ} {stream stream' last : List ReadAnswer}
    {buffer buffer' block : List Byte} {calls : List (ℕ × List Byte)}
    (hcall : readMessage stream buffer length = .ok (count, stream', buffer'))
    (hrest : readMessages length n stream' buffer' = .ok (calls, last, block)) :
    readMessages length (n + 1) stream buffer =
      .ok ((count, buffer'.take count) :: calls, last, block) := by
  simp only [readMessages, hcall, hrest, ok_bind]

theorem readMessages_end (hsteady : Steady stream) (hend : pending stream = []) (n : ℕ) :
    ∃ stream', readMessages length n stream buffer =
      .ok (List.replicate n (0, []), stream', buffer) := by
  induction n generalizing stream with
  | zero => exact ⟨stream, rfl⟩
  | succ n ih =>
    obtain ⟨stream', hcall, hsteady', hpending⟩ := readMessage_end hsteady hend
    obtain ⟨stream'', hrest⟩ := ih hsteady' hpending
    exact ⟨stream'', readMessages_succ hcall hrest⟩

/-- However the stream is cut, and wherever calls are interrupted, the calls of
`read_message` give the messages that were sent, and then 0. -/
theorem read_messages_round_trip {messages : List Message} (hsteady : Steady stream)
    (hlength : (length : ℤ) ≤ intMax) (hroom : length ≤ buffer.length)
    (hdata : ∀ message ∈ messages, message.data.length ≤ length)
    (hbytes : pending stream = (messages.map Message.bytes).flatten) (n : ℕ) :
    ∃ stream' buffer', readMessages length (messages.length + n) stream buffer =
      .ok (messages.map (fun message => (message.data.length, message.data)) ++
        List.replicate n (0, []), stream', buffer') := by
  induction messages generalizing stream buffer with
  | nil =>
    obtain ⟨stream', hcalls⟩ := readMessages_end hsteady hbytes n
    exact ⟨stream', buffer, by rw [List.length_nil, Nat.zero_add]; exact hcalls⟩
  | cons message messages ih =>
    have hmessage := hdata message List.mem_cons_self
    obtain ⟨stream', hcall, hsteady', hpending⟩ :=
      readMessage_spec hsteady hlength hroom hmessage hbytes
    have hroom' : length ≤ (message.data ++ buffer.drop message.data.length).length := by
      rw [List.length_append, List.length_drop]
      omega
    obtain ⟨stream'', buffer'', hrest⟩ := ih hsteady' hroom'
      (fun message' hmem => hdata message' (List.mem_cons_of_mem _ hmem)) hpending
    have hcalls := readMessages_succ hcall hrest
    rw [List.take_left' rfl] at hcalls
    exact ⟨stream'', buffer'', by rw [List.length_cons, Nat.add_right_comm]; exact hcalls⟩

/-- Two messages, cut within a header and within a body. -/
def cutStream : List ReadAnswer :=
  [.offered [0, 0], .failed .eintr, .offered [0, 2, 0, 0, 0, 1, 104], .failed .eintr,
    .offered [105, 0, 0, 0, 1, 0, 0, 0, 7, 33]]

theorem read_messages_round_trip_cut :
    ∃ stream' buffer', readMessages 8 3 cutStream (List.replicate 8 0) =
      .ok ([(2, [104, 105]), (1, [33]), (0, [])], stream', buffer') := by
  have hsteady : Steady cutStream := by simp [Steady, cutStream]
  have hdata : ∀ message ∈ [(⟨1, [104, 105]⟩ : Message), ⟨7, [33]⟩],
      message.data.length ≤ 8 := by decide
  exact read_messages_round_trip hsteady (by decide) (by decide) hdata (by decide) 1

end OsProgramming.Stream
