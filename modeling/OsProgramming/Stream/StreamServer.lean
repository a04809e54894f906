import OsProgramming.Stream.Message
import Mathlib.Data.List.TakeWhile

/-! The loop of `stream_server`. A result of 0 is the end of the stream to it, but also
what `read_message` returns for a message without a body. -/

namespace OsProgramming.Stream

open Library Reactor

/-- `BUFFER_SIZE` -/
def bufferSize : ℕ := 4096

/-- The two calls of `error` that end the server. -/
inductive StreamServerExit where
  | readMessage
  | clientClosed
  deriving DecidableEq, Repr

/-- The loop, with the messages that it has received; `count` is their number. The
first argument bounds the number of calls. -/
def streamServerLoop : ℕ → List ReadAnswer → List Byte → List (List Byte) →
    Result (StreamServerExit × List (List Byte))
  | 0, _, _, _ => .error .divergence
  | fuel + 1, stream, receiveBuffer, received => do
    let (n, stream, receiveBuffer) ← readMessage stream receiveBuffer bufferSize
    let n := wrapInt n
    if n < 0 then .ok (.readMessage, received)
    else if n = 0 then .ok (.clientClosed, received)
    else do
      let receiveBuffer ← store receiveBuffer n [0]
      streamServerLoop fuel stream receiveBuffer (received ++ [receiveBuffer.take n.toNat])

/-- There are no more calls that take something than the stream can answer. -/
def streamServer (stream : List ReadAnswer) (receiveBuffer : List Byte) :
    Result (StreamServerExit × List (List Byte)) :=
  streamServerLoop (answers stream + 1) stream receiveBuffer []

/-- The bytes begin with a complete message of at most `length` bytes. -/
def HoldsMessage (length : ℕ) (bytes : List Byte) : Prop :=
  ∃ message : Message, message.data.length ≤ length ∧ message.bytes <+: bytes

/-- They begin with a message without a body. -/
def HoldsEmptyMessage (bytes : List Byte) : Prop :=
  ∃ message : Message, message.data = [] ∧ message.bytes <+: bytes

section

variable {stream : List ReadAnswer} {buffer : List Byte} {length : ℕ}

/-- A result of 0 means that the peer has closed the connection before a complete
message, unless a message without a body is next. -/
theorem readMessage_zero_iff (hsteady : Steady stream) (hlength : (length : ℤ) ≤ intMax)
    (hroom : length ≤ buffer.length) :
    (∀ stream' buffer', readMessage stream buffer length = .ok (0, stream', buffer') →
      ¬ HoldsMessage length (pending stream)) ↔ ¬ HoldsEmptyMessage (pending stream) := by
  constructor
  · rintro hzero ⟨message, hempty, rest, hbytes⟩
    have hdata : message.data.length = 0 := List.length_eq_zero_iff.mpr hempty
    obtain ⟨stream', hcall, -⟩ :=
      readMessage_spec hsteady hlength hroom (hdata.trans_le (Nat.zero_le _)) hbytes.symm
    rw [hdata] at hcall
    exact hzero _ _ hcall ⟨message, hdata.trans_le (Nat.zero_le _), rest, hbytes⟩
  · rintro hnone stream' buffer' hcall ⟨message, hdata, rest, hbytes⟩
    obtain ⟨stream'', hcall', -⟩ := readMessage_spec hsteady hlength hroom hdata hbytes.symm
    have hcount : 0 = message.data.length :=
      (Prod.mk.inj (Except.ok.inj (hcall.symm.trans hcall'))).1
    exact hnone ⟨message, List.length_eq_zero_iff.mp hcount.symm, rest, hbytes⟩

theorem length_pending_le (stream : List ReadAnswer) :
    (pending stream).length ≤ answers stream := by
  induction stream with
  | nil => exact le_rfl
  | cons answer stream ih =>
    cases answer with
    | failed errno => exact Nat.le_succ_of_le ih
    | offered bytes =>
      simp only [pending, answers, List.length_append]
      omega

theorem length_messages_le (messages : List Message) :
    messages.length ≤ ((messages.map Message.bytes).flatten).length := by
  induction messages with
  | nil => exact le_rfl
  | cons message messages ih =>
    simp only [List.length_cons, List.map_cons, List.flatten_cons, List.length_append,
      Message.bytes, length_htonl]
    omega

/-! ### The loop -/

/-- A message with a body is received, and the server goes on. -/
theorem streamServerLoop_message (hsteady : Steady stream)
    (hblock : buffer.length = bufferSize + 1) {message : Message} {rest : List Byte}
    (hdata : message.data.length ≤ bufferSize) (hbody : message.data ≠ [])
    (hbytes : pending stream = message.bytes ++ rest) (fuel : ℕ) (received : List (List Byte)) :
    ∃ stream' buffer', streamServerLoop (fuel + 1) stream buffer received =
        streamServerLoop fuel stream' buffer' (received ++ [message.data]) ∧
      Steady stream' ∧ buffer'.length = bufferSize + 1 ∧ pending stream' = rest := by
  have hmax : (bufferSize : ℤ) ≤ intMax := by decide
  have hroom : bufferSize ≤ buffer.length := by omega
  obtain ⟨stream', hcall, hsteady', hpending⟩ :=
    readMessage_spec hsteady hmax hroom hdata hbytes
  have hlen : (message.data ++ buffer.drop message.data.length).length = bufferSize + 1 := by
    rw [List.length_append, List.length_drop]
    omega
  have hcount : wrapInt (message.data.length : ℤ) = message.data.length :=
    wrapInt_of_le (by omega) (by omega)
  have hpos : 0 < message.data.length := List.length_pos_iff.mpr hbody
  have hstore := store_one (message.data ++ buffer.drop message.data.length)
    (i := message.data.length) (by omega) 0
  refine ⟨stream', (message.data ++ buffer.drop message.data.length).set message.data.length 0,
    ?_, hsteady', by rw [List.length_set]; exact hlen, hpending⟩
  have htake : ((message.data ++ buffer.drop message.data.length).set message.data.length 0).take
      message.data.length = message.data := by
    rw [List.take_set_of_le le_rfl, List.take_left' rfl]
  have hnonneg : ¬ (message.data.length : ℤ) < 0 := by omega
  have hne : ¬ (message.data.length : ℤ) = 0 := by omega
  simp only [streamServerLoop, hcall, ok_bind, hcount, hnonneg, hne, ↓reduceIte, hstore,
    Int.toNat_natCast, htake]

/-- A message without one ends it, and so does the end of the stream. -/
theorem streamServerLoop_ends (hsteady : Steady stream) (hblock : buffer.length = bufferSize + 1)
    (hends : pending stream = [] ∨ HoldsEmptyMessage (pending stream)) (fuel : ℕ)
    (received : List (List Byte)) :
    streamServerLoop (fuel + 1) stream buffer received = .ok (.clientClosed, received) := by
  have hmax : (bufferSize : ℤ) ≤ intMax := by decide
  have hroom : bufferSize ≤ buffer.length := by omega
  have hzero : wrapInt ((0 : ℕ) : ℤ) = 0 := by decide
  obtain ⟨stream', buffer', hcall⟩ : ∃ stream' buffer',
      readMessage stream buffer bufferSize = .ok (0, stream', buffer') := by
    rcases hends with hend | ⟨message, hempty, rest, hbytes⟩
    · obtain ⟨stream', hcall, -⟩ := readMessage_end hsteady hend
      exact ⟨stream', buffer, hcall⟩
    · have hdata : message.data.length = 0 := List.length_eq_zero_iff.mpr hempty
      obtain ⟨stream', hcall, -⟩ :=
        readMessage_spec hsteady hmax hroom (hdata.trans_le (Nat.zero_le _)) hbytes.symm
      rw [hdata] at hcall
      exact ⟨stream', _, hcall⟩
  simp only [streamServerLoop, hcall, ok_bind, hzero, lt_irrefl, ↓reduceIte]

/-- The server receives the messages before the first one without a body. -/
theorem streamServerLoop_spec {messages : List Message} (hsteady : Steady stream)
    (hblock : buffer.length = bufferSize + 1)
    (hdata : ∀ message ∈ messages, message.data.length ≤ bufferSize)
    (hbytes : pending stream = (messages.map Message.bytes).flatten) {fuel : ℕ}
    (hfuel : messages.length < fuel) (received : List (List Byte)) :
    streamServerLoop fuel stream buffer received =
      .ok (.clientClosed, received ++ (messages.map Message.data).takeWhile (· ≠ [])) := by
  induction messages generalizing stream buffer fuel received with
  | nil =>
    obtain ⟨fuel, rfl⟩ : ∃ m, fuel = m + 1 := ⟨fuel - 1, by omega⟩
    rw [streamServerLoop_ends hsteady hblock (.inl hbytes)]
    simp
  | cons message messages ih =>
    obtain ⟨fuel, rfl⟩ : ∃ m, fuel = m + 1 := ⟨fuel - 1, by omega⟩
    by_cases hempty : message.data = []
    · have hholds : HoldsEmptyMessage (pending stream) :=
        ⟨message, hempty, _, by rw [hbytes]; rfl⟩
      rw [streamServerLoop_ends hsteady hblock (.inr hholds)]
      simp [hempty]
    · obtain ⟨stream', buffer', hloop, hsteady', hblock', hpending⟩ :=
        streamServerLoop_message hsteady hblock (hdata message List.mem_cons_self) hempty hbytes
          fuel received
      rw [hloop, ih hsteady' hblock' (fun m hm => hdata m (List.mem_cons_of_mem _ hm)) hpending
        (Nat.lt_of_succ_lt_succ hfuel)]
      simp [hempty]

end

/-- Two messages, the first without a body. -/
def emptyThenLetter : List ReadAnswer :=
  [.offered ((⟨1, []⟩ : Message).bytes ++ (⟨1, [65]⟩ : Message).bytes)]

theorem steady_emptyThenLetter : Steady emptyThenLetter := by
  simp [Steady, emptyThenLetter, Message.bytes, htonl]

end OsProgramming.Stream
