import OsProgramming.Library.Memory

/-! What the kernel answers to one call on a non-blocking socket. An answer is
chosen by the environment; a transfer is cut to what the call has room for, so
every answer is one that the kernel may give. -/

namespace OsProgramming.Reactor

abbrev Byte := UInt8

/-- `EAGAIN` and `EWOULDBLOCK` are one value. -/
inductive Errno where
  | ewouldblock
  | eintr
  | epipe
  | econnreset
  | other (code : ℕ)
  deriving DecidableEq, Repr

/-- An answer to `readv`: an error, or the bytes that the socket holds. None is
the end of the stream. -/
inductive ReadAnswer where
  | failed (errno : Errno)
  | offered (bytes : List Byte)
  deriving DecidableEq, Repr

/-- An answer to `write`: an error, or the room that the socket has. -/
inductive WriteAnswer where
  | failed (errno : Errno)
  | accepts (room : ℕ)
  deriving DecidableEq, Repr

/-- The bytes of a `write` that the socket takes. -/
def WriteAnswer.taken : WriteAnswer → List Byte → List Byte
  | .failed _, _ => []
  | .accepts room, bytes => bytes.take room

/-- The return value of a `write`. -/
def WriteAnswer.result : WriteAnswer → List Byte → ℤ
  | .failed _, _ => -1
  | .accepts room, bytes => (bytes.take room).length

namespace WriteAnswer

/-- What the socket takes is a prefix, and its length is the result unless the
call failed. -/
theorem taken_append_drop (answer : WriteAnswer) (bytes : List Byte) :
    answer.taken bytes ++ bytes.drop (answer.taken bytes).length = bytes := by
  cases answer with
  | failed errno => simp [taken]
  | accepts room =>
    rcases le_total room bytes.length with h | h
    · simp [taken, h]
    · simp [taken, h, List.take_of_length_le]

theorem length_taken_le (answer : WriteAnswer) (bytes : List Byte) :
    (answer.taken bytes).length ≤ bytes.length := by
  cases answer <;> simp [taken]

end WriteAnswer

end OsProgramming.Reactor
