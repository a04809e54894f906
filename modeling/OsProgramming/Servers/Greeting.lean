import OsProgramming.Library.Text

/-! The lines that the clients read from their input and send, and the greeting with which a
server answers. -/

namespace OsProgramming.Servers

open Library

def Greeting.maxLine : ℕ := 4096

open Greeting (maxLine)

def bufferSize : ℕ := 4096

def newline : UInt8 := 10

/-- The bytes of a literal. -/
def literal (text : String) : List UInt8 := text.toList.map fun c => UInt8.ofNat c.toNat

/-- What a client sends for a line. -/
def message (line : List UInt8) : Result (List UInt8) := do
  let last ← load line ((line.length : ℤ) - 1)
  .ok (if last = newline then line.dropLast ++ [0] else line)

/-- The `sprintf` into the buffer of the server, and the bytes of it that are sent. -/
def greet (receiveBuffer : List UInt8) : Result (List UInt8) := do
  let sendBuffer ← store (List.replicate ((literal "Hi, ").length + 1 + bufferSize) 0) 0
    (literal "Hi, " ++ cString 0 receiveBuffer ++ [0])
  .ok (cString 0 sendBuffer)

/-- A line that a buffer of the client holds with its end. -/
structure Fits (line : List UInt8) : Prop where
  nul : 0 ∉ line
  newline : newline ∉ line
  length : line.length < maxLine - 1

/-- What a server answers to a chunk. -/
def reply (chunk : List UInt8) : List UInt8 := literal "Hi, " ++ cString 0 chunk

theorem not_mem_reply (chunk : List UInt8) : 0 ∉ reply chunk := by
  rw [reply, List.mem_append, not_or]
  exact ⟨by decide, not_mem_cString 0 chunk⟩

theorem length_reply_le (chunk : List UInt8) : (reply chunk).length ≤ chunk.length + 4 := by
  have hle := length_cString_le 0 chunk
  have hliteral : (literal "Hi, ").length = 4 := rfl
  rw [reply, List.length_append, hliteral]
  omega

theorem message_line (line : List UInt8) : message (line ++ [newline]) = .ok (line ++ [0]) := by
  have hlength : (((line ++ [newline]).length : ℕ) : ℤ) - 1 = line.length := by simp
  have hlt : line.length < (line ++ [newline]).length := by simp
  rw [message, hlength, load_natCast _ hlt, ok_bind]
  simp

/-- The answer to what fits into a buffer fits into a buffer. -/
theorem greet_eq {chunk : List UInt8} (hle : chunk.length ≤ bufferSize) :
    greet chunk = .ok (reply chunk) := by
  have hroom : (reply chunk ++ [0]).length ≤
      (List.replicate ((literal "Hi, ").length + 1 + bufferSize) (0 : UInt8)).length := by
    have := length_cString_le 0 chunk
    simp only [reply, List.length_append, List.length_singleton, List.length_replicate]
    omega
  rw [greet, ← reply, store_start hroom, ok_bind, List.append_assoc, List.singleton_append,
    cString_append (not_mem_reply chunk)]

/-- The buffer of a server with a datagram, or with its beginning. -/
theorem store_datagram (payload : List UInt8) :
    store (List.replicate bufferSize 0) 0 (payload.take bufferSize) = .ok (payload.take bufferSize ++
      List.replicate (bufferSize - (payload.take bufferSize).length) 0) := by
  rw [store_start (by simp), List.drop_replicate]

/-- A string is greeted like the block that it is in. -/
theorem reply_padded (chunk : List UInt8) (k : ℕ) :
    reply (chunk ++ List.replicate k 0) = reply chunk := by
  rw [reply, cString_padded, reply]

end OsProgramming.Servers
