import OsProgramming.Reactor.EchoServer

/-! `nio_server.c`: one process, `select` over all of its clients, and a buffer for every
descriptor that stays when a client has gone. The state records what has been done for
the last client on each descriptor. -/

namespace OsProgramming.Servers.NioServer

open Library Reactor

def fdInitSize : ℕ := 128

def maxLine : ℕ := 4096

/-- The size of the local buffer of `on_socket_readable`. -/
def readSize : ℕ := 1024

/-- A descriptor of `-1` is none. -/
structure Buffer where
  connectFd : ℤ
  buffer : List Byte
  writeIndex : ℕ
  readIndex : ℕ
  readable : Bool

/-- `fill` is what `malloc` leaves in the block. -/
def newBuffer (fill : ℕ → Byte) : Buffer := ⟨-1, malloc maxLine (some fill), 0, 0, false⟩

/-- A byte that has been read, if there is room for it. -/
def putByte (buffer : Buffer) (c : Byte) : Result Buffer :=
  if buffer.writeIndex < maxLine then do
    let block ← store buffer.buffer buffer.writeIndex [rot13Char c]
    .ok { buffer with buffer := block, writeIndex := buffer.writeIndex + 1 }
  else .ok buffer

/-- The end of a line. -/
def markReadable (buffer : Buffer) (c : Byte) : Buffer :=
  if c = '\n'.toUInt8 then { buffer with readable := true } else buffer

/-- One round of the loop over what has been read. -/
def keepByte (buffer : Buffer) (c : Byte) : Result Buffer := do
  let buffer ← putByte buffer c
  .ok (markReadable buffer c)

/-- The buffer, the bytes received and the return value. The stream ends where the list of
answers does. -/
def onSocketReadable (buffer : Buffer) : List ReadAnswer → Result (Buffer × List Byte × ℤ)
  | [] => .ok (buffer, [], 1)
  | .failed errno :: _ => .ok (buffer, [], if errno = .ewouldblock then 0 else -1)
  | .offered bytes :: answers =>
    if bytes = [] then .ok (buffer, [], 1)
    else do
      let buffer ← (bytes.take readSize).foldlM keepByte buffer
      let (buffer, received, result) ← onSocketReadable buffer answers
      .ok (buffer, bytes.take readSize ++ received, result)

/-- What follows the loop. -/
def writtenAll (buffer : Buffer) : Buffer :=
  if buffer.readIndex = buffer.writeIndex then
    { buffer with writeIndex := 0, readIndex := 0, readable := false }
  else buffer

/-- The buffer, the bytes sent and the return value. Where the list of answers ends, the
socket takes no more. -/
def onSocketWriteable (buffer : Buffer) : List WriteAnswer → Result (Buffer × List Byte × ℤ)
  | [] => .ok (if buffer.readIndex < buffer.writeIndex then buffer else writtenAll buffer, [], 0)
  | answer :: answers =>
    if buffer.readIndex < buffer.writeIndex then
      match answer with
      | .failed errno => .ok (buffer, [], if errno = .ewouldblock then 0 else -1)
      | .accepts room => do
        let bytes ← fetch buffer.buffer buffer.readIndex (buffer.writeIndex - buffer.readIndex)
        let taken := bytes.take room
        let (buffer, sent, result) ← onSocketWriteable
          { buffer with readIndex := buffer.readIndex + taken.length } answers
        .ok (buffer, taken ++ sent, result)
    else .ok (writtenAll buffer, [], 0)

/-- What the kernel does for a client in one pass. `result` is what the variable of that
name holds before it is assigned. -/
structure Turn where
  readable : Bool
  reads : List ReadAnswer
  writable : Bool
  writes : List WriteAnswer
  result : ℤ

/-- The test of `read_set`. -/
def serveRead (buffer : Buffer) (inRead : Bool) (turn : Turn) : Result (Buffer × List Byte × ℤ) :=
  if inRead && turn.readable then onSocketReadable buffer turn.reads
  else .ok (buffer, [], turn.result)

/-- The test of `write_set`, which assigns `result` once more. -/
def serveWrite (buffer : Buffer) (inWrite : Bool) (turn : Turn) (result : ℤ) :
    Result (Buffer × List Byte × ℤ) :=
  if inWrite && turn.writable then onSocketWriteable buffer turn.writes
  else .ok (buffer, [], result)

/-- The body of the loop over the clients, up to the test of `result`. -/
def serve (buffer : Buffer) (inRead inWrite : Bool) (turn : Turn) :
    Result (Buffer × List Byte × List Byte × ℤ) := do
  let (buffer, received, result) ← serveRead buffer inRead turn
  let (buffer, sent, result) ← serveWrite buffer inWrite turn result
  .ok (buffer, received, sent, result)

/-- A client since it was accepted: its turns, each with whether it was there when `select`
was called, and its bytes. -/
structure Log where
  turns : List (Bool × Turn)
  received : List Byte
  sent : List Byte

structure Server where
  buffers : List Buffer
  log : ℕ → Log

def init (fill : ℕ → ℕ → Byte) : Server :=
  ⟨(List.range fdInitSize).map fun i => newBuffer (fill i), fun _ => ⟨[], [], []⟩⟩

/-- `accepted` is the return value of `accept` if the listening socket is readable. -/
structure Pass where
  failed : Bool
  accepted : Option ℤ
  turn : ℤ → Turn

/-- The descriptors put in `read_set`. -/
def readSet (buffers : List Buffer) : List ℤ :=
  (buffers.filter fun buffer => 0 ≤ buffer.connectFd).map Buffer.connectFd

/-- The descriptors put in `write_set`. -/
def writeSet (buffers : List Buffer) : List ℤ :=
  (buffers.filter fun buffer => 0 ≤ buffer.connectFd ∧ buffer.readable).map Buffer.connectFd

def acceptClient (s : Server) : Option ℤ → Result Server
  | none => .ok s
  | some fd =>
    if fd < 0 then .error .exitFailure
    else if fdInitSize < fd then .error .exitFailure
    else do
      let buffer ← load s.buffers fd
      if buffer.connectFd < 0 then do
        let buffers ← store s.buffers fd [{ buffer with connectFd := fd }]
        .ok ⟨buffers, Function.update s.log fd.toNat ⟨[], [], []⟩⟩
      else .error .exitFailure

/-- The loop over the clients. -/
def handleClient (serverFd : ℤ) (reads writes : List ℤ) (pass : Pass) (s : Server) (i : ℕ) :
    Result Server := do
  let buffer ← load s.buffers i
  let fd := buffer.connectFd
  if fd < 0 ∨ fd = serverFd then .ok s
  else do
    let turn := pass.turn fd
    let (buffer, received, sent, result) ← serve buffer (fd ∈ reads) (fd ∈ writes) turn
    let buffers ← store s.buffers i
      [if result ≠ 0 then { buffer with connectFd := -1 } else buffer]
    let log := s.log i
    .ok ⟨buffers, Function.update s.log i
      ⟨log.turns ++ [(decide (fd ∈ reads), turn)], log.received ++ received, log.sent ++ sent⟩⟩

/-- One round of the loop of `main`. -/
def step (serverFd : ℤ) (s : Server) (pass : Pass) : Result Server :=
  let reads := readSet s.buffers
  let writes := writeSet s.buffers
  let maxFd := reads.foldl max serverFd
  if pass.failed then .error .exitFailure
  else do
    let s ← acceptClient s pass.accepted
    (List.range (maxFd + 1).toNat).foldlM (handleClient serverFd reads writes pass) s

end OsProgramming.Servers.NioServer
