import OsProgramming.Reactor.Buffer
import OsProgramming.Reactor.Channel

/-! Connections of `tcp_connection.c`. A function leaves the connection, the
operations that it posted to loops, in order, and the application callback that
it invokes last; whoever runs it performs them. What the kernel has given to and
taken from the descriptor is kept beside the fields of the source. -/

namespace OsProgramming.Reactor

open Library

/-- The stream behind a descriptor: the bytes read from it and the bytes that it
has accepted. -/
structure Stream where
  received : List Byte
  accepted : List Byte

/-- Which of the four application callbacks are not `NULL`. -/
structure Callbacks where
  onNewConnection : Bool
  onNewMessage : Bool
  onWriteCompleted : Bool
  onConnectionClosed : Bool
  deriving DecidableEq, Repr

inductive AppCallback where
  | onNewConnection
  | onNewMessage
  | onWriteCompleted
  | onConnectionClosed
  deriving DecidableEq, Repr

structure TcpConnection where
  loop : LoopId
  channel : Channel
  inputBuffer : Buffer
  outputBuffer : Buffer
  callbacks : Callbacks
  /-- for the application; `none` until it is set -/
  data : Option ℕ
  stream : Stream

structure Effect where
  connection : TcpConnection
  posts : List Post
  callback : Option AppCallback

def handleConnectionClosed (connection : TcpConnection) : Effect where
  connection := connection
  posts := [⟨connection.loop, connection.channel.fd, .delete⟩]
  callback := if connection.callbacks.onConnectionClosed then some .onConnectionClosed else none

def handleRead (connection : TcpConnection) (socket : ReadAnswer) (answer : Alloc Byte) :
    Result Effect := do
  let stream := { connection.stream with
    received := connection.stream.received ++ readvDelivers connection.inputBuffer socket }
  let (inputBuffer, size) ← bufferSocketRead connection.inputBuffer socket answer
  let connection := { connection with inputBuffer, stream }
  if 0 < size then
    .ok ⟨connection, [], if connection.callbacks.onNewMessage then some .onNewMessage else none⟩
  else
    -- negative is an error and zero the end of the stream
    .ok (handleConnectionClosed connection)

/-- It runs in the thread of its loop, as `assert_in_same_thread` demands. -/
def handleWrite (cast : ChannelData → Result LoopId) (connection : TcpConnection)
    (socket : WriteAnswer) : Result Effect := do
  let outputBuffer := connection.outputBuffer
  let bytes ← fetch outputBuffer.data outputBuffer.readIndex (bufferReadableSize outputBuffer)
  let sizeWritten := socket.result bytes
  if 0 < sizeWritten then
    let stream := { connection.stream with
      accepted := connection.stream.accepted ++ socket.taken bytes }
    let outputBuffer := { outputBuffer with readIndex := outputBuffer.readIndex + sizeWritten }
    let connection := { connection with outputBuffer, stream }
    let callback := if connection.callbacks.onWriteCompleted then some .onWriteCompleted else none
    if bufferReadableSize outputBuffer = 0 then
      let (channel, post) ← channelEventDisableWrite cast connection.channel
      .ok ⟨{ connection with channel }, [post], callback⟩
    else .ok ⟨connection, [], callback⟩
  else .ok ⟨connection, [], none⟩

/-- The connection as `tcp_connection_new` builds it; then `on_new_connection` is
invoked and the channel is posted to the loop. -/
def tcpConnectionNew (id : ConnectionId) (fd : ℤ) (loop : LoopId) (callbacks : Callbacks)
    (input output : Alloc Byte) : Option TcpConnection := do
  let inputBuffer ← bufferNew true input
  let outputBuffer ← bufferNew true output
  some {
    loop, inputBuffer, outputBuffer, callbacks
    channel := channelNew fd eventRead (some .handleRead) (some .handleWrite) (.tcpConnection id)
    data := none
    stream := ⟨[], []⟩ }

/-- `tcp_connection_send_data` writes directly only while nothing is queued. -/
def WritesDirectly (connection : TcpConnection) : Prop :=
  channelEventIsWriteable (some connection.channel) = false ∧
    bufferReadableSize connection.outputBuffer = 0

instance (connection : TcpConnection) : Decidable (WritesDirectly connection) :=
  inferInstanceAs (Decidable (_ ∧ _))

/-- The first part of `tcp_connection_send_data`: what the direct write took, and
whether the peer has reset the connection. -/
def directWrite (connection : TcpConnection) (data : List Byte) (size : ℤ) (socket : WriteAnswer) :
    Result (TcpConnection × ℤ × Bool) :=
  if WritesDirectly connection then do
    let bytes ← fetch data 0 size
    match socket with
    | .accepts room =>
      let stream := { connection.stream with
        accepted := connection.stream.accepted ++ bytes.take room }
      .ok ({ connection with stream }, (bytes.take room).length, false)
    | .failed errno =>
      let fault := errno ≠ .ewouldblock ∧ (errno = .epipe ∨ errno = .econnreset)
      .ok (connection, 0, fault)
  else .ok (connection, 0, false)

/-- The second part of `tcp_connection_send_data`: unless the connection is reset,
the output buffer takes over what the direct write left. -/
def bufferRest (cast : ChannelData → Result LoopId) (connection : TcpConnection)
    (data : List Byte) (size sizeWritten : ℤ) (fault : Bool) (answer : Alloc Byte) :
    Result Effect :=
  let sizeLeft := size - sizeWritten
  if fault = false ∧ 0 < sizeLeft then do
    let (outputBuffer, _) ← bufferAppend connection.outputBuffer
      (some (data.drop sizeWritten.toNat)) sizeLeft answer
    let connection := { connection with outputBuffer }
    if channelEventIsWriteable (some connection.channel) then
      .ok ⟨connection, [], none⟩
    else
      let (channel, post) ← channelEventEnableWrite cast connection.channel
      .ok ⟨{ connection with channel }, [post], none⟩
  else .ok ⟨connection, [], none⟩

def tcpConnectionSendData (cast : ChannelData → Result LoopId) (connection : TcpConnection)
    (data : List Byte) (size : ℤ) (socket : WriteAnswer) (answer : Alloc Byte) :
    Result (Effect × ℤ) := do
  let (connection, sizeWritten, fault) ← directWrite connection data size socket
  let effect ← bufferRest cast connection data size sizeWritten fault answer
  .ok (effect, sizeWritten)

def tcpConnectionSendBuffer (cast : ChannelData → Result LoopId) (connection : TcpConnection)
    (buffer : Buffer) (socket : WriteAnswer) (answer : Alloc Byte) :
    Result (Effect × Buffer × ℤ) := do
  let size := bufferReadableSize buffer
  let (effect, result) ← tcpConnectionSendData cast connection
    (buffer.data.drop buffer.readIndex.toNat) size socket answer
  .ok (effect, { buffer with readIndex := buffer.readIndex + result }, result)

end OsProgramming.Reactor
