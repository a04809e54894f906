import OsProgramming.Reactor.EventLoop
import OsProgramming.Reactor.TcpConnection

/-! A loop together with what its channels point to, and `event_loop_active` with the
callbacks that it invokes. What the application, the kernel and the other threads do
while a callback runs is chosen by the environment. -/

namespace OsProgramming.Reactor

open Library

/-- The channels that a loop may have: its end of the socketpair, the listening socket
and the connections. -/
inductive ChannelId where
  | wakeup
  | acceptor
  | connection (id : ConnectionId)
  deriving DecidableEq

/-- What a loop does not change: its identity, how `channel->data` is cast, the
dispatcher, which depends on the open descriptors, and what becomes of the data of the
dispatcher when a descriptor is closed. -/
structure Setting (δ : Type) where
  self : LoopId
  cast : ChannelData → Result LoopId
  dispatcher : (ℤ → Bool) → EventDispatcher δ
  forget : δ → ℤ → δ

/-- All connections that there will be, with the numbers that they get, are there from
the start. `added` lists the channels whose ADD has been handled, and `closed` the
calls of `on_connection_closed`. -/
structure LoopState (δ : Type) where
  wakeup : Channel
  acceptor : Channel
  connections : ConnectionId → TcpConnection
  isOpen : ℤ → Bool
  loop : EventLoop ChannelId δ
  added : List ChannelId
  closed : List ConnectionId

/-- What may happen while a callback runs. -/
inductive Act where
  /-- any thread gets a new descriptor -/
  | accept (fd : ℤ)
  /-- any thread closes a descriptor -/
  | close (fd : ℤ)
  /-- the ADD that was posted for a new channel is handled -/
  | add (channel : ChannelId) (answer : Alloc (Option ChannelId))
  /-- an UPDATE that was posted is handled -/
  | update (channel : ChannelId)
  /-- the application sends; the UPDATE that it posts is an act of its own -/
  | send (id : ConnectionId) (data : List Byte) (size : ℤ) (socket : WriteAnswer)
    (answer : Alloc Byte)
  /-- the application reads its input buffer -/
  | consume (id : ConnectionId) (inputBuffer : Buffer)

/-- What the environment answers to a callback, and what happens before the operation
that it posts is handled and after that. -/
structure CallScript where
  read : ReadAnswer
  write : WriteAnswer
  answer : Alloc Byte
  queued : List Act
  after : List Act

namespace LoopState

variable {δ : Type}

def channels (s : LoopState δ) : ChannelId → Channel
  | .wakeup => s.wakeup
  | .acceptor => s.acceptor
  | .connection id => (s.connections id).channel

def setConnection (s : LoopState δ) (id : ConnectionId) (connection : TcpConnection) :
    LoopState δ :=
  { s with connections := Function.update s.connections id connection }

def closeDescriptor (S : Setting δ) (s : LoopState δ) (fd : ℤ) : LoopState δ :=
  { s with
    isOpen := Function.update s.isOpen fd false
    loop := { s.loop with dispatcherData := S.forget s.loop.dispatcherData fd } }

/-- A connection is added to its own loop. -/
def ServedBy (s : LoopState δ) (loop : LoopId) : ChannelId → Prop
  | .connection id => (s.connections id).loop = loop
  | _ => True

instance (s : LoopState δ) (loop : LoopId) (channel : ChannelId) :
    Decidable (s.ServedBy loop channel) :=
  match channel with
  | .connection _ => inferInstanceAs (Decidable (_ = _))
  | .wakeup => .isTrue trivial
  | .acceptor => .isTrue trivial

def handle (S : Setting δ) (s : LoopState δ) (op : PendingOp ChannelId)
    (answer : Alloc (Option ChannelId)) : Result (LoopState δ) := do
  let (loop, _) ← handlePending (S.dispatcher s.isOpen) s.channels s.loop op answer
  .ok { s with loop }

/-- There is one ADD for a channel. -/
def act (S : Setting δ) (s : LoopState δ) : Act → Result (LoopState δ)
  | .accept fd => .ok { s with isOpen := Function.update s.isOpen fd true }
  | .close fd => .ok (s.closeDescriptor S fd)
  | .add channel answer =>
    if channel ∉ s.added ∧ s.ServedBy S.self channel then do
      let s ← s.handle S ⟨.add, channel⟩ answer
      .ok { s with added := channel :: s.added }
    else .ok s
  | .update channel => s.handle S ⟨.update, channel⟩ none
  | .send id data size socket answer => do
    let (effect, _) ← tcpConnectionSendData S.cast (s.connections id) data size socket answer
    .ok (s.setConnection id effect.connection)
  | .consume id inputBuffer => .ok (s.setConnection id { s.connections id with inputBuffer })

/-- An operation that a callback of the loop posts to the loop itself is handled at
once, after those that are queued. -/
def post (S : Setting δ) (id : ConnectionId) (s : LoopState δ) (post : Post) :
    Result (LoopState δ) :=
  if post.loop = S.self then s.handle S ⟨post.op, .connection id⟩ none else .ok s

/-- The rest of a callback of a connection. -/
def finish (S : Setting δ) (s : LoopState δ) (id : ConnectionId) (effect : Effect)
    (script : CallScript) : Result (LoopState δ) := do
  let s ← script.queued.foldlM (act S) (s.setConnection id effect.connection)
  let s ← effect.posts.foldlM (post S id) s
  let s := if effect.callback = some .onConnectionClosed then { s with closed := s.closed ++ [id] }
    else s
  script.after.foldlM (act S) s

/-- `handle_connection_established` accepts, and posts the ADD of the connection to
the loop that it selects; both are acts. `handle_loop_thread_wakeup` reads a byte. -/
def onChannelReadable (S : Setting δ) (s : LoopState δ) (channel : Channel) (script : CallScript) :
    Result (LoopState δ) :=
  match channel.onChannelReadable, channel.data with
  | none, _ => .ok s
  | some .handleLoopThreadWakeup, _ => .ok s
  | some .handleConnectionEstablished, _ => script.after.foldlM (act S) s
  | some .handleRead, .tcpConnection id => do
    let effect ← handleRead (s.connections id) script.read script.answer
    s.finish S id effect script
  | some .handleRead, _ => .error .badCast

def onChannelWriteable (S : Setting δ) (s : LoopState δ) (channel : Channel)
    (script : CallScript) : Result (LoopState δ) :=
  match channel.onChannelWriteable, channel.data with
  | none, _ => .ok s
  | some .handleWrite, .tcpConnection id => do
    let effect ← handleWrite S.cast (s.connections id) script.write
    s.finish S id effect script
  | some .handleWrite, _ => .error .badCast

def eventLoopActive (S : Setting δ) (s : LoopState δ) (fd : ℤ) (events : Events)
    (script : CallScript) : Result (LoopState δ) := do
  let registered ← registeredChannel s.channels s.loop fd
  match registered with
  | none => .ok s
  | some channel => do
    let s ← if events &&& eventRead ≠ 0 then s.onChannelReadable S (s.channels channel) script
      else .ok s
    if events &&& eventWrite ≠ 0 then s.onChannelWriteable S (s.channels channel) script else .ok s

/-- The loop before its first ADD. -/
def init (data : δ) (self : LoopId) (wakeupFd acceptorFd : ℤ)
    (connections : ConnectionId → TcpConnection) (isOpen : ℤ → Bool) : LoopState δ where
  wakeup := channelNew wakeupFd eventRead (some .handleLoopThreadWakeup) none (.eventLoop self)
  acceptor := channelNew acceptorFd eventRead (some .handleConnectionEstablished) none .tcpServer
  connections := connections
  isOpen := isOpen
  loop := ⟨channelMapInit, data⟩
  added := []
  closed := []

end LoopState

end OsProgramming.Reactor
