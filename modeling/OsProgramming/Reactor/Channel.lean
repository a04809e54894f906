import OsProgramming.Library.Memory

/-! Channels of `channel.c`. The pointer `channel->data` is a tagged value: it is
the loop, the server or the connection that the channel was created for, and the
cast to `struct event_loop *` is a parameter of the functions that make it. -/

namespace OsProgramming.Reactor

open Library

abbrev LoopId := ℕ

abbrev ConnectionId := ℕ

/-- The `int events` of a channel. -/
abbrev Events := BitVec 32

def eventRead : Events := 0x02
def eventWrite : Events := 0x04

inductive ReadCallback where
  | handleLoopThreadWakeup
  | handleConnectionEstablished
  | handleRead
  deriving DecidableEq, Repr

inductive WriteCallback where
  | handleWrite
  deriving DecidableEq, Repr

/-- The object that `channel->data` points to. -/
inductive ChannelData where
  | eventLoop (loop : LoopId)
  | tcpServer
  | tcpConnection (connection : ConnectionId)
  deriving DecidableEq, Repr

structure Channel where
  fd : ℤ
  events : Events
  onChannelReadable : Option ReadCallback
  onChannelWriteable : Option WriteCallback
  data : ChannelData
  deriving DecidableEq, Repr

def channelNew (fd : ℤ) (events : Events) (readCallback : Option ReadCallback)
    (writeCallback : Option WriteCallback) (data : ChannelData) : Channel :=
  ⟨fd, events, readCallback, writeCallback, data⟩

/-- `none` is the pointer `NULL`. -/
def channelEventIsReadable : Option Channel → Bool
  | none => false
  | some channel => if channel.events &&& eventRead = 0 then false else true

def channelEventIsWriteable : Option Channel → Bool
  | none => false
  | some channel => if channel.events &&& eventWrite = 0 then false else true

inductive ChannelOp where
  | add
  | delete
  | update
  deriving DecidableEq, Repr

/-- A call of `event_loop_do_channel_event`: the loop whose queue it goes to, the
descriptor and the operation. -/
structure Post where
  loop : LoopId
  fd : ℤ
  op : ChannelOp
  deriving DecidableEq, Repr

/-- `(struct event_loop *) channel->data`. -/
def castEventLoop : ChannelData → Result LoopId
  | .eventLoop loop => .ok loop
  | .tcpServer => .error .badCast
  | .tcpConnection _ => .error .badCast

def channelEventEnableWrite (cast : ChannelData → Result LoopId) (channel : Channel) :
    Result (Channel × Post) := do
  let loop ← cast channel.data
  .ok ({ channel with events := channel.events ||| eventWrite }, ⟨loop, channel.fd, .update⟩)

def channelEventDisableWrite (cast : ChannelData → Result LoopId) (channel : Channel) :
    Result (Channel × Post) := do
  let loop ← cast channel.data
  .ok ({ channel with events := channel.events &&& ~~~eventWrite }, ⟨loop, channel.fd, .update⟩)

/-! ### Interest in writing -/

@[simp] theorem isWriteable_enabled (channel : Channel) :
    channelEventIsWriteable (some { channel with events := channel.events ||| eventWrite }) =
      true := by
  have h : (channel.events ||| eventWrite) &&& eventWrite = eventWrite := by
    ext i hi
    simp only [BitVec.getElem_and, BitVec.getElem_or]
    cases channel.events[i] <;> simp
  simp only [channelEventIsWriteable, h]
  rfl

@[simp] theorem isWriteable_disabled (channel : Channel) :
    channelEventIsWriteable (some { channel with events := channel.events &&& ~~~eventWrite }) =
      false := by
  simp [channelEventIsWriteable, BitVec.and_assoc]

theorem channelEventEnableWrite_ok {cast : ChannelData → Result LoopId} {channel : Channel}
    {loop : LoopId} (h : cast channel.data = .ok loop) :
    channelEventEnableWrite cast channel =
      .ok ({ channel with events := channel.events ||| eventWrite },
        ⟨loop, channel.fd, .update⟩) := by
  simp [channelEventEnableWrite, h]

theorem channelEventDisableWrite_ok {cast : ChannelData → Result LoopId} {channel : Channel}
    {loop : LoopId} (h : cast channel.data = .ok loop) :
    channelEventDisableWrite cast channel =
      .ok ({ channel with events := channel.events &&& ~~~eventWrite },
        ⟨loop, channel.fd, .update⟩) := by
  simp [channelEventDisableWrite, h]

end OsProgramming.Reactor
