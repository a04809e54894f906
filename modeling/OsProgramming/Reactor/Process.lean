import OsProgramming.Reactor.Dispatch

/-! The process with all of its loops. Each loop has a thread, and between two steps of
one thread all others may move; a step is the part of a function up to its next call of
a callback, of the application or of `event_loop_do_channel_event`. The mutex of a loop
is held while the thread of the loop handles its queue. -/

namespace OsProgramming.Reactor

open Library

/-- What the application may call in a callback. -/
inductive ApiCall where
  | new (fd : ℤ) (loop : LoopId) (callbacks : Callbacks)
  | sendData (id : ConnectionId) (data : List Byte) (size : ℤ)
  | sendBuffer (id : ConnectionId) (buffer : Buffer)
  | shutdown (id : ConnectionId)
  /-- the functions of `buffer.c` on the input buffer -/
  | consume (id : ConnectionId) (inputBuffer : Buffer)

/-- What a thread has still to do before its callback returns. -/
inductive Instr where
  | call (call : ApiCall)
  | onNewConnection (id : ConnectionId)
  | doChannelEvent (loop : LoopId) (op : PendingOp ChannelId)
  | handlePendingChannel

/-- The function of a channel or of the application that a thread calls next. -/
inductive Handler where
  | readable (channel : ChannelId)
  | writeable (channel : ChannelId)
  | invoke (id : ConnectionId) (callback : AppCallback)

/-- The dispatchers report one event at a time. -/
inductive Ready where
  | read
  | write
  deriving DecidableEq

def Ready.handler : Ready → ChannelId → Handler
  | .read => .readable
  | .write => .writeable

/-- What a dispatcher does for the next entry of its pass. -/
inductive Report where
  | active (fd : ℤ) (ready : Ready)
  | close (fd : ℤ)
  | nothing
  deriving DecidableEq

/-- A dispatcher with its data `δ`: what the kernel reports is of type `ρ`, and where a
pass is of type `π`. A pass that has no next entry is over. -/
structure Backend (δ π ρ : Type) where
  dispatcher : (ℤ → Bool) → EventDispatcher δ
  /-- a descriptor is closed -/
  forget : δ → ℤ → δ
  start : ρ → δ → δ × π
  next : π → δ → Result (Option (Report × π))

/-! ### The two backends -/

/-- A pass of `poll_dispatch` that has come to the slot `index`. -/
structure PollPass where
  index : ℕ
  readyNumber : ℤ
  reports : List Report

/-- The events of one slot. -/
def pollReports (pollFd : PollFd) : List Report :=
  (if pollFd.revents &&& pollRdNorm ≠ 0 then [.active pollFd.fd .read] else []) ++
    if pollFd.revents &&& pollWrNorm ≠ 0 then [.active pollFd.fd .write] else []

def pollNext (pass : PollPass) (data : List PollFd) : Result (Option (Report × PollPass)) :=
  match pass.reports with
  | report :: reports => .ok (some (report, { pass with reports }))
  | [] =>
    if pass.readyNumber ≤ 0 ∨ initPollSize ≤ pass.index then .ok none
    else do
      let pollFd ← load data pass.index
      if pollFd.fd < 0 then .ok (some (.nothing, { pass with index := pass.index + 1 }))
      else if 0 < pollFd.revents.toInt then
        .ok (some (.nothing, ⟨pass.index + 1, pass.readyNumber - 1, pollReports pollFd⟩))
      else .ok (some (.nothing, { pass with index := pass.index + 1 }))

def pollBackend : Backend (List PollFd) PollPass (ℕ → BitVec 15) where
  dispatcher _ := pollEventDispatcher
  forget data _ := data
  start revents data :=
    let data := LoopState.pollReturns revents data
    (data, ⟨0, LoopState.pollReady data, []⟩)
  next := pollNext

/-- What `epoll_dispatch` does for one `epoll_event`. -/
def epollReports (event : EpollEvent) : List Report :=
  if event.Failed then [.close event.fd]
  else
    (if event.events &&& epollIn ≠ 0 then [.active event.fd .read] else []) ++
      if event.events &&& epollOut ≠ 0 then [.active event.fd .write] else []

def epollNext (pass : List Report) (_ : InterestSet) : Result (Option (Report × List Report)) :=
  match pass with
  | [] => .ok none
  | report :: pass => .ok (some (report, pass))

def epollBackend : Backend InterestSet (List Report) (List EpollEvent) where
  dispatcher := epollEventDispatcher
  forget interest fd := Function.update interest fd none
  start batch interest := (interest, batch.flatMap epollReports)
  next := epollNext

/-! ### The state -/

/-- What no step changes. The check of the channel map lets a descriptor that is its
length through, and `nullBehind` is whether the cell behind the array is read as `NULL`
then; otherwise the access is a fault. -/
structure Server (δ π ρ : Type) where
  backend : Backend δ π ρ
  cast : ChannelData → Result LoopId
  callbacks : Callbacks
  wakeupFd : LoopId → ℤ
  acceptorFd : ℤ
  nullBehind : Bool

/-- `work` is what is to be done before `handler` is called, and then the pass goes on. -/
structure LoopThread (δ π : Type) where
  loop : EventLoop ChannelId δ
  pending : List (PendingOp ChannelId)
  isHandlingPendingChannel : Bool
  work : List Instr
  handler : Option Handler
  pass : Option π

/-- The connections below `created` have been created. Beside the state of the program,
`clients` are the open descriptors that `accept` has returned, `accepted` their
connections, `closed` the connections that `handle_connection_closed` has been called
for, and `log` the calls of the application's callbacks. -/
structure Process (δ π : Type) where
  threads : LoopId → LoopThread δ π
  connections : ConnectionId → TcpConnection
  created : ℕ
  isOpen : ℤ → Bool
  clients : ℤ → Bool
  accepted : List ConnectionId
  closed : List ConnectionId
  log : List (ConnectionId × AppCallback)

/-- What the kernel, the allocator and the application answer in one step. -/
structure Answers (ρ : Type) where
  reports : ρ
  read : ReadAnswer
  write : WriteAnswer
  input : Alloc Byte
  output : Alloc Byte
  space : Alloc (Option ChannelId)
  accept : ℤ
  serviceLoop : LoopId
  calls : List ApiCall

/-- What is left to do of a callback of a connection. -/
def Effect.instrs (effect : Effect) (id : ConnectionId) : List Instr :=
  effect.posts.map fun post => .doChannelEvent post.loop ⟨post.op, .connection id⟩

/-- `handle_connection_closed` has been called. -/
def Effect.Closes (effect : Effect) : Prop := ∃ post ∈ effect.posts, post.op = .delete

instance (effect : Effect) : Decidable effect.Closes := inferInstanceAs (Decidable (∃ _ ∈ _, _))

namespace Process

variable {δ π ρ : Type} (S : Server δ π ρ) (s : Process δ π) (t : LoopId)

def channels : ChannelId → Channel
  | .wakeup => channelNew (S.wakeupFd t) eventRead (some .handleLoopThreadWakeup) none (.eventLoop t)
  | .acceptor => channelNew S.acceptorFd eventRead (some .handleConnectionEstablished) none .tcpServer
  | .connection id => (s.connections id).channel

def setThread (thread : LoopThread δ π) : Process δ π :=
  { s with threads := Function.update s.threads t thread }

def setConnection (id : ConnectionId) (connection : TcpConnection) : Process δ π :=
  { s with connections := Function.update s.connections id connection }

def goto (work : List Instr) (handler : Option Handler) : Process δ π :=
  s.setThread t { s.threads t with work, handler }

/-- The application is called. -/
def notify (id : ConnectionId) (callback : AppCallback) : Process δ π :=
  { s with log := s.log ++ [(id, callback)] }

def closeDescriptor (fd : ℤ) : Process δ π :=
  { s with
    isOpen := Function.update s.isOpen fd false
    clients := Function.update s.clients fd false
    threads := fun t => { s.threads t with
      loop := { (s.threads t).loop with
        dispatcherData := S.backend.forget (s.threads t).loop.dispatcherData fd } } }

/-- The descriptor is looked up in the cell behind the channel map. -/
def Behind (loop : EventLoop ChannelId δ) (fd : ℤ) : Prop :=
  S.nullBehind = true ∧ fd = loop.channelMap.length

instance (loop : EventLoop ChannelId δ) (fd : ℤ) : Decidable (Behind S loop fd) :=
  inferInstanceAs (Decidable (_ ∧ _))

/-! ### Connections -/

/-- `tcp_connection_new`: the callback runs before the channel is posted. -/
def newConnection (fd : ℤ) (loop : LoopId) (callbacks : Callbacks) (a : Answers ρ) :
    Result (Process δ π × List Instr) :=
  match tcpConnectionNew s.created fd loop callbacks a.input a.output with
  | none => .error .outOfBounds
  | some connection =>
    .ok ({ s.setConnection s.created connection with created := s.created + 1 },
      (if callbacks.onNewConnection then [.onNewConnection s.created] else []) ++
        [.doChannelEvent loop ⟨.add, .connection s.created⟩])

/-- The kernel's side of `accept`, for the connection that is created next. -/
def accept (fd : ℤ) : Process δ π :=
  if 0 ≤ fd then
    { s with
      isOpen := Function.update s.isOpen fd true
      clients := Function.update s.clients fd true
      accepted := s.accepted ++ [s.created] }
  else s

/-- `accept` may fail, and the connection is created all the same. -/
def handleConnectionEstablished (a : Answers ρ) : Result (Process δ π × List Instr) :=
  let clientFd := a.accept
  (s.accept clientFd).newConnection clientFd a.serviceLoop S.callbacks a

/-- The rest of a function that has been called for a connection. -/
def applyEffect (id : ConnectionId) (effect : Effect) : Process δ π :=
  { s.setConnection id effect.connection with
    closed := if effect.Closes then s.closed ++ [id] else s.closed }

/-- The application has no pointer to a connection that is not created. -/
def apiCall (a : Answers ρ) : ApiCall → Result (Process δ π × List Instr)
  | .new fd loop callbacks => s.newConnection fd loop callbacks a
  | .sendData id data size =>
    if s.created ≤ id then .error .outOfBounds
    else do
      let (effect, _) ← tcpConnectionSendData S.cast (s.connections id) data size a.write a.output
      .ok (s.setConnection id effect.connection, effect.instrs id)
  | .sendBuffer id buffer =>
    if s.created ≤ id then .error .outOfBounds
    else do
      let (effect, _, _) ← tcpConnectionSendBuffer S.cast (s.connections id) buffer a.write a.output
      .ok (s.setConnection id effect.connection, effect.instrs id)
  | .shutdown id => if s.created ≤ id then .error .outOfBounds else .ok (s, [])
  | .consume id inputBuffer =>
    if s.created ≤ id then .error .outOfBounds
    else .ok (s.setConnection id { s.connections id with inputBuffer }, [])

/-! ### The steps of a thread -/

/-- A thread that does not get the mutex waits. -/
def doChannelEvent (loop : LoopId) (op : PendingOp ChannelId) (work : List Instr) : Process δ π :=
  let thread := s.threads loop
  if thread.isHandlingPendingChannel then s
  else
    (s.setThread loop { thread with pending := thread.pending ++ [op] }).goto t
      (if loop = t then .handlePendingChannel :: work else work) (s.threads t).handler

/-- An operation that is not an ADD looks its descriptor up. -/
def handleOp (loop : EventLoop ChannelId δ) (op : PendingOp ChannelId)
    (answer : Alloc (Option ChannelId)) : Result (EventLoop ChannelId δ) :=
  if op.type ≠ .add ∧ Behind S loop (s.channels S t op.channel).fd then .ok loop
  else do
    let (loop, _) ←
      handlePending (S.backend.dispatcher s.isOpen) (s.channels S t) loop op answer
    .ok loop

/-- The loop of `event_loop_handle_pending_channel`, one operation after the other. -/
def handlePendingChannel (work : List Instr) (a : Answers ρ) : Result (Process δ π) :=
  let thread := s.threads t
  if thread.isHandlingPendingChannel = false then
    .ok (s.setThread t { thread with isHandlingPendingChannel := true })
  else
    match thread.pending with
    | [] => .ok (s.setThread t { thread with isHandlingPendingChannel := false, work })
    | op :: pending => do
      let loop ← s.handleOp S t thread.loop op a.space
      .ok (s.setThread t { thread with loop, pending })

def perform (instr : Instr) (work : List Instr) (a : Answers ρ) : Result (Process δ π) :=
  let handler := (s.threads t).handler
  match instr with
  | .call call => do
    let (s, instrs) ← s.apiCall S a call
    .ok (s.goto t (instrs ++ work) handler)
  | .onNewConnection id =>
    .ok ((s.notify id .onNewConnection).goto t (a.calls.map .call ++ work) handler)
  | .doChannelEvent loop op => .ok (s.doChannelEvent t loop op work)
  | .handlePendingChannel => s.handlePendingChannel S t work a

def onChannelReadable (channel : ChannelId) (a : Answers ρ) : Result (Process δ π) :=
  match (s.channels S t channel).onChannelReadable, (s.channels S t channel).data with
  | none, _ => .ok (s.goto t [] none)
  | some .handleLoopThreadWakeup, _ => .ok (s.goto t [] none)
  | some .handleConnectionEstablished, _ => do
    let (s, instrs) ← s.handleConnectionEstablished S a
    .ok (s.goto t instrs none)
  | some .handleRead, .tcpConnection id => do
    let effect ← handleRead (s.connections id) a.read a.input
    .ok ((s.applyEffect id effect).goto t (effect.instrs id) (effect.callback.map (.invoke id)))
  | some .handleRead, _ => .error .badCast

def onChannelWriteable (channel : ChannelId) (a : Answers ρ) : Result (Process δ π) :=
  match (s.channels S t channel).onChannelWriteable, (s.channels S t channel).data with
  | none, _ => .ok (s.goto t [] none)
  | some .handleWrite, .tcpConnection id => do
    let effect ← handleWrite S.cast (s.connections id) a.write
    .ok ((s.applyEffect id effect).goto t (effect.instrs id) (effect.callback.map (.invoke id)))
  | some .handleWrite, _ => .error .badCast

def run (handler : Handler) (a : Answers ρ) : Result (Process δ π) :=
  match handler with
  | .readable channel => s.onChannelReadable S t channel a
  | .writeable channel => s.onChannelWriteable S t channel a
  | .invoke id callback =>
    .ok ((s.notify id callback).goto t (a.calls.map .call) none)

def eventLoopActive (fd : ℤ) (ready : Ready) : Result (Option Handler) :=
  let loop := (s.threads t).loop
  if Behind S loop fd then .ok none
  else do
    let registered ← registeredChannel (s.channels S t) loop fd
    .ok (registered.map ready.handler)

/-- The next entry of a pass. -/
def report (report : Report) (pass : π) : Result (Process δ π) :=
  match report with
  | .active fd ready => do
    let handler ← s.eventLoopActive S t fd ready
    .ok (s.setThread t { s.threads t with handler, pass := some pass })
  | .close fd =>
    let s := s.closeDescriptor S fd
    .ok (s.setThread t { s.threads t with pass := some pass })
  | .nothing => .ok (s.setThread t { s.threads t with pass := some pass })

/-- The body of the loop in `event_loop_run`. -/
def eventLoopRun (a : Answers ρ) : Result (Process δ π) :=
  let thread := s.threads t
  match thread.pass with
  | none =>
    let (dispatcherData, pass) := S.backend.start a.reports thread.loop.dispatcherData
    .ok (s.setThread t { thread with
      loop := { thread.loop with dispatcherData }, pass := some pass })
  | some pass => do
    let next ← S.backend.next pass thread.loop.dispatcherData
    match next with
    | none => .ok (s.setThread t { thread with work := [.handlePendingChannel], pass := none })
    | some (report, pass) => s.report S t report pass

def step (event : LoopId × Answers ρ) : Result (Process δ π) :=
  let (t, a) := event
  match (s.threads t).work, (s.threads t).handler with
  | instr :: work, _ => s.perform S t instr work a
  | [], some handler => s.run S t handler a
  | [], none => s.eventLoopRun S t a

/-- Every loop is about to add its end of the socketpair, and the loop 0 then the
listening socket. -/
def init (data : LoopId → δ) (connections : ConnectionId → TcpConnection) (isOpen : ℤ → Bool) :
    Process δ π where
  threads t := {
    loop := ⟨channelMapInit, data t⟩
    pending := []
    isHandlingPendingChannel := false
    work := .doChannelEvent t ⟨.add, .wakeup⟩ ::
      if t = 0 then [.doChannelEvent t ⟨.add, .acceptor⟩] else []
    handler := none
    pass := none }
  connections := connections
  created := 0
  isOpen := isOpen
  clients _ := false
  accepted := []
  closed := []
  log := []

/-- The states that the process reaches. What is in the memory of the connections before
they are created does not matter. -/
def Reached (s : Process δ π) : Prop :=
  ∃ data connections isOpen events,
    List.foldlM (step S) (init data connections isOpen) events = .ok s

end Process

end OsProgramming.Reactor
