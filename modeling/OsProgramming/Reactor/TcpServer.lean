import OsProgramming.Library.Runs
import OsProgramming.Reactor.TcpConnection
import Mathlib.Data.Int.CardIntervalMod

/-! `thread_pool.c`, and the accepting half of `tcp_server.c`. The loop of a connection is
chosen round robin before anything is known of the connection. -/

namespace OsProgramming.Reactor

open Library

/-! ### The thread pool -/

/-- A thread is the loop that it runs. -/
structure ThreadPool where
  mainLoop : LoopId
  started : Bool
  threadNumber : ℤ
  threads : List LoopId
  position : ℤ
  deriving DecidableEq

def threadPoolNew (mainLoop : LoopId) (threadNumber : ℤ) : ThreadPool :=
  ⟨mainLoop, false, threadNumber, [], 0⟩

/-- The loop that the thread of this number creates. The loop 0 is that of `main`. -/
def eventLoopThreadStart (i : ℕ) : LoopId := i + 1

def threadPoolStart (pool : ThreadPool) : Result ThreadPool :=
  if pool.started then .error .assertFailed
  else if pool.threadNumber ≤ 0 then .ok { pool with started := true }
  else .ok { pool with
    started := true
    threads := (List.range pool.threadNumber.toNat).map eventLoopThreadStart }

/-- It runs in the thread of the main loop, as `assert_in_same_thread` demands. -/
def threadPoolPeekWorkLoop (pool : ThreadPool) : Result (LoopId × ThreadPool) :=
  if pool.started = false then .error .assertFailed
  else if 0 < pool.threadNumber then do
    let returnLoop ← load pool.threads pool.position
    let position := pool.position + 1
    .ok (returnLoop,
      { pool with position := if pool.threadNumber ≤ position then 0 else position })
  else .ok (pool.mainLoop, pool)

/-! ### The server -/

/-- `acceptorFd` is the descriptor of the acceptor. -/
structure TcpServer where
  loop : LoopId
  acceptorFd : ℤ
  callbacks : Callbacks
  ioThreadNumber : ℤ
  threadPool : ThreadPool
  data : Option ℕ

def tcpServerNew (loop : LoopId) (acceptorFd : ℤ) (callbacks : Callbacks) (ioThreadNumber : ℤ) :
    TcpServer :=
  ⟨loop, acceptorFd, callbacks, ioThreadNumber, threadPoolNew loop ioThreadNumber, none⟩

/-- `none` is the pointer `NULL`. -/
def tcpServerSetCallbackData (server : TcpServer) (data : Option ℕ) : TcpServer :=
  if data ≠ none then { server with data } else server

/-- The end of `handle_connection_established`. -/
def TcpServer.assignData (server : TcpServer) (connection : TcpConnection) : TcpConnection :=
  if server.data ≠ none then { connection with data := server.data } else connection

/-- The channel of the acceptor is posted to the loop of the server. -/
def tcpServerStart (server : TcpServer) : Result (TcpServer × Post) := do
  let threadPool ← threadPoolStart server.threadPool
  .ok ({ server with threadPool }, ⟨server.loop, server.acceptorFd, .add⟩)

/-- The server, and what it has done: the descriptors that were made non-blocking, the
connections in the order of their creation, those that `on_new_connection` has been called
for, and what was posted to the loops. -/
structure Service where
  server : TcpServer
  nonblocking : ℤ → Bool
  connections : List TcpConnection
  notified : List ConnectionId
  posts : List Post

/-- The answers to `accept`, and to the allocations for the connection. -/
structure Accepted where
  fd : ℤ
  input : Alloc Byte
  output : Alloc Byte

namespace Service

def start (acceptorFd : ℤ) (callbacks : Callbacks) (ioThreadNumber : ℤ) (data : Option ℕ) :
    Result Service := do
  let server := tcpServerSetCallbackData (tcpServerNew 0 acceptorFd callbacks ioThreadNumber) data
  let (server, post) ← tcpServerStart server
  .ok ⟨server, fun _ => false, [], [], [post]⟩

/-- `fcntl` fails for a descriptor of -1. -/
def makeNonblocking (s : Service) (fd : ℤ) : Service :=
  if 0 ≤ fd then { s with nonblocking := Function.update s.nonblocking fd true } else s

/-- What `accept` returns is not looked at. -/
def handleConnectionEstablished (s : Service) (accepted : Accepted) : Result Service := do
  let clientFd := accepted.fd
  let s := s.makeNonblocking clientFd
  let server := s.server
  let (serviceLoop, threadPool) ← threadPoolPeekWorkLoop server.threadPool
  let id := s.connections.length
  match tcpConnectionNew id clientFd serviceLoop server.callbacks accepted.input accepted.output with
  | none => .error .outOfBounds
  | some connection =>
    .ok { s with
      server := { server with threadPool }
      connections := s.connections ++ [server.assignData connection]
      notified := if server.callbacks.onNewConnection then s.notified ++ [id] else s.notified
      posts := s.posts ++ [⟨serviceLoop, clientFd, .add⟩] }

/-! ### What is expected of it -/

/-- The loop of the connection of a number. -/
def workLoop (workers i : ℕ) : LoopId :=
  if workers = 0 then 0 else eventLoopThreadStart (i % workers)

def successes (accepts : List Accepted) : List Accepted := accepts.filter (0 ≤ ·.fd)

/-- The connections of a worker. -/
def workload (s : Service) (worker : ℕ) : ℕ :=
  s.connections.countP (·.loop = eventLoopThreadStart worker)

/-- A connection for each `accept` that succeeds, round robin, of which the application is told
once. -/
structure Distributed (workers : ℕ) (accepts : List Accepted) (s : Service) : Prop where
  connections : s.connections.map (fun c => (c.channel.fd, c.loop)) =
    (successes accepts).mapIdx fun i a => (a.fd, workLoop workers i)
  notified : s.notified =
    if s.server.callbacks.onNewConnection then List.range (successes accepts).length else []
  balanced : ∀ i j, i < workers → j < workers → s.workload i ≤ s.workload j + 1

/-- An `accept` that fails changes nothing. -/
def FailureKeeps (s : Service) (accepted : Accepted) (s' : Service) : Prop :=
  accepted.fd < 0 → s' = s

/-! ### The cursor -/

/-- The pool when `count` loops have been chosen. -/
def servingPool (workers count : ℕ) : ThreadPool :=
  ⟨0, true, workers, (List.range workers).map eventLoopThreadStart,
    if workers = 0 then 0 else (count % workers : ℕ)⟩

theorem peekWorkLoop_serving (workers count : ℕ) :
    threadPoolPeekWorkLoop (servingPool workers count) =
      .ok (workLoop workers count, servingPool workers (count + 1)) := by
  rcases Nat.eq_zero_or_pos workers with rfl | hpos
  · rfl
  · have hlt : count % workers < workers := Nat.mod_lt _ hpos
    have hload : load ((List.range workers).map eventLoopThreadStart) (count % workers : ℕ) =
        .ok (eventLoopThreadStart (count % workers)) := by
      rw [load_natCast _ (by simpa using hlt)]
      simp
    have hnext : (if (workers : ℤ) ≤ (count % workers : ℕ) + 1 then 0
        else ((count % workers : ℕ) : ℤ) + 1) = ((count + 1) % workers : ℕ) := by
      rw [← Nat.mod_add_mod]
      generalize count % workers = position at hlt
      split_ifs with hlast
      · obtain rfl : position + 1 = workers := by omega
        rw [Nat.mod_self, Nat.cast_zero]
      · rw [Nat.mod_eq_of_lt (by omega)]
        rfl
    simp only [threadPoolPeekWorkLoop, servingPool, workLoop, hpos.ne', if_false, Nat.cast_pos, hpos,
      if_true, hload, ok_bind, hnext, Bool.true_eq_false]

section

variable {workers : ℕ} {callbacks : Callbacks} {s s' : Service} {accepts : List Accepted}

/-- The state after `accepts`, which may have failed. -/
structure Follows (workers : ℕ) (callbacks : Callbacks) (s : Service) (accepts : List Accepted) :
    Prop where
  threadPool : s.server.threadPool = servingPool workers accepts.length
  callbacks_eq : s.server.callbacks = callbacks
  connections : s.connections.map (fun c => (c.channel.fd, c.loop)) =
    accepts.mapIdx fun i a => (a.fd, workLoop workers i)
  notified : s.notified =
    if callbacks.onNewConnection then List.range accepts.length else []

theorem Follows.length_connections (h : Follows workers callbacks s accepts) :
    s.connections.length = accepts.length := by
  have hlength := congrArg List.length h.connections
  rwa [List.length_map, List.length_mapIdx] at hlength

theorem tcpConnectionNew_some (id : ConnectionId) (fd : ℤ) (loop : LoopId) (callbacks : Callbacks)
    (input output : Alloc Byte) : ∃ c, tcpConnectionNew id fd loop callbacks input output = some c ∧
      c.channel.fd = fd ∧ c.loop = loop :=
  ⟨_, rfl, rfl, rfl⟩

theorem assignData_channel (server : TcpServer) (c : TcpConnection) :
    (server.assignData c).channel = c.channel ∧ (server.assignData c).loop = c.loop := by
  rw [TcpServer.assignData]
  split_ifs <;> exact ⟨rfl, rfl⟩

theorem makeNonblocking_same (s : Service) (fd : ℤ) :
    (s.makeNonblocking fd).server = s.server ∧
      (s.makeNonblocking fd).connections = s.connections ∧
      (s.makeNonblocking fd).notified = s.notified ∧ (s.makeNonblocking fd).posts = s.posts := by
  rw [makeNonblocking]
  split_ifs <;> exact ⟨rfl, rfl, rfl, rfl⟩

/-- A call makes a connection, whatever `accept` has returned. -/
theorem Follows.handleConnectionEstablished (h : Follows workers callbacks s accepts)
    (a : Accepted) : ∃ s', s.handleConnectionEstablished a = .ok s' ∧
      Follows workers callbacks s' (accepts ++ [a]) := by
  have hpeek := peekWorkLoop_serving workers accepts.length
  rw [← h.threadPool] at hpeek
  obtain ⟨c, hnew, hfd, hloop⟩ := tcpConnectionNew_some s.connections.length a.fd
    (workLoop workers accepts.length) s.server.callbacks a.input a.output
  have hret : s.handleConnectionEstablished a = .ok {
      server := { s.server with threadPool := servingPool workers (accepts.length + 1) }
      nonblocking := (s.makeNonblocking a.fd).nonblocking
      connections := s.connections ++ [s.server.assignData c]
      notified := if s.server.callbacks.onNewConnection then s.notified ++ [s.connections.length]
        else s.notified
      posts := s.posts ++ [⟨workLoop workers accepts.length, a.fd, .add⟩] } := by
    unfold Service.handleConnectionEstablished
    obtain ⟨hserver, hconnections, hnotified, hposts⟩ := makeNonblocking_same s a.fd
    simp only [hserver, hconnections, hnotified, hposts, hpeek, ok_bind, hnew]
  refine ⟨_, hret, ?_, h.callbacks_eq, ?_, ?_⟩
  · rw [List.length_append]
    rfl
  · obtain ⟨hchannel, hassigned⟩ := assignData_channel s.server c
    simp only [List.map_append, List.mapIdx_append, h.connections, List.map_cons, List.map_nil,
      List.mapIdx_cons, List.mapIdx_nil, hchannel, hassigned, hfd, hloop, Nat.zero_add]
  · simp only [h.notified, h.callbacks_eq, h.length_connections, List.length_append,
      List.length_singleton, List.range_succ]
    split_ifs <;> rfl

theorem start_follows (acceptorFd : ℤ) (callbacks : Callbacks) (workers : ℕ) (data : Option ℕ) :
    ∃ s₀, start acceptorFd callbacks workers data = .ok s₀ ∧ Follows workers callbacks s₀ [] := by
  have hserver : ∃ data',
      tcpServerSetCallbackData (tcpServerNew 0 acceptorFd callbacks workers) data =
        ⟨0, acceptorFd, callbacks, workers, threadPoolNew 0 workers, data'⟩ := by
    rw [tcpServerSetCallbackData]
    split_ifs
    · exact ⟨data, rfl⟩
    · exact ⟨none, rfl⟩
  obtain ⟨data', hserver⟩ := hserver
  have hpool : threadPoolStart (threadPoolNew 0 workers) = .ok (servingPool workers 0) := by
    rcases Nat.eq_zero_or_pos workers with rfl | hpos
    · rfl
    · simp [threadPoolStart, threadPoolNew, servingPool, hpos.ne']
  have hstart : start acceptorFd callbacks workers data =
      .ok ⟨⟨0, acceptorFd, callbacks, workers, servingPool workers 0, data'⟩, fun _ => false, [], [],
        [⟨0, acceptorFd, .add⟩]⟩ := by
    simp only [start, hserver, tcpServerStart, hpool, ok_bind]
  exact ⟨_, hstart, rfl, rfl, rfl, by split_ifs <;> rfl⟩

theorem Follows.run (h : Follows workers callbacks s []) (accepts : List Accepted) :
    ∃ s', accepts.foldlM Service.handleConnectionEstablished s = .ok s' ∧
      Follows workers callbacks s' accepts := by
  have hstep : ∀ s accepts a, Follows workers callbacks s accepts → True →
      ∃ s', s.handleConnectionEstablished a = .ok s' ∧
        Follows workers callbacks s' (accepts ++ [a]) :=
    fun _ _ a hs _ => hs.handleConnectionEstablished a
  obtain ⟨s', hrun, hfollows⟩ := foldlM_simulates hstep h (admissible_true s accepts)
  have happend : accepts.foldl (fun accepts a => accepts ++ [a]) [] = accepts := by
    simp [List.foldl_append_eq_append, ← List.flatMap_def]
  rw [happend] at hfollows
  exact ⟨s', hrun, hfollows⟩

/-! ### The loads -/

/-- The connections that a worker has among the first ones. -/
theorem countP_workLoop {i : ℕ} (hi : i < workers) (count : ℕ) :
    (List.range count).countP (fun k => workLoop workers k = eventLoopThreadStart i) =
      count / workers + if i < count % workers then 1 else 0 := by
  have hpos : 0 < workers := Nat.zero_lt_of_lt hi
  have hcount := Nat.count_modEq_card count hpos i
  rw [Nat.mod_eq_of_lt hi] at hcount
  rw [← hcount, Nat.count]
  refine List.countP_congr fun k _ => ?_
  simp [workLoop, hpos.ne', eventLoopThreadStart, Nat.ModEq, Nat.mod_eq_of_lt hi]

theorem Follows.workload_eq (h : Follows workers callbacks s accepts) {i : ℕ} (hi : i < workers) :
    s.workload i = accepts.length / workers + if i < accepts.length % workers then 1 else 0 := by
  have hloops : s.connections.map TcpConnection.loop =
      (List.range accepts.length).map (workLoop workers) := by
    refine List.ext_getElem (by simp [h.length_connections]) fun k hk _ => ?_
    have hlt : k < s.connections.length := by simpa using hk
    have hpair := congrArg (·[k]?) h.connections
    simp only [List.getElem?_map, List.getElem?_mapIdx, List.getElem?_eq_getElem hlt,
      List.getElem?_eq_getElem (h.length_connections ▸ hlt), Option.map_some, Option.some.injEq,
      Prod.mk.injEq] at hpair
    simpa using hpair.2
  have hcount := congrArg (List.countP (· = eventLoopThreadStart i)) hloops
  rw [List.countP_map, List.countP_map] at hcount
  rw [← countP_workLoop hi]
  exact hcount

theorem Follows.distributed_iff (h : Follows workers callbacks s accepts) :
    Distributed workers accepts s ↔ ∀ a ∈ accepts, 0 ≤ a.fd := by
  have hsuccesses : successes accepts = accepts ↔ ∀ a ∈ accepts, 0 ≤ a.fd := by
    simp [successes]
  rw [← hsuccesses]
  constructor
  · intro hdistributed
    have hlength := congrArg List.length (h.connections.symm.trans hdistributed.connections)
    rw [List.length_mapIdx, List.length_mapIdx] at hlength
    exact List.filter_sublist.eq_of_length hlength.symm
  · intro hall
    refine ⟨?_, ?_, ?_⟩
    · rw [hall]
      exact h.connections
    · rw [hall, h.callbacks_eq]
      exact h.notified
    · intro i j hi hj
      rw [h.workload_eq hi, h.workload_eq hj]
      split_ifs <;> omega

end

/-- Whatever the answers to `accept` are, the server goes on; what it does is as expected if and
only if none of them is a failure. -/
theorem connections_distributed_iff (acceptorFd : ℤ) (callbacks : Callbacks) (workers : ℕ)
    (data : Option ℕ) (accepts : List Accepted) :
    ∃ s₀ s, start acceptorFd callbacks workers data = .ok s₀ ∧
      accepts.foldlM Service.handleConnectionEstablished s₀ = .ok s ∧
      (EachStep Service.handleConnectionEstablished FailureKeeps s₀ accepts ∧
        Distributed workers accepts s ↔ ∀ a ∈ accepts, 0 ≤ a.fd) := by
  obtain ⟨s₀, hstart, hfollows⟩ := start_follows acceptorFd callbacks workers data
  obtain ⟨s, hrun, hfollows⟩ := hfollows.run accepts
  refine ⟨s₀, s, hstart, hrun, ?_⟩
  rw [hfollows.distributed_iff, and_iff_right_of_imp]
  intro hall
  exact .of_forall fun a ha _ _ _ hneg => absurd hneg (not_lt.mpr (hall a ha))

def acceptOf (fd : ℤ) : Accepted := ⟨fd, none, none⟩

/-- Two workers, and the second `accept` finds nothing: the application is told of a connection
for the descriptor -1, and the first worker has both clients. -/
theorem failed_accept_makes_connection :
    ∃ s₀ s, start 4 ⟨true, true, true, true⟩ 2 none = .ok s₀ ∧
      [acceptOf 5, acceptOf (-1), acceptOf 6].foldlM Service.handleConnectionEstablished s₀ =
        .ok s ∧
      s.notified = [0, 1, 2] ∧
      s.connections.map (fun c => (c.channel.fd, c.loop)) = [(5, 1), (-1, 2), (6, 1)] ∧
      ¬ Distributed 2 [acceptOf 5, acceptOf (-1), acceptOf 6] s := by
  obtain ⟨s₀, hstart, hrun⟩ : ∃ s₀, start 4 ⟨true, true, true, true⟩ 2 none = .ok s₀ ∧
      ([acceptOf 5, acceptOf (-1), acceptOf 6].foldlM Service.handleConnectionEstablished
        s₀).toOption.any (fun s => s.notified = [0, 1, 2] ∧
          s.connections.map (fun c => (c.channel.fd, c.loop)) = [(5, 1), (-1, 2), (6, 1)]) = true :=
    exists_ok_of_any (by decide +kernel)
  obtain ⟨s, hs, hnotified, hconnections⟩ := exists_ok_of_any hrun
  refine ⟨s₀, s, hstart, hs, hnotified, hconnections, fun hdistributed => ?_⟩
  have hexpected := hconnections.symm.trans hdistributed.connections
  revert hexpected
  decide

end Service

end OsProgramming.Reactor
