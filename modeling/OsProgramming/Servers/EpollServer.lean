import OsProgramming.Library.Runs
import OsProgramming.Reactor.EpollDispatcher
import OsProgramming.Reactor.Socket

/-! `epoll_server.c`: one process, and edge-triggered `epoll` over the listening socket and the
clients. The kernel raises an edge for a watched descriptor when something arrives for it, and
an edge that has been reported is gone. -/

namespace OsProgramming.Servers.EpollServer

open Library Reactor

/-- The size of `receive_buf`. -/
def receiveSize : ℕ := 512

/-- The socket of a client: what it has sent that is unread, whether it has closed its end, what
the server has read and what the server has written. -/
structure Client where
  unread : List Byte
  ended : Bool
  received : List Byte
  sent : List Byte

/-- Where `main` is. -/
inductive Phase where
  /-- before the listening socket is watched -/
  | starting
  /-- in the loop over the reported events, or in `epoll_wait` if none is left -/
  | dispatching
  | reading (fd : ℤ)
  /-- `chunk` is what `receive_buf` holds -/
  | writing (fd : ℤ) (chunk : List Byte)
  deriving DecidableEq

/-- The clients below `arrived` have connected; those of `queue` are not accepted. `edges` are
the descriptors with an edge that has not been reported. -/
structure Server where
  queue : List ℕ
  arrived : ℕ
  clients : ℕ → Client
  listening : Bool
  descriptors : ℤ → Option ℕ
  watched : ℤ → Bool
  edges : ℤ → Bool
  batch : List EpollEvent
  phase : Phase

/-- The answers to `epoll_wait`, to `accept`, to `epoll_ctl`, to `read` and to `write`. A `read`
that does not fail takes `chunk` bytes more than one, if there are so many. -/
structure Answers where
  reports : List EpollEvent
  accept : ℤ
  added : Bool
  readFails : Bool
  chunk : ℕ
  write : WriteAnswer

inductive Event where
  /-- a client connects -/
  | connect
  /-- bytes of a client arrive -/
  | arrive (id : ℕ) (bytes : List Byte)
  /-- a client closes its end -/
  | finish (id : ℕ)
  /-- `main` goes on -/
  | turn (a : Answers)

/-- The condition of the first branch: an error, or nothing to read. -/
def Broken (event : EpollEvent) : Prop := event.Failed ∨ event.events &&& epollIn = 0

instance (event : EpollEvent) : Decidable (Broken event) := inferInstanceAs (Decidable (_ ∨ _))

/-- A client whose socket has nothing to read. -/
def newClient : Client := ⟨[], false, [], []⟩

namespace Server

variable (serverFd : ℤ) (s : Server)

/-- The listening socket is open and not watched yet. -/
def init : Server where
  queue := []
  arrived := 0
  clients _ := newClient
  listening := true
  descriptors _ := none
  watched _ := false
  edges _ := false
  batch := []
  phase := .starting

/-! ### The kernel -/

/-- Something has happened to a descriptor: an edge, if it is watched. -/
def signal (fd : ℤ) : Server :=
  { s with edges := fun fd' => s.edges fd' || (fd' = fd && s.watched fd) }

/-- Something has happened to the socket of a client. -/
def signalClient (id : ℕ) : Server :=
  { s with edges := fun fd => s.edges fd || (s.descriptors fd = some id && s.watched fd) }

def setClient (id : ℕ) (client : Client) : Server :=
  { s with clients := Function.update s.clients id client }

/-- `read` would not return `EAGAIN`. -/
def Readable (id : ℕ) : Prop := (s.clients id).unread ≠ [] ∨ (s.clients id).ended = true

instance (id : ℕ) : Decidable (s.Readable id) := inferInstanceAs (Decidable (_ ∨ _))

/-- A descriptor that an edge is reported for if there is one. -/
def Ready (fd : ℤ) : Prop :=
  if fd = serverFd then s.queue ≠ [] else ∃ id ∈ s.descriptors fd, s.Readable id

/-- After the listening socket is closed nobody can connect. -/
def connect : Server :=
  if s.listening then
    { s.signal serverFd with queue := s.queue ++ [s.arrived], arrived := s.arrived + 1 }
  else s

/-- A client that has closed its end sends nothing more. -/
def arrive (id : ℕ) (bytes : List Byte) : Server :=
  let client := s.clients id
  if s.arrived ≤ id ∨ client.ended = true ∨ bytes = [] then s
  else (s.setClient id { client with unread := client.unread ++ bytes }).signalClient id

def finish (id : ℕ) : Server :=
  if s.arrived ≤ id then s
  else (s.setClient id { s.clients id with ended := true }).signalClient id

/-- `close`, for a client or for the listening socket with what is in its queue. -/
def close (fd : ℤ) : Server :=
  { s with
    queue := if fd = serverFd then [] else s.queue
    listening := s.listening && fd ≠ serverFd
    descriptors := Function.update s.descriptors fd none
    watched := Function.update s.watched fd false
    edges := Function.update s.edges fd false }

/-- `EPOLL_CTL_ADD`: what is there already makes an edge. -/
def watch (fd : ℤ) (ready : Bool) : Server :=
  { s with
    watched := Function.update s.watched fd true
    edges := Function.update s.edges fd ready }

/-! ### The program -/

/-- The result of `epoll_ctl` is compared with 1, so nobody learns that it has failed. -/
def epollAdd (added : Bool) (fd : ℤ) (ready : Bool) : Server :=
  if added then s.watch fd ready else s

/-- What is reported has an edge, and has lost it then. -/
def epollWait (reports : List EpollEvent) : Server :=
  let batch := (reports.filter fun event => s.edges event.fd).take maxEvents
  { s with
    batch
    edges := fun fd => s.edges fd && decide (fd ∉ batch.map EpollEvent.fd) }

/-- The second branch: one client is accepted. A descriptor that is in use is not what `accept`
returns. -/
def acceptClient (a : Answers) : Result Server :=
  match s.queue with
  | [] => .error .exitFailure
  | id :: queue =>
    let clientFd := a.accept
    if clientFd < 0 ∨ clientFd = serverFd ∨ s.descriptors clientFd ≠ none then .error .exitFailure
    else
      let s := { s with queue, descriptors := Function.update s.descriptors clientFd (some id) }
      .ok (s.epollAdd a.added clientFd (s.Readable id))

/-- The loop over the events that were reported. -/
def dispatch (a : Answers) : Result Server :=
  match s.batch with
  | [] => .ok (s.epollWait a.reports)
  | event :: batch =>
    let s := { s with batch }
    if Broken event then .ok (s.close serverFd event.fd)
    else if serverFd = event.fd then s.acceptClient serverFd a
    else .ok { s with phase := .reading event.fd }

/-- `read` fails with `EAGAIN` where nothing is unread. -/
def readClient (fd : ℤ) (a : Answers) : Result Server :=
  match s.descriptors fd with
  | none => .error .exitFailure
  | some id =>
    let client := s.clients id
    if a.readFails then .error .exitFailure
    else if client.unread ≠ [] then
      let chunk := client.unread.take (min (a.chunk + 1) receiveSize)
      .ok { s.setClient id { client with
          unread := client.unread.drop chunk.length, received := client.received ++ chunk } with
        phase := .writing fd chunk }
    else if client.ended then .ok { s.close serverFd fd with phase := .dispatching }
    else .ok { s with phase := .dispatching }

/-- What `write` returns is only compared with 0. -/
def writeClient (fd : ℤ) (chunk : List Byte) (a : Answers) : Result Server :=
  match s.descriptors fd, a.write with
  | some id, .accepts room =>
    let client := s.clients id
    .ok { s.setClient id { client with sent := client.sent ++ chunk.take room } with
      phase := .reading fd }
  | _, _ => .error .exitFailure

/-- `main` goes on to the next of its calls. -/
def turn (a : Answers) : Result Server :=
  match s.phase with
  | .starting =>
    .ok { s.epollAdd a.added serverFd (s.queue ≠ []) with phase := .dispatching }
  | .dispatching => s.dispatch serverFd a
  | .reading fd => s.readClient serverFd fd a
  | .writing fd chunk => s.writeClient fd chunk a

def step : Event → Result Server
  | .connect => .ok (s.connect serverFd)
  | .arrive id bytes => .ok (s.arrive id bytes)
  | .finish id => .ok (s.finish id)
  | .turn a => s.turn serverFd a

end Server

end OsProgramming.Servers.EpollServer
