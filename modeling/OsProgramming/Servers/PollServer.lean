import OsProgramming.Reactor.PollPass
import OsProgramming.Reactor.Socket

/-! `poll_server.c`: one process and one `poll` over the listening socket and all of its
clients, whose slots are searched for a free one when a client comes. After `accept` the rest
of the pass is left out if `poll` has counted nothing else. -/

namespace OsProgramming.Servers.PollServer

open Library Reactor Reactor.LoopState

def initSize : ℕ := 128

def maxLine : ℕ := 4096

/-- What a client has sent, and what it has been sent. -/
structure Log where
  received : List Byte
  sent : List Byte

/-- `connections` are the descriptors of the clients that the process has open. -/
structure Server where
  eventSet : List PollFd
  connections : List ℤ
  log : ℤ → Log

/-- What the kernel does in one pass. `read` and `write` block, so each client has one answer,
and a `write` that does not fail takes everything. -/
structure Pass where
  failed : Bool
  revents : ℕ → BitVec 15
  accepted : ℤ
  reads : ℤ → ReadAnswer
  writeFails : ℤ → Bool

/-- `fill` is what is on the stack. -/
def init (serverFd : ℤ) (fill : ℕ → PollFd) : Server where
  eventSet := ⟨serverFd, pollRdNorm, (fill 0).revents⟩ ::
    (List.range (initSize - 1)).map fun i => { fill (i + 1) with fd := -1 }
  connections := []
  log := fun _ => ⟨[], []⟩

def closeClient (s : Server) (fd : ℤ) : Server := { s with connections := s.connections.erase fd }

/-- What `accept` returns may be none. -/
def openClient (s : Server) (fd : ℤ) : Server :=
  if fd < 0 then s
  else { s with
    connections := fd :: s.connections
    log := Function.update s.log fd ⟨[], []⟩ }

def echo (s : Server) (fd : ℤ) (bytes : List Byte) : Server :=
  { s with log := Function.update s.log fd ⟨(s.log fd).received ++ bytes, (s.log fd).sent ++ bytes⟩ }

/-- The bytes that one call of `read` gets from a client. -/
def Pass.chunk (pass : Pass) (fd : ℤ) : List Byte :=
  match pass.reads fd with
  | .failed _ => []
  | .offered bytes => bytes.take maxLine

/-- The handling of a slot that is ready. -/
def serve (pass : Pass) (s : Server) (slot : PollFd) : Result (PollFd × Server) :=
  match pass.reads slot.fd with
  | .offered [] | .failed .econnreset => .ok ({ slot with fd := -1 }, closeClient s slot.fd)
  | .failed _ => .error .exitFailure
  | .offered bytes =>
    if pass.writeFails slot.fd then .error .exitFailure
    else .ok (slot, echo s slot.fd (bytes.take maxLine))

def ready (slot : PollFd) : Bool := slot.revents &&& (pollRdNorm ||| pollErr) ≠ 0

/-- The loop over the clients. The `continue` at its end does nothing, so it goes on whatever
is left of the count. -/
def scan (pass : Pass) : List PollFd → ℤ → Server → Result (List PollFd × Server)
  | [], _, s => .ok ([], s)
  | slot :: slots, readyFdCount, s =>
    if slot.fd < 0 then do
      let (slots, s) ← scan pass slots readyFdCount s
      .ok (slot :: slots, s)
    else do
      let (slot, s) ← (if ready slot then serve pass s slot else .ok (slot, s))
      let (slots, s) ← scan pass slots (readyFdCount - 1) s
      .ok (slot :: slots, s)

/-- The branch of the listening socket. A descriptor of `accept` that is none is put into a slot
like the others. -/
def acceptClient (pass : Pass) (clients : List PollFd) (s : Server) : Result (List PollFd × Server) :=
  if clients.any (·.fd < 0) then
    .ok (modifyFirst (·.fd < 0) (fun slot => { slot with fd := pass.accepted, events := pollRdNorm })
        clients, openClient s pass.accepted)
  else .error .exitFailure

/-- One round of the loop of `main`. -/
def step (s : Server) (pass : Pass) : Result Server :=
  if pass.failed then .error .exitFailure
  else
    match pollReturns pass.revents s.eventSet with
    | [] => .error .outOfBounds
    | listening :: clients => do
      let readyFdCount : ℤ := pollReady (listening :: clients)
      if listening.revents &&& pollRdNorm ≠ 0 then
        let (clients, s) ← acceptClient pass clients s
        if readyFdCount - 1 ≤ 0 then .ok { s with eventSet := listening :: clients }
        else
          let (clients, s) ← scan pass clients (readyFdCount - 1) s
          .ok { s with eventSet := listening :: clients }
      else
        let (clients, s) ← scan pass clients readyFdCount s
        .ok { s with eventSet := listening :: clients }

/-- The same without the count: every pass looks at every client. -/
def plainScan (pass : Pass) : List PollFd → Server → Result (List PollFd × Server)
  | [], s => .ok ([], s)
  | slot :: slots, s => do
    let (slot, s) ← (if 0 ≤ slot.fd ∧ ready slot then serve pass s slot else .ok (slot, s))
    let (slots, s) ← plainScan pass slots s
    .ok (slot :: slots, s)

def plainStep (s : Server) (pass : Pass) : Result Server :=
  if pass.failed then .error .exitFailure
  else
    match pollReturns pass.revents s.eventSet with
    | [] => .error .outOfBounds
    | listening :: clients => do
      let (clients, s) ←
        (if listening.revents &&& pollRdNorm ≠ 0 then acceptClient pass clients s else .ok (clients, s))
      let (clients, s) ← plainScan pass clients s
      .ok { s with eventSet := listening :: clients }

/-! ### The count -/

variable {s s' : Server} {pass : Pass} {slots slots' clients : List PollFd} {serverFd : ℤ}

theorem scan_eq_plainScan (readyFdCount : ℤ) :
    scan pass slots readyFdCount s = plainScan pass slots s := by
  induction slots generalizing readyFdCount s with
  | nil => rfl
  | cons slot slots ih =>
    rw [scan, plainScan]
    by_cases hfree : slot.fd < 0
    · rw [if_pos hfree, if_neg fun h => absurd h.1 (not_le.mpr hfree), ok_bind, ih]
    · simp only [hfree, not_lt.mp hfree, if_false, true_and, ih]

/-- Where nothing is ready, nothing happens. -/
theorem plainScan_quiet (hquiet : ∀ slot ∈ slots, slot.revents = 0) :
    plainScan pass slots s = .ok (slots, s) := by
  induction slots with
  | nil => rfl
  | cons slot slots ih =>
    have hslot : ready slot = false := by simp [ready, hquiet slot List.mem_cons_self]
    have hrest := ih fun slot hmem => hquiet slot (List.mem_cons_of_mem _ hmem)
    simp only [plainScan, hslot, Bool.false_eq_true, and_false, if_false, ok_bind, hrest]

/-- A slot that is filled has not been polled for. -/
theorem acceptClient_quiet (hquiet : ∀ slot ∈ clients, slot.revents = 0)
    (h : acceptClient pass clients s = .ok (slots, s')) : ∀ slot ∈ slots, slot.revents = 0 := by
  rw [acceptClient] at h
  split_ifs at h
  cases h
  intro slot hmem
  obtain ⟨i, hi⟩ := List.mem_iff_getElem?.mp hmem
  obtain ⟨slot', hslot', rfl | ⟨-, rfl⟩⟩ := getElem?_modifyFirst_cases hi
  · exact hquiet slot (List.mem_of_getElem? hslot')
  · exact hquiet slot' (List.mem_of_getElem? hslot')

/-- Leaving out the clients when `poll` has counted the listening socket only makes no
difference. -/
theorem step_eq_plainStep (s : Server) (pass : Pass) : step s pass = plainStep s pass := by
  rw [step, plainStep]
  split_ifs
  · rfl
  split
  · rfl
  next listening clients hpoll =>
    simp only [scan_eq_plainScan]
    by_cases hlistening : listening.revents &&& pollRdNorm ≠ 0
    · rw [if_pos hlistening, if_pos hlistening]
      cases haccept : acceptClient pass clients s with
      | error e => rfl
      | ok accepted =>
        obtain ⟨slots, s'⟩ := accepted
        simp only [ok_bind]
        split_ifs with hcount
        · have hfirst : listening.revents ≠ 0 := by
            intro hzero
            simp [hzero] at hlistening
          have hnone : clients.countP (fun slot => slot.revents ≠ 0) = 0 := by
            rw [pollReady, List.countP_cons, if_pos (by simpa using hfirst)] at hcount
            omega
          have hquiet : ∀ slot ∈ clients, slot.revents = 0 := by
            intro slot hmem
            simpa using List.countP_eq_zero.mp hnone slot hmem
          rw [plainScan_quiet (acceptClient_quiet hquiet haccept), ok_bind]
        · rfl
    · rw [if_neg hlistening, if_neg hlistening, ok_bind]

/-- A pass of `poll_server.c` looks at its clients exactly when one of them is ready. -/
theorem poll_server_count (s : Server) (passes : List Pass) :
    passes.foldlM step s = passes.foldlM plainStep s := by
  have heq : step = plainStep := funext₂ step_eq_plainStep
  rw [heq]

/-! ### The clients -/

/-- The descriptors of the slots that are in use. -/
def clientFds (clients : List PollFd) : List ℤ :=
  (clients.map PollFd.fd).filter (0 ≤ ·)

/-- Each open connection has one slot, which watches it, and has been sent what it has sent. -/
structure Clients (clients : List PollFd) (s : Server) : Prop where
  slots : (clientFds clients).Perm s.connections
  nodup : s.connections.Nodup
  watched : ∀ slot ∈ clients, 0 ≤ slot.fd → slot.events = pollRdNorm
  echoed : ∀ fd, (s.log fd).sent = (s.log fd).received

theorem clientFds_append (clients clients' : List PollFd) :
    clientFds (clients ++ clients') = clientFds clients ++ clientFds clients' := by
  simp [clientFds]

theorem clientFds_cons (slot : PollFd) (clients : List PollFd) :
    clientFds (slot :: clients) = if 0 ≤ slot.fd then slot.fd :: clientFds clients else clientFds clients := by
  unfold clientFds
  split_ifs with h <;> simp [h]

variable {before behind : List PollFd} {slot slot' : PollFd} {fd : ℤ}

/-- A slot in use, ahead of the others. -/
theorem clientFds_middle (h : 0 ≤ slot.fd) :
    (clientFds (before ++ slot :: behind)).Perm (slot.fd :: clientFds (before ++ behind)) := by
  rw [clientFds_append, clientFds_cons, if_pos h, clientFds_append]
  exact List.perm_middle

theorem clientFds_free (h : slot.fd < 0) :
    clientFds (before ++ slot :: behind) = clientFds (before ++ behind) := by
  rw [clientFds_append, clientFds_cons, if_neg h.not_ge, clientFds_append]

theorem Clients.close (h : Clients (before ++ slot :: behind) s) (hused : 0 ≤ slot.fd) :
    Clients (before ++ { slot with fd := -1 } :: behind) (closeClient s slot.fd) where
  slots := by
    rw [clientFds_free (show (-1 : ℤ) < 0 by decide)]
    exact (List.cons_perm_iff_perm_erase.mp ((clientFds_middle hused).symm.trans h.slots)).2
  nodup := h.nodup.erase _
  watched := by
    intro slot' hmem hused'
    rcases List.mem_append.mp hmem with hmem | hmem
    · exact h.watched slot' (List.mem_append_left _ hmem) hused'
    rcases List.mem_cons.mp hmem with rfl | hmem
    · exact absurd hused' (show ¬ (0 : ℤ) ≤ -1 by decide)
    · exact h.watched slot' (List.mem_append_right _ (List.mem_cons_of_mem _ hmem)) hused'
  echoed := h.echoed

theorem Clients.echo (h : Clients clients s) (fd : ℤ) (bytes : List Byte) :
    Clients clients (echo s fd bytes) where
  slots := h.slots
  nodup := h.nodup
  watched := h.watched
  echoed := by
    intro fd'
    by_cases hfd : fd' = fd
    · subst hfd
      simp [PollServer.echo, h.echoed]
    · simp [PollServer.echo, Function.update_of_ne hfd, h.echoed]

theorem Clients.openClient (h : Clients (before ++ slot :: behind) s) (hfree : slot.fd < 0)
    (hfresh : fd ∉ s.connections) :
    Clients (before ++ { slot with fd := fd, events := pollRdNorm } :: behind) (openClient s fd) := by
  have hwatched : ∀ slot' ∈ before ++ { slot with fd := fd, events := pollRdNorm } :: behind,
      0 ≤ slot'.fd → slot'.events = pollRdNorm := by
    intro slot' hmem hused
    rcases List.mem_append.mp hmem with hmem | hmem
    · exact h.watched slot' (List.mem_append_left _ hmem) hused
    rcases List.mem_cons.mp hmem with rfl | hmem
    · rfl
    · exact h.watched slot' (List.mem_append_right _ (List.mem_cons_of_mem _ hmem)) hused
  have hslots := h.slots
  rw [clientFds_free hfree] at hslots
  rw [PollServer.openClient]
  split_ifs with hnone
  · exact ⟨by rwa [clientFds_free hnone], h.nodup, hwatched, h.echoed⟩
  · refine ⟨(clientFds_middle (not_lt.mp hnone)).trans (hslots.cons _), ?_, hwatched, ?_⟩
    · exact List.nodup_cons.mpr ⟨hfresh, h.nodup⟩
    · intro fd'
      by_cases hfd : fd' = fd
      · subst hfd
        simp
      · simp [Function.update_of_ne hfd, h.echoed]

/-! ### One pass -/

/-- The process does not end because of the client. -/
def Serves (pass : Pass) (fd : ℤ) : Prop :=
  match pass.reads fd with
  | .offered [] => True
  | .offered _ => pass.writeFails fd = false
  | .failed errno => errno = .econnreset

theorem Clients.serve (h : Clients (before ++ slot :: behind) s) (hused : 0 ≤ slot.fd)
    (hserves : Serves pass slot.fd) :
    ∃ slot' s', serve pass s slot = .ok (slot', s') ∧ Clients (before ++ slot' :: behind) s' := by
  rw [Serves] at hserves
  rw [PollServer.serve]
  split at hserves
  next hread => exact ⟨_, _, by rw [hread], h.close hused⟩
  next bytes hne hread =>
    cases bytes with
    | nil => exact absurd rfl hne
    | cons byte bytes => exact ⟨_, _, by simp only [hread, hserves]; rfl, h.echo _ _⟩
  next errno hread =>
    subst hserves
    exact ⟨_, _, by rw [hread], h.close hused⟩

theorem serve_error (hserves : ¬ Serves pass slot.fd) :
    serve pass s slot = .error .exitFailure := by
  rw [Serves] at hserves
  rw [serve]
  split at hserves
  next hread => exact absurd trivial hserves
  next bytes hne hread =>
    cases bytes with
    | nil => exact absurd rfl hne
    | cons byte bytes => simp [hread, hserves]
  next errno hread =>
    rw [hread]
    cases errno with
    | econnreset => exact absurd rfl hserves
    | ewouldblock | eintr | epipe | other _ => rfl

theorem serve_fault {e : Fault} (h : serve pass s slot = .error e) : e = .exitFailure := by
  rw [serve] at h
  split at h
  · cases h
  · cases h
  · cases h
    rfl
  · split_ifs at h
    cases h
    rfl

theorem Clients.plainScan (h : Clients (before ++ slots) s)
    (hserves : ∀ slot ∈ slots, 0 ≤ slot.fd → ready slot → Serves pass slot.fd) :
    ∃ slots' s', plainScan pass slots s = .ok (slots', s') ∧ slots'.length = slots.length ∧
      Clients (before ++ slots') s' := by
  induction slots generalizing before s with
  | nil => exact ⟨[], s, rfl, rfl, h⟩
  | cons slot slots ih =>
    have hslot : ∃ slot' s', (if 0 ≤ slot.fd ∧ ready slot then PollServer.serve pass s slot
        else .ok (slot, s)) = .ok (slot', s') ∧ Clients (before ++ slot' :: slots) s' := by
      split_ifs with hready
      · exact h.serve hready.1 (hserves slot List.mem_cons_self hready.1 hready.2)
      · exact ⟨slot, s, rfl, h⟩
    obtain ⟨slot', s₁, hserve, h₁⟩ := hslot
    rw [List.append_cons] at h₁
    obtain ⟨slots', s', hscan, hlength, h'⟩ :=
      ih h₁ fun slot hmem => hserves slot (List.mem_cons_of_mem _ hmem)
    refine ⟨slot' :: slots', s', ?_, by rw [List.length_cons, List.length_cons, hlength], ?_⟩
    · simp only [PollServer.plainScan, hserve, ok_bind, hscan]
    · rwa [List.append_cons]

theorem plainScan_error (hserves : ¬ ∀ slot ∈ slots, 0 ≤ slot.fd → ready slot → Serves pass slot.fd) :
    plainScan pass slots s = .error .exitFailure := by
  induction slots generalizing s with
  | nil => exact absurd (fun _ hmem => absurd hmem List.not_mem_nil) hserves
  | cons slot slots ih =>
    rw [List.forall_mem_cons, not_and_or] at hserves
    rw [plainScan]
    by_cases hready : 0 ≤ slot.fd ∧ ready slot
    · rw [if_pos hready]
      by_cases hslot : Serves pass slot.fd
      · have hrest := hserves.resolve_left fun h => h fun _ _ => hslot
        cases hserve : serve pass s slot with
        | error e => rw [serve_fault hserve, error_bind]
        | ok served => simp only [ok_bind, ih hrest, error_bind]
      · rw [serve_error hslot, error_bind]
    · rw [if_neg hready, ok_bind]
      have hrest := hserves.resolve_left fun h => h fun hused hslot => absurd ⟨hused, hslot⟩ hready
      simp only [ih hrest, error_bind]

theorem Clients.acceptClient (h : Clients clients s) (hfresh : pass.accepted ∉ s.connections)
    (hroom : ∃ slot ∈ clients, slot.fd < 0) :
    ∃ slots s', acceptClient pass clients s = .ok (slots, s') ∧ slots.length = clients.length ∧
      Clients slots s' := by
  have hfree : ∃ slot ∈ clients, decide (slot.fd < 0) = true := by simpa using hroom
  obtain ⟨before, slot, behind, rfl, hslot, hmodify⟩ := modifyFirst_of_exists
    (fun slot : PollFd => { slot with fd := pass.accepted, events := pollRdNorm }) hfree
  rw [PollServer.acceptClient, if_pos (List.any_eq_true.mpr hfree), hmodify]
  exact ⟨_, _, rfl, by simp, h.openClient (of_decide_eq_true hslot) hfresh⟩

/-- The slots as `poll` leaves them. -/
def polled (s : Server) (pass : Pass) : List PollFd := pollReturns pass.revents s.eventSet

/-- There is a slot for a client that comes, or for the failure of `accept`, and the process
does not end because of a client. -/
def Survives (s : Server) (pass : Pass) : Prop :=
  pass.failed = false ∧
    (∀ listening ∈ (polled s pass).head?, listening.revents &&& pollRdNorm ≠ 0 →
      ∃ slot ∈ s.eventSet.tail, slot.fd < 0) ∧
    ∀ slot ∈ (polled s pass).tail, 0 ≤ slot.fd → ready slot → Serves pass slot.fd

/-- What the client on a descriptor has for the process in a pass, if it is ready. -/
def arrivals (pass : Pass) (slots : List PollFd) (fd : ℤ) : List Byte :=
  slots.flatMap fun slot =>
    if slot.fd = fd ∧ 0 ≤ fd ∧ ready slot then pass.chunk fd else []

/-- A client comes, and gets the descriptor. -/
def Comes (s : Server) (pass : Pass) (fd : ℤ) : Prop :=
  (∃ listening ∈ (polled s pass).head?, listening.revents &&& pollRdNorm ≠ 0) ∧
    pass.accepted = fd ∧ 0 ≤ fd

/-- The process has received from every client what it had; a client that comes has nothing
behind it. -/
def Follows (s : Server) (pass : Pass) (s' : Server) : Prop :=
  ∀ fd, (Comes s pass fd → (s'.log fd).received = arrivals pass (polled s pass).tail fd) ∧
    (¬ Comes s pass fd →
      (s'.log fd).received = (s.log fd).received ++ arrivals pass (polled s pass).tail fd)

/-- A new connection gets a descriptor that is not open. -/
def Fresh (s : Server) (pass : Pass) : Prop := pass.accepted ∉ s.connections

structure Table (serverFd : ℤ) (s : Server) : Prop where
  length_eq : s.eventSet.length = initSize
  listening : ∀ slot ∈ s.eventSet.head?, slot.fd = serverFd ∧ slot.events = pollRdNorm
  clients : Clients s.eventSet.tail s

theorem table_init (serverFd : ℤ) (fill : ℕ → PollFd) : Table serverFd (init serverFd fill) := by
  have hfree : ∀ slot ∈ (init serverFd fill).eventSet.tail, slot.fd = -1 := by
    intro slot hmem
    obtain ⟨i, -, rfl⟩ := List.mem_map.mp hmem
    rfl
  refine ⟨by simp [init, initSize], by simp [init], ?_, List.nodup_nil, ?_, fun _ => rfl⟩
  · have hnone : clientFds (init serverFd fill).eventSet.tail = [] := by
      rw [clientFds, List.filter_eq_nil_iff, List.forall_mem_map]
      intro slot hmem
      simp [hfree slot hmem]
    rw [hnone]
    exact List.Perm.refl _
  · intro slot hmem hused
    rw [hfree slot hmem] at hused
    exact absurd hused (by decide)

/-- What `poll` does not change. -/
def watch (slot : PollFd) : ℤ × BitVec 16 := (slot.fd, slot.events)

theorem map_watch_pollReturns (revents : ℕ → BitVec 15) (slots : List PollFd) :
    (pollReturns revents slots).map watch = slots.map watch := by
  apply List.ext_getElem?
  intro i
  rw [List.getElem?_map, List.getElem?_map, getElem?_pollReturns, Option.map_map]
  rfl

theorem forall_watch {p : ℤ × BitVec 16 → Prop} (h : slots'.map watch = slots.map watch) :
    (∀ slot ∈ slots', p (watch slot)) ↔ ∀ slot ∈ slots, p (watch slot) := by
  rw [← List.forall_mem_map, h, List.forall_mem_map]

theorem Clients.of_watch (h : Clients clients s) (hwatch : slots.map watch = clients.map watch) :
    Clients slots s where
  slots := by
    have hfds : clientFds slots = clientFds clients := by
      have hmap : ∀ slots : List PollFd, slots.map PollFd.fd = (slots.map watch).map Prod.fst := by
        intro slots
        rw [List.map_map]
        rfl
      rw [clientFds, hmap, hwatch, ← hmap, clientFds]
    rw [hfds]
    exact h.slots
  nodup := h.nodup
  watched := (forall_watch (p := fun w => 0 ≤ w.1 → w.2 = pollRdNorm) hwatch).mpr h.watched
  echoed := h.echoed

/-- A pass, on the slots that `poll` leaves. -/
structure Polled (serverFd : ℤ) (s : Server) (pass : Pass) (listening : PollFd)
    (clients : List PollFd) : Prop where
  polled_eq : polled s pass = listening :: clients
  length_eq : clients.length + 1 = initSize
  listening_fd : listening.fd = serverFd
  listening_events : listening.events = pollRdNorm
  room_iff : (∃ slot ∈ s.eventSet.tail, slot.fd < 0) ↔ ∃ slot ∈ clients, slot.fd < 0
  sound : Clients clients s
  quiet : ∀ slot ∈ clients, slot.fd < 0 → slot.revents = 0

theorem Table.polled (h : Table serverFd s) (pass : Pass) :
    ∃ listening clients, Polled serverFd s pass listening clients := by
  obtain ⟨hlength, hlistening, hclients⟩ := h
  have hwatch : (PollServer.polled s pass).map watch = s.eventSet.map watch :=
    map_watch_pollReturns pass.revents s.eventSet
  have hquiet : ∀ slot ∈ PollServer.polled s pass, slot.fd < 0 → slot.revents = 0 := by
    intro slot hmem hfree
    obtain ⟨i, hi⟩ := List.mem_iff_getElem?.mp hmem
    rw [PollServer.polled, getElem?_pollReturns] at hi
    obtain ⟨slot', -, rfl⟩ := Option.map_eq_some_iff.mp hi
    exact if_pos hfree
  cases hset : s.eventSet with
  | nil => rw [hset] at hlength; cases hlength
  | cons first others =>
    cases hpolled : PollServer.polled s pass with
    | nil => rw [hpolled, hset] at hwatch; cases hwatch
    | cons listening clients =>
      rw [hset] at hlength hlistening hclients hwatch
      rw [hpolled] at hwatch hquiet
      obtain ⟨hfirst, hothers⟩ := List.cons.inj hwatch
      obtain ⟨hfd, hevents⟩ := hlistening first rfl
      refine ⟨listening, clients, hpolled, ?_, ?_, ?_, ?_, hclients.of_watch hothers,
        fun slot hmem => hquiet slot (List.mem_cons_of_mem _ hmem)⟩
      · rw [← hlength, List.length_cons, ← List.length_map watch, hothers, List.length_map]
      · rw [← hfd]
        exact congrArg Prod.fst hfirst
      · rw [← hevents]
        exact congrArg Prod.snd hfirst
      · have hall := forall_watch (p := fun w => ¬ w.1 < 0) hothers
        rw [hset]
        simpa [watch] using not_congr hall.symm

variable {listening : PollFd}

theorem Polled.survives_iff (h : Polled serverFd s pass listening clients) :
    Survives s pass ↔ pass.failed = false ∧
      (listening.revents &&& pollRdNorm ≠ 0 → ∃ slot ∈ clients, slot.fd < 0) ∧
      ∀ slot ∈ clients, 0 ≤ slot.fd → ready slot → Serves pass slot.fd := by
  rw [Survives, h.polled_eq, h.room_iff]
  simp

theorem Polled.step_eq (h : Polled serverFd s pass listening clients) (hselected : pass.failed = false) :
    step s pass =
      ((if listening.revents &&& pollRdNorm ≠ 0 then acceptClient pass clients s
        else .ok (clients, s)) >>= fun accepted =>
      plainScan pass accepted.1 accepted.2 >>= fun scanned =>
      .ok { scanned.2 with eventSet := listening :: scanned.1 }) := by
  have hpolled : pollReturns pass.revents s.eventSet = listening :: clients := h.polled_eq
  rw [step_eq_plainStep, plainStep, if_neg (by simp [hselected]), hpolled]

/-- What is ready has been polled for. -/
theorem Polled.serves_accepted (h : Polled serverFd s pass listening clients)
    (haccept : acceptClient pass clients s = .ok (slots, s')) :
    (∀ slot ∈ slots, 0 ≤ slot.fd → ready slot → Serves pass slot.fd) ↔
      ∀ slot ∈ clients, 0 ≤ slot.fd → ready slot → Serves pass slot.fd := by
  rw [acceptClient] at haccept
  split_ifs at haccept with hany
  cases haccept
  obtain ⟨before, slot, behind, heq, hslot, hmodify⟩ := modifyFirst_of_exists
    (fun slot : PollFd => { slot with fd := pass.accepted, events := pollRdNorm })
    (List.any_eq_true.mp hany)
  have hfree : slot.fd < 0 := of_decide_eq_true hslot
  have hrevents : slot.revents = 0 := h.quiet slot (by rw [heq]; simp) hfree
  rw [hmodify, heq]
  simp only [List.forall_mem_append, List.forall_mem_cons]
  simp [ready, hrevents, hfree.not_ge]

theorem Polled.step_ok (h : Polled serverFd s pass listening clients) (hfresh : Fresh s pass)
    (hsurvives : Survives s pass) : ∃ s', step s pass = .ok s' ∧ Table serverFd s' := by
  obtain ⟨hselected, hroom, hserves⟩ := h.survives_iff.mp hsurvives
  have haccept : ∃ slots s₁, (if listening.revents &&& pollRdNorm ≠ 0 then acceptClient pass clients s
      else .ok (clients, s)) = .ok (slots, s₁) ∧ slots.length = clients.length ∧ Clients slots s₁ ∧
        ∀ slot ∈ slots, 0 ≤ slot.fd → ready slot → Serves pass slot.fd := by
    split_ifs with hlistening
    · obtain ⟨slots, s₁, haccept, hlength, hsound⟩ := h.sound.acceptClient hfresh (hroom hlistening)
      exact ⟨slots, s₁, haccept, hlength, hsound, (h.serves_accepted haccept).mpr hserves⟩
    · exact ⟨clients, s, rfl, rfl, h.sound, hserves⟩
  obtain ⟨slots, s₁, haccept, hlength, hsound, hserves₁⟩ := haccept
  rw [← List.nil_append slots] at hsound
  obtain ⟨slots', s₂, hscan, hlength', hsound'⟩ := hsound.plainScan hserves₁
  refine ⟨{ s₂ with eventSet := listening :: slots' }, ?_, ?_, ?_, ?_⟩
  · rw [h.step_eq hselected, haccept, ok_bind, hscan, ok_bind]
  · rw [List.length_cons, hlength', hlength, h.length_eq]
  · intro slot hslot
    cases hslot
    exact ⟨h.listening_fd, h.listening_events⟩
  · exact ⟨hsound'.slots, hsound'.nodup, hsound'.watched, hsound'.echoed⟩

theorem Polled.step_error (h : Polled serverFd s pass listening clients)
    (hsurvives : ¬ Survives s pass) : step s pass = .error .exitFailure := by
  by_cases hselected : pass.failed = false
  · rw [h.step_eq hselected]
    rw [h.survives_iff, not_and, not_and_or] at hsurvives
    split_ifs with hlistening
    · cases haccept : PollServer.acceptClient pass clients s with
      | error e =>
        rw [acceptClient] at haccept
        split_ifs at haccept
        cases haccept
        rfl
      | ok accepted =>
        have hroom : ∃ slot ∈ clients, slot.fd < 0 := by
          rw [acceptClient] at haccept
          split_ifs at haccept with hany
          simpa using hany
        have hserves := (hsurvives hselected).resolve_left fun h => h fun _ => hroom
        rw [← h.serves_accepted haccept] at hserves
        rw [ok_bind, plainScan_error hserves, error_bind]
    · have hserves := (hsurvives hselected).resolve_left fun h => h fun hready => absurd hready hlistening
      rw [ok_bind, plainScan_error hserves, error_bind]
  · rw [step, if_pos (by simpa using hselected)]

/-! ### What is received -/

theorem serve_log (h : serve pass s slot = .ok (slot', s')) (fd : ℤ) :
    (s'.log fd).received =
      (s.log fd).received ++ if slot.fd = fd then pass.chunk fd else [] := by
  rw [serve] at h
  split at h
  next hread =>
    cases h
    split_ifs with hfd
    · subst hfd
      simp [Pass.chunk, hread, closeClient]
    · simp [closeClient]
  next hread =>
    cases h
    split_ifs with hfd
    · subst hfd
      simp [Pass.chunk, hread, closeClient]
    · simp [closeClient]
  next => cases h
  next bytes _ hread =>
    split_ifs at h
    cases h
    split_ifs with hfd
    · subst hfd
      simp [Pass.chunk, hread, echo]
    · simp [echo, Function.update_of_ne (Ne.symm hfd)]

theorem plainScan_log (h : plainScan pass slots s = .ok (slots', s')) (fd : ℤ) :
    (s'.log fd).received = (s.log fd).received ++ arrivals pass slots fd := by
  induction slots generalizing s slots' s' with
  | nil =>
    cases h
    exact (List.append_nil _).symm
  | cons slot slots ih =>
    obtain ⟨⟨slot₁, s₁⟩, hserve, h⟩ := bind_eq_ok.mp h
    obtain ⟨⟨slots₂, s₂⟩, hrest, h⟩ := bind_eq_ok.mp h
    cases h
    have hslot : (s₁.log fd).received = (s.log fd).received ++
        if slot.fd = fd ∧ 0 ≤ fd ∧ ready slot then pass.chunk fd else [] := by
      split_ifs at hserve with hready
      · rw [serve_log hserve fd]
        by_cases hfd : slot.fd = fd
        · subst hfd
          simp [hready]
        · simp [hfd]
      · cases hserve
        have hnot : ¬ (slot.fd = fd ∧ 0 ≤ fd ∧ ready slot) := by
          rintro ⟨rfl, hused, hslot⟩
          exact hready ⟨hused, hslot⟩
        rw [if_neg hnot, List.append_nil]
    rw [ih hrest, hslot, List.append_assoc]
    rfl

/-- A slot that has just been filled has nothing to read. -/
theorem Polled.arrivals_accepted (h : Polled serverFd s pass listening clients)
    (haccept : acceptClient pass clients s = .ok (slots, s')) (fd : ℤ) :
    arrivals pass slots fd = arrivals pass clients fd := by
  rw [acceptClient] at haccept
  split_ifs at haccept with hany
  cases haccept
  obtain ⟨before, slot, behind, heq, hslot, hmodify⟩ := modifyFirst_of_exists
    (fun slot : PollFd => { slot with fd := pass.accepted, events := pollRdNorm })
    (List.any_eq_true.mp hany)
  have hfree : slot.fd < 0 := of_decide_eq_true hslot
  have hrevents : slot.revents = 0 := h.quiet slot (by rw [heq]; simp) hfree
  rw [hmodify, heq]
  simp [arrivals, ready, hrevents]

theorem acceptClient_log (haccept : acceptClient pass clients s = .ok (slots, s')) (fd : ℤ) :
    (s'.log fd).received =
      if pass.accepted = fd ∧ 0 ≤ fd then [] else (s.log fd).received := by
  rw [acceptClient] at haccept
  split_ifs at haccept
  cases haccept
  rw [openClient]
  split_ifs with hnone hcomes hcomes
  · exact absurd (hcomes.1 ▸ hcomes.2) (not_le.mpr hnone)
  · rfl
  · rw [hcomes.1]
    simp
  · have hne : fd ≠ pass.accepted := fun heq => hcomes ⟨heq.symm, heq ▸ not_lt.mp hnone⟩
    simp [Function.update_of_ne hne]

theorem Polled.follows (h : Polled serverFd s pass listening clients)
    (hstep : step s pass = .ok s') : Follows s pass s' := by
  have hselected : pass.failed = false := by
    rw [step] at hstep
    split_ifs at hstep with hfailed
    simpa using hfailed
  rw [h.step_eq hselected] at hstep
  obtain ⟨⟨slots, s₁⟩, haccept, hstep⟩ := bind_eq_ok.mp hstep
  obtain ⟨⟨slots', s₂⟩, hscan, hstep⟩ := bind_eq_ok.mp hstep
  cases hstep
  intro fd
  have hlog := plainScan_log hscan fd
  have hcomes : Comes s pass fd ↔ listening.revents &&& pollRdNorm ≠ 0 ∧
      pass.accepted = fd ∧ 0 ≤ fd := by
    rw [Comes, h.polled_eq]
    simp
  rw [hcomes, h.polled_eq, List.tail_cons]
  show (_ → (s₂.log fd).received = _) ∧ (_ → (s₂.log fd).received = _)
  rw [hlog]
  split_ifs at haccept with hlistening
  · rw [acceptClient_log haccept fd, h.arrivals_accepted haccept fd]
    constructor
    · intro hcome
      rw [if_pos hcome.2, List.nil_append]
    · intro hnot
      rw [if_neg fun hcome => hnot ⟨hlistening, hcome⟩]
  · cases haccept
    exact ⟨fun hcome => absurd hcome.1 hlistening, fun _ => rfl⟩

end OsProgramming.Servers.PollServer
