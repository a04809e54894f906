import OsProgramming.Servers.EpollServer

/-! What the edge-triggered server sends back. The return value of `write` is only asked whether
it is negative: what a short write leaves is overwritten by the next read, and `EAGAIN` ends the
process. -/

namespace OsProgramming.Servers.EpollServer

open Library Reactor

namespace Server

variable (serverFd : ℤ) (s : Server)

/-- What the server has read from the client and not written. -/
def held (id : ℕ) : List Byte :=
  match s.phase with
  | .writing fd chunk => if s.descriptors fd = some id then chunk else []
  | _ => []

/-- Every client has been sent what was received from it, but for what is held. -/
def Conserved : Prop := ∀ id, (s.clients id).sent ++ s.held id = (s.clients id).received

/-- The socket of the client that is being served takes nothing. -/
def WouldBlock : Event → Prop
  | .turn a => (∃ fd chunk, s.phase = .writing fd chunk) ∧ a.write = .failed .ewouldblock
  | _ => False

/-- The server goes on where a write would block, and no byte is lost. -/
structure Echoes (event : Event) : Prop where
  survives : s.WouldBlock event → ∃ s', s.step serverFd event = .ok s'
  conserved : ∀ s', s.step serverFd event = .ok s' → s'.Conserved

/-- A write does not fail with `EAGAIN`, and takes the whole chunk if it does not fail. -/
def WritesWhole : Event → Prop
  | .turn a => ∀ fd chunk, s.phase = .writing fd chunk →
    match a.write with
    | .accepts room => chunk.length ≤ room
    | .failed errno => errno ≠ .ewouldblock
  | _ => True

structure EchoInv : Prop where
  conserved : s.Conserved
  serving : ∀ fd chunk, s.phase = .writing fd chunk → ∃ id, s.descriptors fd = some id

variable {serverFd s} {s' : Server} {event : Event} {a : Answers} {fd : ℤ} {id : ℕ}

theorem echoInv_init : (init : Server).EchoInv := ⟨fun _ => rfl, nofun⟩

theorem held_of_not_writing (h : ∀ fd chunk, s.phase ≠ .writing fd chunk) : s.held id = [] := by
  unfold held
  split
  · exact absurd ‹_› (h _ _)
  · rfl

/-- Nothing is read and nothing is written. -/
def SameLogs (s s' : Server) : Prop :=
  ∀ id, (s'.clients id).sent = (s.clients id).sent ∧
    (s'.clients id).received = (s.clients id).received

theorem EchoInv.of_arrival (h : s.EchoInv) (hlogs : s.SameLogs s') (hphase : s'.phase = s.phase)
    (hdescriptors : s'.descriptors = s.descriptors) : s'.EchoInv := by
  constructor
  · intro id
    have hheld : s'.held id = s.held id := by simp only [held, hphase, hdescriptors]
    rw [(hlogs id).1, (hlogs id).2, hheld]
    exact h.conserved id
  · rw [hphase, hdescriptors]
    exact h.serving

theorem EchoInv.sent_eq (h : s.EchoInv) (hphase : ∀ fd chunk, s.phase ≠ .writing fd chunk) :
    (s.clients id).sent = (s.clients id).received := by
  have hconserved := h.conserved id
  rwa [held_of_not_writing hphase, List.append_nil] at hconserved

theorem EchoInv.of_turn (h : s.EchoInv) (hlogs : s.SameLogs s')
    (hbefore : ∀ fd chunk, s.phase ≠ .writing fd chunk)
    (hafter : ∀ fd chunk, s'.phase ≠ .writing fd chunk) : s'.EchoInv := by
  refine ⟨fun id => ?_, fun fd chunk hphase => absurd hphase (hafter fd chunk)⟩
  rw [held_of_not_writing hafter, List.append_nil, (hlogs id).1, (hlogs id).2]
  exact h.sent_eq hbefore

theorem sameLogs_setClient {client : Client} (hsent : client.sent = (s.clients id).sent)
    (hreceived : client.received = (s.clients id).received) :
    s.SameLogs (s.setClient id client) := by
  intro id'
  simp only [setClient, Function.update_apply]
  split_ifs with heq
  · rw [heq]
    exact ⟨hsent, hreceived⟩
  · exact ⟨rfl, rfl⟩

/-! ### Steps -/

theorem arrival_inv (h : s.EchoInv) (hevent : ∀ a, event ≠ .turn a)
    (hret : s.step serverFd event = .ok s') : s'.EchoInv := by
  cases event with
  | connect =>
    cases hret
    rw [connect]
    split_ifs
    · exact h.of_arrival (fun _ => ⟨rfl, rfl⟩) rfl rfl
    · exact h
  | arrive id bytes =>
    cases hret
    rw [arrive]
    split_ifs
    · exact h
    · exact h.of_arrival (sameLogs_setClient rfl rfl) rfl rfl
  | finish id =>
    cases hret
    rw [finish]
    split_ifs
    · exact h
    · exact h.of_arrival (sameLogs_setClient rfl rfl) rfl rfl
  | turn a => exact absurd rfl (hevent a)

theorem acceptClient_logs (hret : s.acceptClient serverFd a = .ok s') :
    s.SameLogs s' ∧ s'.phase = s.phase := by
  rw [acceptClient] at hret
  split at hret
  · cases hret
  · dsimp only at hret
    split_ifs at hret
    cases hret
    rw [epollAdd]
    split_ifs <;> exact ⟨fun _ => ⟨rfl, rfl⟩, rfl⟩

theorem dispatch_inv (h : s.EchoInv) (hphase : s.phase = .dispatching)
    (hret : s.dispatch serverFd a = .ok s') : s'.EchoInv := by
  have hbefore : ∀ fd chunk, s.phase ≠ .writing fd chunk := by
    rw [hphase]
    nofun
  rw [dispatch] at hret
  split at hret
  · cases hret
    exact h.of_turn (fun _ => ⟨rfl, rfl⟩) hbefore hbefore
  · dsimp only at hret
    split_ifs at hret
    · cases hret
      exact h.of_turn (fun _ => ⟨rfl, rfl⟩) hbefore hbefore
    · obtain ⟨hlogs, hsame⟩ := acceptClient_logs hret
      refine h.of_turn hlogs hbefore ?_
      rw [hsame]
      exact hbefore
    · cases hret
      exact h.of_turn (fun _ => ⟨rfl, rfl⟩) hbefore nofun

theorem readClient_inv (h : s.EchoInv) (hphase : s.phase = .reading fd)
    (hret : s.readClient serverFd fd a = .ok s') : s'.EchoInv := by
  have hbefore : ∀ fd chunk, s.phase ≠ .writing fd chunk := by
    rw [hphase]
    nofun
  rw [readClient] at hret
  cases hfd : s.descriptors fd with
  | none =>
    rw [hfd] at hret
    cases hret
  | some id =>
    rw [hfd] at hret
    dsimp only at hret
    split_ifs at hret
    · cases hret
      constructor
      · intro id'
        by_cases heq : id' = id
        · subst heq
          simp [held, setClient, hfd, h.sent_eq hbefore]
        · have hother : s.descriptors fd ≠ some id' := by
            rw [hfd]
            exact fun hsome => heq (Option.some.inj hsome).symm
          simp [held, setClient, heq, hother, h.sent_eq hbefore]
      · intro fd' chunk hwriting
        cases hwriting
        exact ⟨id, hfd⟩
    · cases hret
      exact h.of_turn (fun _ => ⟨rfl, rfl⟩) hbefore nofun
    · cases hret
      exact h.of_turn (fun _ => ⟨rfl, rfl⟩) hbefore nofun

/-- The listening socket is watched. -/
theorem start_inv (h : s.EchoInv) (hphase : s.phase = .starting)
    (hret : s.step serverFd (.turn a) = .ok s') : s'.EchoInv := by
  simp only [step, turn, hphase, Except.ok.injEq] at hret
  subst hret
  refine h.of_turn ?_ (by rw [hphase]; nofun) nofun
  rw [epollAdd]
  split_ifs <;> exact fun _ => ⟨rfl, rfl⟩

/-- Where nothing is written, nothing is lost. -/
theorem step_inv (h : s.EchoInv)
    (hwriting : ∀ a, event = .turn a → ∀ fd chunk, s.phase ≠ .writing fd chunk)
    (hret : s.step serverFd event = .ok s') : s'.EchoInv := by
  by_cases hturn : ∃ a, event = .turn a
  · obtain ⟨a, rfl⟩ := hturn
    cases hphase : s.phase with
    | starting => exact start_inv h hphase hret
    | dispatching =>
      rw [step, turn, hphase] at hret
      exact dispatch_inv h hphase hret
    | reading fd =>
      rw [step, turn, hphase] at hret
      exact readClient_inv h hphase hret
    | writing fd chunk => exact absurd hphase (hwriting a rfl fd chunk)
  · exact arrival_inv h (fun a ha => hturn ⟨a, ha⟩) hret

/-- What the socket has taken is behind what was sent before, and the rest is gone. -/
theorem step_accepts {chunk : List Byte} (hphase : s.phase = .writing fd chunk)
    (hfd : s.descriptors fd = some id) {room : ℕ} (hwrite : a.write = .accepts room) :
    s.step serverFd (.turn a) = .ok { s.setClient id { s.clients id with
      sent := (s.clients id).sent ++ chunk.take room } with phase := .reading fd } := by
  simp only [step, turn, hphase, writeClient, hfd, hwrite]

theorem step_failed {chunk : List Byte} (hphase : s.phase = .writing fd chunk) {errno : Errno}
    (hwrite : a.write = .failed errno) : s.step serverFd (.turn a) = .error .exitFailure := by
  simp only [step, turn, hphase, writeClient, hwrite]
  cases s.descriptors fd <;> rfl

/-- Of the client that is served nothing is missing but the chunk. -/
theorem EchoInv.received_eq (h : s.EchoInv) {chunk : List Byte}
    (hphase : s.phase = .writing fd chunk) (hfd : s.descriptors fd = some id) :
    (s.clients id).received = (s.clients id).sent ++ chunk := by
  rw [← h.conserved id, held, hphase]
  simp [hfd]

theorem EchoInv.sent_eq_of_ne (h : s.EchoInv) {chunk : List Byte} {id' : ℕ}
    (hphase : s.phase = .writing fd chunk) (hfd : s.descriptors fd = some id) (hne : id' ≠ id) :
    (s.clients id').sent = (s.clients id').received := by
  have hother : s.descriptors fd ≠ some id' := by
    rw [hfd]
    exact fun hsome => hne (Option.some.inj hsome).symm
  rw [← h.conserved id', held, hphase]
  simp [hother]

theorem conserved_accepts_iff (h : s.EchoInv) {chunk : List Byte}
    (hphase : s.phase = .writing fd chunk) (hfd : s.descriptors fd = some id) (room : ℕ) :
    Conserved { s.setClient id { s.clients id with
      sent := (s.clients id).sent ++ chunk.take room } with phase := .reading fd } ↔
      chunk.length ≤ room := by
  have hreceived := h.received_eq hphase hfd
  constructor
  · intro hconserved
    have hid := hconserved id
    simp only [held, setClient, Function.update_self, List.append_nil, hreceived,
      List.append_cancel_left_eq, List.take_eq_self_iff] at hid
    exact hid
  · intro hroom id'
    by_cases heq : id' = id
    · subst heq
      simp [held, setClient, hreceived, List.take_of_length_le hroom]
    · simp [held, setClient, heq, h.sent_eq_of_ne hphase hfd heq]

theorem echoes_iff_of_writing (h : s.EchoInv) {chunk : List Byte}
    (hphase : s.phase = .writing fd chunk) :
    s.Echoes serverFd (.turn a) ↔ s.WritesWhole (.turn a) := by
  obtain ⟨id, hfd⟩ := h.serving fd chunk hphase
  cases hwrite : a.write with
  | accepts room =>
    have hstep : s.step serverFd (.turn a) = _ := step_accepts hphase hfd hwrite
    have hwhole : s.WritesWhole (.turn a) ↔ chunk.length ≤ room := by
      simp [WritesWhole, hphase, hwrite]
    rw [hwhole, ← conserved_accepts_iff h hphase hfd]
    exact ⟨fun hechoes => hechoes.conserved _ hstep, fun hconserved =>
      ⟨fun _ => ⟨_, hstep⟩, fun s' hret => by
        rw [hstep] at hret
        cases hret
        exact hconserved⟩⟩
  | failed errno =>
    have hstep : s.step serverFd (.turn a) = _ := step_failed hphase hwrite
    have hwhole : s.WritesWhole (.turn a) ↔ errno ≠ .ewouldblock := by
      simp [WritesWhole, hphase, hwrite]
    have hblock : s.WouldBlock (.turn a) ↔ errno = .ewouldblock := by
      simp [WouldBlock, hphase, hwrite]
    rw [hwhole]
    constructor
    · intro hechoes heq
      obtain ⟨s', hret⟩ := hechoes.survives (hblock.mpr heq)
      rw [hstep] at hret
      cases hret
    · refine fun hne => ⟨fun hwould => absurd (hblock.mp hwould) hne, fun s' hret => ?_⟩
      rw [hstep] at hret
      cases hret

/-- Where nothing is written, no condition is needed. -/
theorem echoes_of_not_writing (h : s.EchoInv)
    (hwriting : ∀ a, event = .turn a → ∀ fd chunk, s.phase ≠ .writing fd chunk) :
    s.Echoes serverFd event ∧ s.WritesWhole event := by
  refine ⟨⟨fun hwould => ?_, fun s' hret => (step_inv h hwriting hret).conserved⟩, ?_⟩
  · cases event with
    | turn a =>
      obtain ⟨⟨fd, chunk, hphase⟩, -⟩ := hwould
      exact absurd hphase (hwriting a rfl fd chunk)
    | connect => exact hwould.elim
    | arrive id bytes => exact hwould.elim
    | finish id => exact hwould.elim
  · cases event with
    | turn a => exact fun fd chunk hphase => absurd hphase (hwriting a rfl fd chunk)
    | connect => trivial
    | arrive id bytes => trivial
    | finish id => trivial

theorem echoes_iff (h : s.EchoInv) : s.Echoes serverFd event ↔ s.WritesWhole event := by
  by_cases hwriting : ∃ a fd chunk, event = .turn a ∧ s.phase = .writing fd chunk
  · obtain ⟨a, fd, chunk, rfl, hphase⟩ := hwriting
    exact echoes_iff_of_writing h hphase
  · push Not at hwriting
    have hboth : s.Echoes serverFd event ∧ s.WritesWhole event :=
      echoes_of_not_writing h fun a ha fd chunk => hwriting a fd chunk ha
    exact iff_of_true hboth.1 hboth.2

theorem EchoInv.step (h : s.EchoInv) (hechoes : s.Echoes serverFd event)
    (hret : s.step serverFd event = .ok s') : s'.EchoInv := by
  by_cases hwriting : ∃ a fd chunk, event = .turn a ∧ s.phase = .writing fd chunk
  · obtain ⟨a, fd, chunk, rfl, hphase⟩ := hwriting
    refine ⟨hechoes.conserved s' hret, ?_⟩
    obtain ⟨id, hfd⟩ := h.serving fd chunk hphase
    cases hwrite : a.write with
    | accepts room =>
      rw [step_accepts hphase hfd hwrite] at hret
      cases hret
      nofun
    | failed errno =>
      rw [step_failed hphase hwrite] at hret
      cases hret
  · push Not at hwriting
    exact step_inv h (fun a ha fd chunk => hwriting a fd chunk ha) hret

/-- Nothing is lost and the server goes on in the runs in which every write takes the whole
chunk, and in no others. -/
theorem echoes_iff_writesWhole (serverFd : ℤ) (events : List Event) :
    Admissible (Server.step serverFd) (Echoes serverFd) init events ↔
      Admissible (Server.step serverFd) WritesWhole init events :=
  admissible_iff_of_inv (fun _ _ _ hinv hechoes hret => EchoInv.step hinv hechoes hret)
    (fun _ _ hinv => echoes_iff hinv) echoInv_init

/-- A turn with what `epoll_wait` and `write` answer; a client is accepted as 4. -/
def answered (reports : List EpollEvent) (write : WriteAnswer) : Event :=
  .turn ⟨reports, 4, true, false, 511, write⟩

/-- A client connects and sends two bytes, and they are read. -/
def readRun : List Event :=
  [answered [] (.accepts 0), .connect, answered [⟨epollIn, 3⟩] (.accepts 0),
    answered [] (.accepts 0), .arrive 0 [7, 8], answered [⟨epollIn, 4⟩] (.accepts 0),
    answered [] (.accepts 0), answered [] (.accepts 0)]

/-- A short write drops the second byte, and a write that would block ends the process. -/
theorem short_write_drops :
    ∃ s, readRun.foldlM (Server.step 3) init = .ok s ∧
      (∃ s', s.step 3 (answered [] (.accepts 1)) = .ok s' ∧ (s'.clients 0).sent = [7] ∧
        ¬ s'.Conserved) ∧
      s.WouldBlock (answered [] (.failed .ewouldblock)) ∧
      s.step 3 (answered [] (.failed .ewouldblock)) = .error .exitFailure := by
  refine ⟨_, rfl, ⟨_, rfl, rfl, fun hconserved => ?_⟩, ⟨⟨4, [7, 8], rfl⟩, rfl⟩, rfl⟩
  exact absurd (hconserved 0) (by decide)

end Server

end OsProgramming.Servers.EpollServer
