import OsProgramming.Servers.EpollServer

/-! What the edge-triggered server leaves behind when it waits. A client is read until nothing
is unread, but of the clients that have connected only one is accepted for an edge. -/

namespace OsProgramming.Servers.EpollServer

open Library Reactor

/-- The function that serves a client is running. -/
def Phase.Serves : Phase → ℤ → Prop
  | .reading fd, fd' => fd' = fd
  | .writing fd _, fd' => fd' = fd
  | .starting, _ => False
  | .dispatching, _ => False

namespace Server

variable (serverFd : ℤ) (s : Server)

/-- `main` waits, and no edge is going to be reported. -/
structure Blocked : Prop where
  phase : s.phase = .dispatching
  batch : s.batch = []
  edges : ∀ fd, s.edges fd = true → ¬ s.Ready serverFd fd

/-- Everybody is accepted, and everything has been read. -/
structure LeavesNothing : Prop where
  queue : s.queue = []
  unread : ∀ fd id, s.descriptors fd = some id → (s.clients id).unread = []

/-- `epoll_ctl` succeeds, and a client is accepted only while no other is left in the queue or
the listening socket has another edge. -/
def Drains : Event → Prop
  | .turn a => (s.phase = .starting → a.added = true) ∧
    (s.phase = .dispatching → ∀ e ∈ s.batch.head?, ¬ Broken e → serverFd = e.fd →
      a.added = true ∧ (s.queue.length ≤ 1 ∨ s.edges serverFd = true))
  | _ => True

instance : (event : Event) → Decidable (s.Drains serverFd event)
  | .turn _ => inferInstanceAs (Decidable (_ ∧ _))
  | .connect => .isTrue trivial
  | .arrive _ _ => .isTrue trivial
  | .finish _ => .isTrue trivial

/-- There is an edge for a descriptor, or an event that has not been handled. -/
def Pending (fd : ℤ) : Prop := s.edges fd = true ∨ fd ∈ s.batch.map EpollEvent.fd

/-- Whatever is left is going to be looked at, or is just being looked at. -/
structure Covered : Prop where
  listener : s.phase ≠ .starting → s.queue ≠ [] → s.Pending serverFd ∨ s.phase.Serves serverFd
  client : ∀ fd id, s.descriptors fd = some id → (s.clients id).unread ≠ [] →
    s.Pending fd ∨ s.phase.Serves fd
  watched : ∀ fd id, s.descriptors fd = some id → s.watched fd = true ∧ fd ≠ serverFd
  listening : s.phase ≠ .starting → s.listening = true → s.watched serverFd = true

variable {serverFd s} {s' : Server} {event : Event} {a : Answers} {fd : ℤ} {id : ℕ}

theorem Covered.leavesNothing (h : s.Covered serverFd) (hblocked : s.Blocked serverFd) :
    s.LeavesNothing := by
  have hready : ∀ fd, s.Pending fd ∨ s.phase.Serves fd → ¬ s.Ready serverFd fd := by
    intro fd hleft
    rw [hblocked.phase, Phase.Serves, or_false, Pending, hblocked.batch] at hleft
    exact hblocked.edges fd (hleft.resolve_right List.not_mem_nil)
  constructor
  · by_contra hqueue
    refine hready serverFd (h.listener (by rw [hblocked.phase]; nofun) hqueue) ?_
    rw [Ready, if_pos rfl]
    exact hqueue
  · intro fd id hfd
    by_contra hunread
    refine hready fd (h.client fd id hfd hunread) ?_
    rw [Ready, if_neg (h.watched fd id hfd).2]
    exact ⟨id, hfd, .inl hunread⟩

theorem covered_init : (init : Server).Covered serverFd :=
  ⟨fun h => absurd rfl h, nofun, nofun, fun h => absurd rfl h⟩

/-! ### What happens to the clients -/

theorem Pending.mono (h : s.Pending fd) (hedges : s.edges fd = true → s'.edges fd = true)
    (hbatch : s'.batch = s.batch) : s'.Pending fd := by
  rcases h with hedge | hmem
  · exact .inl (hedges hedge)
  · rw [← hbatch] at hmem
    exact .inr hmem

theorem Pending.signalClient (h : s.Pending fd) (client : Client) :
    Pending ((s.setClient id client).signalClient id) fd :=
  h.mono (fun hedge => by simp [Server.signalClient, setClient, hedge]) rfl

theorem Covered.connect (h : s.Covered serverFd) : (s.connect serverFd).Covered serverFd := by
  rw [Server.connect]
  split_ifs with hlistening
  · refine ⟨fun hphase _ => .inl (.inl ?_), ?_, h.watched, h.listening⟩
    · simp [signal, h.listening hphase hlistening]
    · intro fd id hfd hunread
      refine (h.client fd id hfd hunread).imp_left fun hpending => hpending.mono ?_ rfl
      intro hedge
      simp [signal, hedge]
  · exact h

theorem Covered.arrive (h : s.Covered serverFd) (bytes : List Byte) :
    (s.arrive id bytes).Covered serverFd := by
  rw [Server.arrive]
  split_ifs
  · exact h
  · refine ⟨fun hphase hqueue => (h.listener hphase hqueue).imp_left (·.signalClient _), ?_,
      h.watched, h.listening⟩
    intro fd id' hfd hunread
    by_cases heq : id' = id
    · subst heq
      refine .inl (.inl ?_)
      have hfd' : s.descriptors fd = some id' := hfd
      simp [Server.signalClient, setClient, hfd', (h.watched fd id' hfd).1]
    · simp only [Server.signalClient, setClient, Function.update_of_ne heq] at hunread
      exact (h.client fd id' hfd hunread).imp_left (·.signalClient _)

theorem Covered.finish (h : s.Covered serverFd) : (s.finish id).Covered serverFd := by
  rw [Server.finish]
  split_ifs
  · exact h
  · refine ⟨fun hphase hqueue => (h.listener hphase hqueue).imp_left (·.signalClient _), ?_,
      h.watched, h.listening⟩
    intro fd id' hfd hunread
    refine (h.client fd id' hfd ?_).imp_left (·.signalClient _)
    simp only [Server.signalClient, setClient, Function.update_apply] at hunread
    split_ifs at hunread with heq
    · rw [heq]
      exact hunread
    · exact hunread

/-! ### What `main` does -/

/-- The listening socket is watched. -/
theorem Covered.start (h : s.Covered serverFd) (hphase : s.phase = .starting)
    (hadded : a.added = true) (hret : s.turn serverFd a = .ok s') : s'.Covered serverFd := by
  simp only [turn, hphase, hadded, epollAdd, if_true, watch] at hret
  cases hret
  refine ⟨fun _ hqueue => .inl (.inl ?_), ?_, ?_, fun _ _ => Function.update_self ..⟩
  · simpa using hqueue
  · intro fd id hfd hunread
    have hne := (h.watched fd id hfd).2
    rcases h.client fd id hfd hunread with hpending | hserves
    · exact .inl (hpending.mono (fun hedge => by simpa [hne] using hedge) rfl)
    · rw [hphase] at hserves
      exact hserves.elim
  · intro fd id hfd
    obtain ⟨hwatched, hne⟩ := h.watched fd id hfd
    simpa [hne] using hwatched

theorem Covered.epollWait (h : s.Covered serverFd) (hbatch : s.batch = [])
    (reports : List EpollEvent) : (s.epollWait reports).Covered serverFd := by
  have hpending : ∀ fd, s.Pending fd → (s.epollWait reports).Pending fd := by
    intro fd hpending
    have hedge : s.edges fd = true := by
      rcases hpending with hedge | hmem
      · exact hedge
      · rw [hbatch] at hmem
        cases hmem
    by_cases hmem : fd ∈ (s.epollWait reports).batch.map EpollEvent.fd
    · exact .inr hmem
    · refine .inl ?_
      simp only [Server.epollWait, hedge, Bool.true_and, decide_eq_true_eq] at hmem ⊢
      exact hmem
  exact ⟨fun hphase hqueue => (h.listener hphase hqueue).imp_left (hpending _),
    fun fd id hfd hunread => (h.client fd id hfd hunread).imp_left (hpending fd), h.watched,
    h.listening⟩

/-- The next event is taken, and its descriptor is looked at. -/
theorem Covered.take (h : s.Covered serverFd) (hphase : s.phase = .dispatching) {e : EpollEvent}
    {batch : List EpollEvent} (hbatch : s.batch = e :: batch) :
    Covered serverFd { s with batch, phase := .reading e.fd } := by
  have hleft : ∀ fd, s.Pending fd ∨ s.phase.Serves fd →
      Pending { s with batch, phase := .reading e.fd } fd ∨ fd = e.fd := by
    intro fd hleft
    rw [hphase, Phase.Serves, or_false, Pending, hbatch, List.map_cons, List.mem_cons] at hleft
    rcases hleft with hedge | heq | hmem
    · exact .inl (.inl hedge)
    · exact .inr heq
    · exact .inl (.inr hmem)
  have hstarted : s.phase ≠ .starting := by
    rw [hphase]
    nofun
  exact ⟨fun _ hqueue => hleft _ (h.listener hstarted hqueue),
    fun fd id hfd hunread => hleft _ (h.client fd id hfd hunread), h.watched,
    fun _ => h.listening hstarted⟩

/-- The descriptor is closed. -/
theorem Covered.close (h : s.Covered serverFd) (hphase : s.phase = .reading fd) :
    Covered serverFd { s.close serverFd fd with phase := .dispatching } := by
  have hstarted : s.phase ≠ .starting := by
    rw [hphase]
    nofun
  have hleft : ∀ fd', fd' ≠ fd → s.Pending fd' ∨ s.phase.Serves fd' →
      Pending { s.close serverFd fd with phase := .dispatching } fd' ∨
        Phase.dispatching.Serves fd' := by
    intro fd' hne hleft
    rw [hphase] at hleft
    rcases hleft with hpending | hserves
    · exact .inl (hpending.mono (fun hedge => by simpa [Server.close, hne] using hedge) rfl)
    · exact absurd hserves hne
  refine ⟨fun _ hqueue => ?_, ?_, ?_, fun _ hlistening => ?_⟩
  · simp only [Server.close, ite_eq_left_iff, ne_eq, not_forall] at hqueue
    obtain ⟨hne, hqueue⟩ := hqueue
    exact hleft serverFd (Ne.symm hne) (h.listener hstarted hqueue)
  · intro fd' id hfd hunread
    simp only [Server.close, Function.update_apply] at hfd
    split_ifs at hfd with heq
    exact hleft fd' heq (h.client fd' id hfd hunread)
  · intro fd' id hfd
    simp only [Server.close, Function.update_apply] at hfd ⊢
    split_ifs at hfd with heq
    simpa [heq] using h.watched fd' id hfd
  · simp only [Server.close, Bool.and_eq_true, decide_eq_true_eq] at hlistening ⊢
    rw [Function.update_of_ne hlistening.2.symm]
    exact h.listening hstarted hlistening.1

/-- One client is accepted: the queue is empty then, or there is another edge. -/
theorem Covered.acceptClient (h : s.Covered serverFd) (hphase : s.phase = .reading serverFd)
    (hadded : a.added = true) (hdrained : s.queue.length ≤ 1 ∨ s.edges serverFd = true)
    (hret : acceptClient serverFd { s with phase := .dispatching } a = .ok s') :
    s'.Covered serverFd := by
  have hstarted : s.phase ≠ .starting := by
    rw [hphase]
    nofun
  rw [Server.acceptClient] at hret
  dsimp only at hret
  cases hqueue : s.queue with
  | nil =>
    rw [hqueue] at hret
    cases hret
  | cons id queue =>
    rw [hqueue] at hret hdrained
    dsimp only at hret
    split_ifs at hret with hfree
    obtain ⟨-, hne, -⟩ := not_or.mp hfree |>.imp_right not_or.mp
    simp only [epollAdd, hadded, if_true, watch] at hret
    cases hret
    refine ⟨fun _ hleft => .inl (.inl ?_), ?_, ?_, fun _ hlistening => ?_⟩
    · have hedge : s.edges serverFd = true := by
        refine hdrained.resolve_left fun hle => hleft ?_
        simpa using hle
      simpa [Function.update_of_ne (Ne.symm hne)] using hedge
    · intro fd id' hfd hunread
      by_cases heq : fd = a.accept
      · subst heq
        simp only [Function.update_self, Option.some.injEq] at hfd
        subst hfd
        refine .inl (.inl ?_)
        simp only [Function.update_self, decide_eq_true_eq]
        exact .inl hunread
      · simp only [Function.update_of_ne heq] at hfd
        have hother := (h.watched fd id' hfd).2
        have hleft := h.client fd id' hfd hunread
        rw [hphase] at hleft
        refine .inl ((hleft.resolve_right hother).mono (fun hedge => ?_) rfl)
        simpa [Function.update_of_ne heq] using hedge
    · intro fd id' hfd
      by_cases heq : fd = a.accept
      · subst heq
        exact ⟨Function.update_self .., hne⟩
      · simp only [Function.update_of_ne heq] at hfd ⊢
        exact h.watched fd id' hfd
    · simpa [Function.update_of_ne (Ne.symm hne)] using h.listening hstarted hlistening

/-- The same descriptor is served on, and nobody has more unread than before. -/
theorem Covered.serve (h : s.Covered serverFd) {client : Client} {phase : Phase}
    (hstarted : s.phase ≠ .starting) (hserves : s.phase.Serves = phase.Serves)
    (hunread : client.unread ≠ [] → (s.clients id).unread ≠ []) :
    Covered serverFd { s.setClient id client with phase } := by
  refine ⟨fun _ hqueue => ?_, ?_, h.watched, fun _ => h.listening hstarted⟩
  · have hleft := h.listener hstarted hqueue
    rwa [hserves] at hleft
  · intro fd id' hfd hunread'
    have hbefore : (s.clients id').unread ≠ [] := by
      simp only [setClient, Function.update_apply] at hunread'
      split_ifs at hunread' with heq
      · rw [heq]
        exact hunread hunread'
      · exact hunread'
    have hleft := h.client fd id' hfd hbefore
    rwa [hserves] at hleft

/-- A client is read: something is taken and is going to be written, or nothing is left. -/
theorem Covered.readClient (h : s.Covered serverFd) (hphase : s.phase = .reading fd)
    (hret : s.readClient serverFd fd a = .ok s') : s'.Covered serverFd := by
  have hstarted : s.phase ≠ .starting := by
    rw [hphase]
    nofun
  rw [Server.readClient] at hret
  cases hfd : s.descriptors fd with
  | none =>
    rw [hfd] at hret
    cases hret
  | some id =>
    rw [hfd] at hret
    dsimp only at hret
    have hne := (h.watched fd id hfd).2
    split_ifs at hret with hfails hunread hended
    · cases hret
      exact h.serve hstarted (by rw [hphase]; rfl) fun _ => hunread
    · cases hret
      exact h.close hphase
    · cases hret
      have hleft : ∀ fd', s.Pending fd' ∨ s.phase.Serves fd' → fd' ≠ fd → s.Pending fd' := by
        intro fd' hleft hne'
        rw [hphase] at hleft
        exact hleft.resolve_right hne'
      refine ⟨fun _ hqueue => .inl (hleft _ (h.listener hstarted hqueue) hne.symm), ?_, h.watched,
        fun _ => h.listening hstarted⟩
      intro fd' id' hfd' hunread'
      refine .inl (hleft _ (h.client fd' id' hfd' hunread') ?_)
      rintro rfl
      rw [hfd] at hfd'
      cases hfd'
      exact hunread hunread'

theorem Covered.writeClient (h : s.Covered serverFd) {chunk : List Byte}
    (hphase : s.phase = .writing fd chunk) (hret : s.writeClient fd chunk a = .ok s') :
    s'.Covered serverFd := by
  have hstarted : s.phase ≠ .starting := by
    rw [hphase]
    nofun
  unfold Server.writeClient at hret
  split at hret
  · cases hret
    exact h.serve hstarted (by rw [hphase]; rfl) id
  · cases hret

theorem Covered.dispatch (h : s.Covered serverFd) (hphase : s.phase = .dispatching)
    (hdrains : s.Drains serverFd (.turn a)) (hret : s.dispatch serverFd a = .ok s') :
    s'.Covered serverFd := by
  rw [Server.dispatch] at hret
  cases hbatch : s.batch with
  | nil =>
    rw [hbatch] at hret
    cases hret
    exact h.epollWait hbatch a.reports
  | cons e batch =>
    rw [hbatch] at hret
    dsimp only at hret
    have htaken := h.take hphase hbatch
    split_ifs at hret with hbroken hserver
    · cases hret
      have hclosed := htaken.close rfl
      rwa [show Phase.dispatching = s.phase from hphase.symm] at hclosed
    · obtain ⟨hadded, hdrained⟩ := hdrains.2 hphase e (by simp [hbatch]) hbroken hserver
      rw [← hserver] at htaken
      refine htaken.acceptClient rfl hadded hdrained ?_
      rw [← hret, ← hphase]
    · cases hret
      exact htaken

theorem Covered.step (h : s.Covered serverFd) (hdrains : s.Drains serverFd event)
    (hret : s.step serverFd event = .ok s') : s'.Covered serverFd := by
  cases event with
  | connect =>
    cases hret
    exact h.connect
  | arrive id bytes =>
    cases hret
    exact h.arrive bytes
  | finish id =>
    cases hret
    exact h.finish
  | turn a =>
    cases hphase : s.phase with
    | starting => exact h.start hphase (hdrains.1 hphase) hret
    | dispatching =>
      rw [Server.step, turn, hphase] at hret
      exact h.dispatch hphase hdrains hret
    | reading fd =>
      rw [Server.step, turn, hphase] at hret
      exact h.readClient hphase hret
    | writing fd chunk =>
      rw [Server.step, turn, hphase] at hret
      exact h.writeClient hphase hret

/-- If every edge of the listening socket finds one client at most, or is followed by another
edge, the server waits only when nothing is left to do. -/
theorem leavesNothing_of_drains (serverFd : ℤ) {events : List Event}
    (hdrains : Admissible (Server.step serverFd) (Drains serverFd) init events)
    (hrun : events.foldlM (Server.step serverFd) init = .ok s) (hblocked : s.Blocked serverFd) :
    s.LeavesNothing :=
  (foldlM_inv (fun _ _ _ hs hdrains hret => Covered.step hs hdrains hret) covered_init hdrains
    hrun).leavesNothing hblocked

/-- What the kernel answers to the calls of one turn. -/
def answers (reports : List EpollEvent) (accept : ℤ) : Answers :=
  ⟨reports, accept, true, false, 511, .accepts 512⟩

/-- The listening socket has no edge, and nothing can be read from a client. -/
theorem blocked_of_quiet (hphase : s.phase = .dispatching) (hbatch : s.batch = [])
    (hlistener : s.edges serverFd = false)
    (hclients : ∀ fd id, s.descriptors fd = some id → ¬ s.Readable id) : s.Blocked serverFd := by
  refine ⟨hphase, hbatch, fun fd hedge hready => ?_⟩
  by_cases hserver : fd = serverFd
  · rw [hserver, hlistener] at hedge
    cases hedge
  · rw [Ready, if_neg hserver] at hready
    obtain ⟨id, hid, hreadable⟩ := hready
    exact hclients fd id hid hreadable

/-- The only client is the first one. -/
theorem quiet_of_first {fd' : ℤ} (hquiet : ¬ s.Readable 0)
    (h : Function.update (fun _ => none) fd' (some 0) fd = some id) : ¬ s.Readable id := by
  rw [Function.update_apply] at h
  split_ifs at h
  cases h
  exact hquiet

/-- Two clients connect before the server has looked: it accepts one of them, and waits. -/
theorem second_client_left_behind :
    ∃ s, [.turn (answers [] 0), .connect, .connect, .turn (answers [⟨epollIn, 3⟩] 0),
        .turn (answers [] 4)].foldlM (Server.step 3) init = .ok s ∧
      s.Blocked 3 ∧ s.queue = [1] ∧ ¬ s.LeavesNothing := by
  refine ⟨_, rfl, ?_, rfl, fun hnothing => absurd hnothing.queue (by decide)⟩
  exact blocked_of_quiet rfl rfl rfl fun fd id hid => quiet_of_first (by decide) hid

/-- A client connects and sends a byte, and the server answers. -/
def echoRun : List Event :=
  [.turn (answers [] 0), .connect, .turn (answers [⟨epollIn, 3⟩] 0), .turn (answers [] 4),
    .arrive 0 [7], .turn (answers [⟨epollIn, 4⟩] 0), .turn (answers [] 0), .turn (answers [] 0),
    .turn (answers [] 0), .turn (answers [] 0)]

theorem leavesNothing_echo :
    ∃ s, echoRun.foldlM (Server.step 3) init = .ok s ∧ (s.clients 0).sent = [7] ∧
      s.LeavesNothing := by
  have hdrains : Admissible (Server.step 3) (Drains 3) init echoRun := by decide +kernel
  refine ⟨_, rfl, rfl, leavesNothing_of_drains 3 hdrains rfl ?_⟩
  exact blocked_of_quiet rfl rfl rfl fun fd id hid => quiet_of_first (by decide) hid

end Server

end OsProgramming.Servers.EpollServer
