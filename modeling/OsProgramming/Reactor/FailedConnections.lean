import OsProgramming.Library.Runs
import OsProgramming.Reactor.PollPass

/-! Failed connections, over the runs of a loop with either backend. -/

namespace OsProgramming.Reactor

open Library

namespace LoopState

/-- A connection as `tcp_connection_new` builds it. -/
def Built (id : ConnectionId) (connection : TcpConnection) : Prop :=
  ∃ fd loop callbacks input output,
    tcpConnectionNew id fd loop callbacks input output = some connection

theorem Built.channel {id : ConnectionId} {connection : TcpConnection} (h : Built id connection) :
    ∃ fd, connection.channel =
      channelNew fd eventRead (some .handleRead) (some .handleWrite) (.tcpConnection id) := by
  obtain ⟨fd, loop, callbacks, input, output, h⟩ := h
  simp only [tcpConnectionNew, bufferNew, ↓reduceIte, Option.bind_eq_bind, Option.bind_some,
    Option.some.injEq] at h
  exact ⟨fd, by rw [← h]⟩

section

variable {δ : Type} {S : Setting δ} {s s' : LoopState δ}

theorem sane_init (data : δ) (wakeupFd acceptorFd : ℤ) {connections : ConnectionId → TcpConnection}
    (hbuilt : ∀ id, Built id (connections id)) (isOpen : ℤ → Bool) :
    Sane S (init data S.self wakeupFd acceptorFd connections isOpen) := by
  have hentry : ∀ fd c, (init data S.self wakeupFd acceptorFd connections
      isOpen).loop.channelMap.entry fd ≠ some c := by
    intro fd c hc
    rw [show (init data S.self wakeupFd acceptorFd connections isOpen).loop.channelMap.entry fd =
      none from ChannelMap.entry_init fd] at hc
    cases hc
  have hchannel := fun id => (hbuilt id).channel
  choose number hchannel using hchannel
  exact ⟨⟨rfl, rfl⟩, ⟨rfl, rfl⟩, fun id => congrArg Channel.onChannelReadable (hchannel id),
    fun id => congrArg Channel.onChannelWriteable (hchannel id),
    fun id => congrArg Channel.data (hchannel id), ChannelMap.wellFormed_init,
    fun fd c hc => absurd hc (hentry fd c), fun fd c hc => absurd hc (hentry fd c),
    fun fd c hc => absurd hc (hentry fd c)⟩

end

/-! ### Runs with the poll dispatcher -/

section

variable {loopId : LoopId} {cast : ChannelData → Result LoopId} {s s' : LoopState (List PollFd)}
  {id : ConnectionId}

/-- What a pass is given: the `revents` of the slots, and their scripts. -/
abbrev PollReports := (ℕ → BitVec 15) × (ℕ → PassScript)

def pollStep (loopId : LoopId) (cast : ChannelData → Result LoopId) :
    LoopState (List PollFd) → LoopEvent PollReports → Result (LoopState (List PollFd)) :=
  step (pollSetting loopId cast) fun reports =>
    pollDispatch (pollSetting loopId cast) reports.1 reports.2

/-- The states that a loop with the poll dispatcher reaches, with any family of
connections. -/
def PollReached (loopId : LoopId) (cast : ChannelData → Result LoopId)
    (s : LoopState (List PollFd)) : Prop :=
  ∃ fill wakeupFd acceptorFd connections isOpen events, (∀ id, Built id (connections id)) ∧
    List.foldlM (pollStep loopId cast)
      (init (pollInit fill) loopId wakeupFd acceptorFd connections isOpen) events = .ok s

theorem pollInv_init {data : List PollFd} (hfree : ∀ slot ∈ data, slot.fd = -1)
    (hlen : data.length = initPollSize) (wakeupFd acceptorFd : ℤ)
    {connections : ConnectionId → TcpConnection} (hbuilt : ∀ id, Built id (connections id))
    (isOpen : ℤ → Bool) :
    PollInv loopId cast (init data loopId wakeupFd acceptorFd connections isOpen) := by
  have hneg : ∀ (i : ℕ) (a : PollFd), data[i]? = some a → ¬ 0 ≤ a.fd := by
    intro i a ha
    rw [hfree a (List.mem_of_getElem? ha)]
    decide
  exact ⟨sane_init data wakeupFd acceptorFd hbuilt isOpen,
    ⟨fun i j a b ha _ h0 => absurd h0 (hneg i a ha), fun i a ha h0 => absurd h0 (hneg i a ha)⟩,
    hlen⟩

theorem PollReached.inv (h : PollReached loopId cast s) : PollInv loopId cast s := by
  obtain ⟨fill, wakeupFd, acceptorFd, connections, isOpen, events, hbuilt, hrun⟩ := h
  refine foldlM_keeps ?_ ?_ hrun
  · intro s event s' hs hret
    cases event with
    | act a => exact (act_moves hret).keeps (fun _ _ => PollInv.move) hs
    | dispatch reports => exact PollInv.pollDispatch hs hret
  · exact pollInv_init (pollInit_free fill) (pollInit_spec fill).1 wakeupFd acceptorFd hbuilt isOpen

def pollWatches (data : List PollFd) (fd : ℤ) : Prop := ∃ slot ∈ data, slot.fd = fd

/-- The connection is registered, and `poll` reports an error or a hang-up for its
slot `i`. -/
structure PollFails (s : LoopState (List PollFd)) (id : ConnectionId) (i : ℕ)
    (revents : BitVec 16) : Prop where
  entry : s.loop.channelMap.entry (s.connections id).channel.fd = some (.connection id)
  slot : ∃ slot, s.loop.dispatcherData[i]? = some slot ∧ slot.fd = (s.connections id).channel.fd
  failed : revents &&& pollErr ≠ 0 ∨ revents &&& pollHup ≠ 0

theorem PollInv.tornDown_iff (h : PollInv loopId cast s) {i : ℕ} {revents : ℕ → BitVec 15}
    (hfails : PollFails s id i ((revents i).setWidth 16)) {scripts : ℕ → PassScript}
    (hret : s.pollDispatch (pollSetting loopId cast) revents scripts = .ok s') :
    TornDown pollWatches id s s' ↔ (s.connections id).callbacks.onConnectionClosed = true ∧
      (revents i).setWidth 16 &&& pollRdNorm ≠ 0 ∧ (scripts i).read.read.Ends := by
  obtain ⟨hentry, ⟨slot, hslot, hfd⟩, hfailed⟩ := hfails
  have hreported : revents i ≠ 0 := by
    intro heq
    rw [heq] at hfailed
    exact absurd hfailed (by decide)
  have hpass := h.pass hentry hslot hfd hreported hret
  have hinv := h.pollDispatch hret
  by_cases hends : (revents i).setWidth 16 &&& pollRdNorm ≠ 0 ∧ (scripts i).read.read.Ends
  · rw [if_pos hends] at hpass
    have hwatched : pollWatches s'.loop.dispatcherData (s.connections id).channel.fd →
        s'.loop.channelMap.entry (s.connections id).channel.fd ≠ none := by
      rintro ⟨slot', hmem, hfd'⟩
      obtain ⟨j, hj⟩ := List.getElem?_of_mem hmem
      have h0 : 0 ≤ slot'.fd := hfd' ▸ (h.sane.wellFormed.lt_of_entry hentry).1
      rw [← hfd']
      exact hinv.slots.watched j slot' hj h0
    refine ⟨fun htorn => ⟨?_, hends⟩, fun hclosed => ⟨hpass.absent, hwatched, ?_⟩⟩
    · by_contra hno
      have hcount := hpass.count
      rw [if_neg hno, htorn.2.2] at hcount
      omega
    · rw [hpass.count, if_pos hclosed.1]
  · rw [if_neg hends] at hpass
    exact iff_of_false (fun htorn => htorn.1 _ hpass.entry) fun hclosed => hends hclosed.2

end

/-! ### Runs with the epoll dispatcher -/

section

variable {loopId : LoopId} {cast : ChannelData → Result LoopId} {s s' : LoopState InterestSet}
  {id : ConnectionId}

abbrev EpollReports := List (EpollEvent × PassScript)

def epollStep (loopId : LoopId) (cast : ChannelData → Result LoopId) :
    LoopState InterestSet → LoopEvent EpollReports → Result (LoopState InterestSet) :=
  step (epollSetting loopId cast) (epollDispatch (epollSetting loopId cast))

def EpollReached (loopId : LoopId) (cast : ChannelData → Result LoopId)
    (s : LoopState InterestSet) : Prop :=
  ∃ wakeupFd acceptorFd connections isOpen events, (∀ id, Built id (connections id)) ∧
    List.foldlM (epollStep loopId cast)
      (init (fun _ => none) loopId wakeupFd acceptorFd connections isOpen) events = .ok s

theorem Sane.epollEntry (h : Sane (epollSetting loopId cast) s) {entry : EpollEvent × PassScript}
    (hret : s.epollEntry (epollSetting loopId cast) entry = .ok s') :
    Sane (epollSetting loopId cast) s' := by
  obtain ⟨event, script⟩ := entry
  rw [LoopState.epollEntry] at hret
  split_ifs at hret
  · cases hret
    exact h.move (.close s event.fd)
  · obtain ⟨s₁, hread, hwrite⟩ := bind_eq_ok.mp hret
    exact (h.activeIf (.inl rfl) hread).activeIf (.inr rfl) hwrite

theorem EpollReached.sane (h : EpollReached loopId cast s) :
    Sane (epollSetting loopId cast) s := by
  obtain ⟨wakeupFd, acceptorFd, connections, isOpen, events, hbuilt, hrun⟩ := h
  refine foldlM_keeps ?_
    (sane_init _ wakeupFd acceptorFd hbuilt isOpen) hrun
  intro s event s' hs hret
  cases event with
  | act a => exact (act_moves hret).keeps (fun _ _ hs => hs.move) hs
  | dispatch batch => exact foldlM_keeps (fun _ _ _ hs => hs.epollEntry) hs hret

def epollWatches (data : InterestSet) (fd : ℤ) : Prop := data fd ≠ none

/-- The connection is registered, and `epoll_wait`, which returns a descriptor once,
reports an error or a hang-up for its descriptor. -/
structure EpollFails (s : LoopState InterestSet) (id : ConnectionId) (batch : EpollReports) :
    Prop where
  entry : s.loop.channelMap.entry (s.connections id).channel.fd = some (.connection id)
  once : (batch.map fun entry => entry.1.fd).Nodup
  failed : ∃ entry ∈ batch, entry.1.fd = (s.connections id).channel.fd ∧ entry.1.Failed

theorem EpollFails.holding (hs : Sane (epollSetting loopId cast) s) {batch : EpollReports}
    (hfails : EpollFails s id batch)
    (hret : s.epollDispatch (epollSetting loopId cast) batch = .ok s') :
    Holding (epollSetting loopId cast) s id s' := by
  obtain ⟨hentry, honce, entry, hmem, hfd, hfailed⟩ := hfails
  have hstart : Holding (epollSetting loopId cast) s id s := ⟨hs, .refl s, hentry, rfl⟩
  refine hstart.epollDispatch ?_ hret
  intro entry' hmem' hfd'
  rw [List.inj_on_of_nodup_map honce hmem' hmem (hfd'.trans hfd.symm)]
  exact hfailed

end

/-- In every state that a run reaches, a pass that returns tears a failed connection
down exactly if the loop uses poll, the connection has an `on_connection_closed`, and a
readable event is reported with the failure and its read fails or finds the end of the
stream; with epoll it never does. -/
theorem failed_connection_torn_down_iff (loopId : LoopId) (cast : ChannelData → Result LoopId) :
    (∀ s id i revents scripts s', PollReached loopId cast s →
      PollFails s id i ((revents i).setWidth 16) →
      s.pollDispatch (pollSetting loopId cast) revents scripts = .ok s' →
      (TornDown pollWatches id s s' ↔ (s.connections id).callbacks.onConnectionClosed = true ∧
        (revents i).setWidth 16 &&& pollRdNorm ≠ 0 ∧ (scripts i).read.read.Ends)) ∧
    ∀ s id batch s', EpollReached loopId cast s → EpollFails s id batch →
      s.epollDispatch (epollSetting loopId cast) batch = .ok s' →
      ¬ TornDown epollWatches id s s' :=
  ⟨fun _ _ _ _ _ _ hreached hfails hret => hreached.inv.tornDown_iff hfails hret,
    fun _ _ _ _ hreached hfails hret htorn =>
      htorn.1 _ (hfails.holding hreached.sane hret).entry⟩

/-! ### One connection -/

/-- Every connection gets the number 5, and the application has all callbacks. -/
def connectionFive (id : ConnectionId) : TcpConnection :=
  (tcpConnectionNew id 5 0 ⟨true, true, true, true⟩ (some fun _ => 0) (some fun _ => 0)).get rfl

theorem built_connectionFive (id : ConnectionId) : Built id (connectionFive id) :=
  ⟨5, 0, ⟨true, true, true, true⟩, some fun _ => 0, some fun _ => 0, (Option.some_get _).symm⟩

/-- Connection 0 is accepted and added. -/
def joins {ρ : Type} : List (LoopEvent ρ) :=
  [.act (.accept 5), .act (.add (.connection 0) (some fun _ => none))]

/-- Its reads fail. -/
def resetScript : PassScript :=
  ⟨⟨.failed .econnreset, .failed .epipe, none, [], []⟩,
    ⟨.failed .econnreset, .failed .epipe, none, [], []⟩⟩

/-- The loop with poll after connection 0 has joined. -/
def pollJoined : Result (LoopState (List PollFd)) :=
  joins.foldlM (pollStep 0 castEventLoop)
    (init (pollInit fun _ => ⟨0, 0, 0⟩) 0 3 4 connectionFive fun _ => false)

def epollJoined : Result (LoopState InterestSet) :=
  joins.foldlM (epollStep 0 castEventLoop)
    (init (fun _ => none) 0 3 4 connectionFive fun _ => false)

/-- Connection 0 is registered under its number. -/
def Joined {δ : Type} (s : LoopState δ) : Prop :=
  s.loop.channelMap.entry 5 = some (.connection 0) ∧ (s.connections 0).channel.fd = 5

instance {δ : Type} (s : LoopState δ) : Decidable s.Joined := inferInstanceAs (Decidable (_ ∧ _))

theorem Joined.entry {δ : Type} {s : LoopState δ} (h : s.Joined) :
    s.loop.channelMap.entry (s.connections 0).channel.fd = some (.connection 0) :=
  h.2.symm ▸ h.1

/-- POLLERR and POLLHUP alone leave the connection behind, and so do EPOLLIN and
EPOLLHUP. -/
theorem failed_connection_left_behind :
    (∃ s s', PollReached 0 castEventLoop s ∧ PollFails s 0 0 0x18 ∧
      s.pollDispatch (pollSetting 0 castEventLoop) (fun _ => 0x18) (fun _ => resetScript) = .ok s' ∧
      ¬ TornDown pollWatches 0 s s') ∧
    ∃ s s', EpollReached 0 castEventLoop s ∧
      EpollFails s 0 [(⟨epollIn ||| epollHup, 5⟩, resetScript)] ∧
      s.epollDispatch (epollSetting 0 castEventLoop)
        [(⟨epollIn ||| epollHup, 5⟩, resetScript)] = .ok s' ∧
      ¬ TornDown epollWatches 0 s s' := by
  constructor
  · obtain ⟨s, hrun, hjoined, hslot, hpass⟩ := exists_ok_of_any (m := pollJoined)
      (p := fun s => s.Joined ∧ s.loop.dispatcherData[0]?.map PollFd.fd = some 5 ∧
        (s.pollDispatch (pollSetting 0 castEventLoop) (fun _ => 0x18)
          (fun _ => resetScript)).toOption.any (fun s' => s'.Joined) = true)
      (by decide +kernel)
    obtain ⟨s', hs', hleft⟩ := exists_ok_of_any (p := Joined) hpass
    exact ⟨s, s', ⟨_, 3, 4, connectionFive, _, joins, built_connectionFive, hrun⟩,
      ⟨hjoined.entry, hjoined.2.symm ▸ Option.map_eq_some_iff.mp hslot, by decide⟩, hs',
      fun htorn => htorn.1 5 hleft.1⟩
  · obtain ⟨s, hrun, hjoined, hpass⟩ := exists_ok_of_any (m := epollJoined)
      (p := fun s => s.Joined ∧ (s.epollDispatch (epollSetting 0 castEventLoop)
        [(⟨epollIn ||| epollHup, 5⟩, resetScript)]).toOption.any (fun s' => s'.Joined) = true)
      (by decide +kernel)
    obtain ⟨s', hs', hleft⟩ := exists_ok_of_any (p := Joined) hpass
    exact ⟨s, s', ⟨3, 4, connectionFive, _, joins, built_connectionFive, hrun⟩,
      ⟨hjoined.entry, List.nodup_singleton _, _, List.mem_singleton_self _, hjoined.2.symm,
        by decide⟩, hs', fun htorn => htorn.1 5 hleft.1⟩

/-- With POLLRDNORM beside POLLHUP, the read finds the reset. -/
theorem failed_connection_torn_down_iff_read :
    (∃ s s', s.pollDispatch (pollSetting 0 castEventLoop) (fun _ => 0x50)
        (fun _ => resetScript) = .ok s' ∧ PollReached 0 castEventLoop s ∧
      TornDown pollWatches 0 s s') ∧
    ∃ s s', s.epollDispatch (epollSetting 0 castEventLoop)
        [(⟨epollIn ||| epollHup, 5⟩, resetScript)] = .ok s' ∧ EpollReached 0 castEventLoop s ∧
      ¬ TornDown epollWatches 0 s s' := by
  obtain ⟨hpoll, hepoll⟩ := failed_connection_torn_down_iff 0 castEventLoop
  constructor
  · obtain ⟨s, hrun, hjoined, hslot, hclosed, hpass⟩ := exists_ok_of_any (m := pollJoined)
      (p := fun s => s.Joined ∧ s.loop.dispatcherData[0]?.map PollFd.fd = some 5 ∧
        (s.connections 0).callbacks.onConnectionClosed = true ∧
        (s.pollDispatch (pollSetting 0 castEventLoop) (fun _ => 0x50)
          (fun _ => resetScript)).toOption.any (fun _ => True) = true)
      (by decide +kernel)
    obtain ⟨s', hs', -⟩ := exists_ok_of_any (p := fun _ => True) hpass
    have hreached : PollReached 0 castEventLoop s :=
      ⟨_, 3, 4, connectionFive, _, joins, built_connectionFive, hrun⟩
    have hfails : PollFails s 0 0 0x50 :=
      ⟨hjoined.entry, hjoined.2.symm ▸ Option.map_eq_some_iff.mp hslot, by decide⟩
    exact ⟨s, s', hs', hreached,
      (hpoll s 0 0 (fun _ => 0x50) _ s' hreached hfails hs').mpr ⟨hclosed, by decide, trivial⟩⟩
  · obtain ⟨s, hrun, hjoined, hpass⟩ := exists_ok_of_any (m := epollJoined)
      (p := fun s => s.Joined ∧ (s.epollDispatch (epollSetting 0 castEventLoop)
        [(⟨epollIn ||| epollHup, 5⟩, resetScript)]).toOption.any (fun _ => True) = true)
      (by decide +kernel)
    obtain ⟨s', hs', -⟩ := exists_ok_of_any (p := fun _ => True) hpass
    have hreached : EpollReached 0 castEventLoop s :=
      ⟨3, 4, connectionFive, _, joins, built_connectionFive, hrun⟩
    have hfails : EpollFails s 0 [(⟨epollIn ||| epollHup, 5⟩, resetScript)] :=
      ⟨hjoined.entry, List.nodup_singleton _, _, List.mem_singleton_self _, hjoined.2.symm,
        by decide⟩
    exact ⟨s, s', hs', hreached, hepoll s 0 _ s' hreached hfails hs'⟩

end LoopState

end OsProgramming.Reactor
