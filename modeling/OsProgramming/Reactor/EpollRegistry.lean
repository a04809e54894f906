import OsProgramming.Library.Runs
import OsProgramming.Reactor.EpollDispatcher

/-! A loop with the epoll dispatcher over whole runs: descriptors are accepted and
added, batches of `epoll_wait` are dispatched one `epoll_event` after the other, and
numbers that are closed come back. What callbacks do are steps of their own. -/

namespace OsProgramming.Reactor

open Library

variable {κ : Type}

/-- Beside the loop, the kernel's view of the process and the `epoll_event`s that the
pass has still to look at. `awaiting` lists the accepted channels whose ADD is not
handled yet, and `dropped` the descriptors that the error branch has closed while a
channel was registered for them. -/
structure EpollRun (κ : Type) where
  channels : κ → Channel
  loop : EventLoop κ InterestSet
  isOpen : ℤ → Bool
  batch : List EpollEvent
  awaiting : List κ
  dropped : List ℤ

inductive EpollRunEvent (κ : Type) where
  /-- `accept` returns the descriptor of the channel, whose ADD is posted -/
  | accept (channel : κ)
  /-- an operation of the queue is handled -/
  | handle (op : PendingOp κ) (answer : Alloc (Option κ))
  /-- the events of a channel change -/
  | setEvents (channel : κ) (events : Events)
  /-- `epoll_wait` returns -/
  | wait (batch : List EpollEvent)
  /-- `epoll_dispatch` looks at the next `epoll_event` -/
  | next
  /-- a descriptor is closed outside of the loop -/
  | close (fd : ℤ)

namespace EpollRun

def init (channels : κ → Channel) (isOpen : ℤ → Bool) : EpollRun κ where
  channels := channels
  loop := ⟨channelMapInit, fun _ => none⟩
  isOpen := isOpen
  batch := []
  awaiting := []
  dropped := []

/-- The kernel removes a descriptor that is closed from the interest set. -/
def closeDescriptor (s : EpollRun κ) (fd : ℤ) : EpollRun κ :=
  { s with
    isOpen := Function.update s.isOpen fd false
    loop := { s.loop with dispatcherData := Function.update s.loop.dispatcherData fd none } }

/-- The error branch of `epoll_dispatch`. -/
def dispatchError (s : EpollRun κ) (fd : ℤ) : EpollRun κ :=
  { s.closeDescriptor fd with
    dropped := if (s.loop.channelMap.entry fd).isSome then fd :: s.dropped else s.dropped }

/-- The body of the loop in `epoll_dispatch`. An `epoll_event` whose read part is done
stays for its write part; the callbacks run in between. -/
def dispatchNext (s : EpollRun κ) : Result (EpollRun κ) :=
  match s.batch with
  | [] => .ok s
  | event :: batch =>
    if event.Failed then .ok { s.dispatchError event.fd with batch }
    else if event.events &&& epollIn ≠ 0 then do
      let _ ← registeredChannel s.channels s.loop event.fd
      .ok { s with batch := ⟨event.events &&& ~~~epollIn, event.fd⟩ :: batch }
    else if event.events &&& epollOut ≠ 0 then do
      let _ ← registeredChannel s.channels s.loop event.fd
      .ok { s with batch }
    else .ok { s with batch }

def step [DecidableEq κ] (s : EpollRun κ) : EpollRunEvent κ → Result (EpollRun κ)
  | .accept channel =>
    .ok { s with
      isOpen := Function.update s.isOpen (s.channels channel).fd true
      awaiting := channel :: s.awaiting }
  | .handle op answer => do
    let (loop, _) ← handlePending (epollEventDispatcher s.isOpen) s.channels s.loop op answer
    .ok { s with
      loop
      awaiting := if op.type = .add then s.awaiting.erase op.channel else s.awaiting }
  | .setEvents channel events => .ok { s with channels := setEvents s.channels channel events }
  | .wait batch => .ok { s with batch }
  | .next => s.dispatchNext
  | .close fd => .ok (s.closeDescriptor fd)

/-- What the kernel and the callers keep to. An accepted number is not in use, and its
ADD is posted once; `epoll_wait` reports each descriptor of the interest set at most
once, and EPOLLERR and EPOLLHUP also unasked; outside of the loop, only descriptors
that it does not have are closed. -/
def Admitted (s : EpollRun κ) : EpollRunEvent κ → Prop
  | .accept channel => 0 ≤ (s.channels channel).fd ∧ s.isOpen (s.channels channel).fd = false
  | .handle op _ => op.type = .add → op.channel ∈ s.awaiting
  | .setEvents _ _ => True
  | .wait batch => s.batch = [] ∧ batch.length ≤ maxEvents ∧ (batch.map EpollEvent.fd).Nodup ∧
      ∀ event ∈ batch, s.loop.dispatcherData event.fd ≠ none ∧
        event.events &&& ~~~((s.loop.dispatcherData event.fd).getD 0 ||| epollErr ||| epollHup) = 0
  | .next => s.batch ≠ []
  | .close fd => s.loop.channelMap.entry fd = none ∧
      (∀ channel ∈ s.awaiting, (s.channels channel).fd ≠ fd) ∧
      ∀ event ∈ s.batch, event.Failed → event.fd ≠ fd

/-- The channel of an accepted descriptor is really registered. -/
def Registered (s : EpollRun κ) (channel : κ) : Prop :=
  s.loop.channelMap.entry (s.channels channel).fd = some channel ∧
    s.loop.dispatcherData (s.channels channel).fd ≠ none

/-! ### The invariant -/

/-- The two tables differ in the dropped descriptors only: these are still in the
channel map, and not in the interest set. -/
structure Inv (s : EpollRun κ) : Prop where
  wellFormed : s.loop.channelMap.WellFormed
  channel_fd : ∀ fd c, s.loop.channelMap.entry fd = some c → (s.channels c).fd = fd
  watched_open : ∀ fd, s.loop.dispatcherData fd ≠ none → s.isOpen fd = true
  entry_iff : ∀ fd, s.loop.channelMap.entry fd ≠ none ↔
    s.loop.dispatcherData fd ≠ none ∨ fd ∈ s.dropped
  dropped_unwatched : ∀ fd ∈ s.dropped, s.loop.dispatcherData fd = none
  awaiting_fd : ∀ c ∈ s.awaiting, 0 ≤ (s.channels c).fd ∧ s.isOpen (s.channels c).fd = true ∧
    s.loop.dispatcherData (s.channels c).fd = none
  awaiting_nodup : (s.awaiting.map fun c => (s.channels c).fd).Nodup
  batch_nodup : (s.batch.map EpollEvent.fd).Nodup
  batch_open : ∀ event ∈ s.batch, event.Failed →
    s.isOpen event.fd = true ∧ ∀ c ∈ s.awaiting, (s.channels c).fd ≠ event.fd

variable {s s' : EpollRun κ}

theorem inv_init (channels : κ → Channel) (isOpen : ℤ → Bool) : (init channels isOpen).Inv where
  wellFormed := ChannelMap.wellFormed_init
  channel_fd fd c h := by
    rw [show (init channels isOpen).loop.channelMap.entry fd = none from
      ChannelMap.entry_init fd] at h
    cases h
  watched_open _ h := absurd rfl h
  entry_iff fd := by
    rw [show (init channels isOpen).loop.channelMap.entry fd = none from ChannelMap.entry_init fd]
    simp [init]
  dropped_unwatched _ _ := rfl
  awaiting_fd _ h := by cases h
  awaiting_nodup := List.nodup_nil
  batch_nodup := List.nodup_nil
  batch_open _ h := by cases h

theorem Inv.not_dropped (h : s.Inv) {fd : ℤ} (hnone : s.loop.channelMap.entry fd = none) :
    s.loop.dispatcherData fd = none ∧ fd ∉ s.dropped := by
  have hiff := not_congr (h.entry_iff fd)
  rw [not_not, not_or, not_not] at hiff
  exact hiff.mp hnone

/-- Among the awaited channels, the descriptor is new to the loop unless it was
dropped. -/
theorem Inv.entry_awaiting (h : s.Inv) {c : κ} (hc : c ∈ s.awaiting) :
    s.loop.channelMap.entry (s.channels c).fd ≠ none ↔ (s.channels c).fd ∈ s.dropped := by
  rw [h.entry_iff, (h.awaiting_fd c hc).2.2]
  simp

/-- Fewer channels are awaited, or fewer `epoll_event`s are left. -/
theorem Inv.sublist (h : s.Inv) {awaiting : List κ} {batch : List EpollEvent}
    (hawait : awaiting.Sublist s.awaiting) (hbatch : batch.Sublist s.batch) :
    Inv { s with awaiting, batch } :=
  { h with
    awaiting_fd := fun c hc => h.awaiting_fd c (hawait.subset hc)
    awaiting_nodup := (hawait.map _).nodup h.awaiting_nodup
    batch_nodup := (hbatch.map _).nodup h.batch_nodup
    batch_open := fun event hmem hfail =>
      ⟨(h.batch_open event (hbatch.subset hmem) hfail).1,
        fun c hc => (h.batch_open event (hbatch.subset hmem) hfail).2 c (hawait.subset hc)⟩ }

/-- A descriptor that no awaited channel has and no error is still to be reported for
can be closed. -/
theorem Inv.dispatchError (h : s.Inv) {fd : ℤ}
    (hawait : ∀ c ∈ s.awaiting, (s.channels c).fd ≠ fd)
    (hbatch : ∀ event ∈ s.batch, event.Failed → event.fd ≠ fd) : (s.dispatchError fd).Inv := by
  have hdropped : ∀ fd', fd' ∈ (s.dispatchError fd).dropped ↔
      fd' ∈ s.dropped ∨ fd' = fd ∧ s.loop.channelMap.entry fd ≠ none := by
    intro fd'
    simp only [EpollRun.dispatchError]
    split_ifs with hsome
    · rw [List.mem_cons, Option.isSome_iff_ne_none] at *
      tauto
    · rw [Option.isSome_iff_ne_none] at hsome
      tauto
  have hdata : ∀ fd', (s.dispatchError fd).loop.dispatcherData fd' =
      if fd' = fd then none else s.loop.dispatcherData fd' :=
    fun fd' => Function.update_apply ..
  have hopen : ∀ fd', (s.dispatchError fd).isOpen fd' = if fd' = fd then false else s.isOpen fd' :=
    fun fd' => Function.update_apply ..
  refine ⟨h.wellFormed, h.channel_fd, ?_, ?_, ?_, ?_, h.awaiting_nodup, h.batch_nodup, ?_⟩
  · intro fd' hw
    rw [hdata] at hw
    split_ifs at hw with heq
    · exact absurd rfl hw
    · rw [hopen, if_neg heq]
      exact h.watched_open fd' hw
  · intro fd'
    show s.loop.channelMap.entry fd' ≠ none ↔ _
    rw [hdropped, hdata]
    by_cases heq : fd' = fd
    · subst heq
      have hiff := h.entry_iff fd'
      simp only [↓reduceIte, ne_eq, not_true_eq_false, true_and, false_or]
      tauto
    · rw [if_neg heq, h.entry_iff fd']
      tauto
  · intro fd' hd
    rw [hdata]
    split_ifs with heq
    · rfl
    · rcases (hdropped fd').mp hd with hold | ⟨rfl, -⟩
      · exact h.dropped_unwatched fd' hold
      · exact absurd rfl heq
  · intro c hc
    obtain ⟨h0, hop, hnone⟩ := h.awaiting_fd c hc
    exact ⟨h0, (hopen _).trans ((if_neg (hawait c hc)).trans hop),
      (hdata _).trans ((if_neg (hawait c hc)).trans hnone)⟩
  · intro event hmem hfail
    obtain ⟨hop, hne⟩ := h.batch_open event hmem hfail
    exact ⟨(hopen _).trans ((if_neg (hbatch event hmem hfail)).trans hop), hne⟩

theorem Inv.close (h : s.Inv) {fd : ℤ} (hadm : s.Admitted (.close fd)) :
    (s.closeDescriptor fd).Inv := by
  obtain ⟨hnone, hawait, hbatch⟩ := hadm
  have heq : s.closeDescriptor fd = s.dispatchError fd := by
    simp [EpollRun.dispatchError, hnone]; rfl
  rw [heq]
  exact h.dispatchError hawait hbatch

theorem failed_of_readDone {event : EpollEvent}
    (h : EpollEvent.Failed ⟨event.events &&& ~~~epollIn, event.fd⟩) : event.Failed := by
  have hErr : ~~~epollIn &&& epollErr = epollErr := by decide
  have hHup : ~~~epollIn &&& epollHup = epollHup := by decide
  simpa only [EpollEvent.Failed, BitVec.and_assoc, hErr, hHup] using h

theorem Inv.dispatchNext (h : s.Inv) (hret : s.dispatchNext = .ok s') : s'.Inv := by
  unfold EpollRun.dispatchNext at hret
  split at hret
  · cases hret
    exact h
  rename_i event batch hbatch
  have hsub : batch.Sublist s.batch := hbatch ▸ List.sublist_cons_self ..
  have hnodup := h.batch_nodup
  rw [hbatch, List.map_cons, List.nodup_cons] at hnodup
  split_ifs at hret with hfail hin hout
  · cases hret
    refine (h.sublist (.refl _) hsub).dispatchError ?_ fun event' hmem _ heq => hnodup.1 ?_
    · exact (h.batch_open event (hbatch ▸ List.mem_cons_self) hfail).2
    · exact heq ▸ List.mem_map_of_mem hmem
  · obtain ⟨_, -, hret⟩ := bind_eq_ok.mp hret
    cases hret
    -- the read part is done, and the descriptors that are left are the same
    refine { h with batch_nodup := ?_, batch_open := ?_ }
    · exact List.nodup_cons.mpr hnodup
    · intro event' hmem hfail'
      rcases List.mem_cons.mp hmem with rfl | hmem
      · exact absurd (failed_of_readDone hfail') hfail
      · exact h.batch_open event' (hsub.subset hmem) hfail'
  · obtain ⟨_, -, hret⟩ := bind_eq_ok.mp hret
    cases hret
    exact h.sublist (.refl _) hsub
  · cases hret
    exact h.sublist (.refl _) hsub

theorem Inv.accept [DecidableEq κ] (h : s.Inv) {channel : κ} (hadm : s.Admitted (.accept channel))
    (hret : s.step (.accept channel) = .ok s') : s'.Inv := by
  obtain ⟨h0, hclosed⟩ := hadm
  cases hret
  have hne : ∀ fd, s.isOpen fd = true → fd ≠ (s.channels channel).fd := by
    rintro fd hop rfl
    rw [hclosed] at hop
    cases hop
  have hopen : ∀ fd, s.isOpen fd = true →
      Function.update s.isOpen (s.channels channel).fd true fd = true := fun fd hop =>
    (Function.update_of_ne (hne fd hop) ..).trans hop
  have hunwatched : s.loop.dispatcherData (s.channels channel).fd = none := by
    by_contra hw
    exact hne _ (h.watched_open _ hw) rfl
  refine { h with
    watched_open := fun fd hw => hopen fd (h.watched_open fd hw)
    awaiting_fd := ?_
    awaiting_nodup := ?_
    batch_open := ?_ }
  · intro c hc
    rcases List.mem_cons.mp hc with rfl | hc
    · exact ⟨h0, Function.update_self .., hunwatched⟩
    · obtain ⟨hc0, hop, hnone⟩ := h.awaiting_fd c hc
      exact ⟨hc0, hopen _ hop, hnone⟩
  · refine List.nodup_cons.mpr ⟨fun hmem => ?_, h.awaiting_nodup⟩
    obtain ⟨c, hc, heq⟩ := List.mem_map.mp hmem
    exact hne _ (h.awaiting_fd c hc).2.1 heq
  · intro event hmem hfail
    obtain ⟨hop, hawait⟩ := h.batch_open event hmem hfail
    refine ⟨hopen _ hop, fun c hc => ?_⟩
    rcases List.mem_cons.mp hc with rfl | hc
    · exact (hne _ hop).symm
    · exact hawait c hc

theorem Inv.setEvents [DecidableEq κ] (h : s.Inv) (channel : κ) (events : Events) :
    Inv { s with channels := setEvents s.channels channel events } where
  wellFormed := h.wellFormed
  channel_fd fd c hc := (setEvents_fd s.channels channel events c).trans (h.channel_fd fd c hc)
  watched_open := h.watched_open
  entry_iff := h.entry_iff
  dropped_unwatched := h.dropped_unwatched
  awaiting_fd c hc := by
    simp only [setEvents_fd]
    exact h.awaiting_fd c hc
  awaiting_nodup := by
    simp only [setEvents_fd]
    exact h.awaiting_nodup
  batch_nodup := h.batch_nodup
  batch_open event hmem hfail := by
    simp only [setEvents_fd]
    exact h.batch_open event hmem hfail

theorem Inv.wait (h : s.Inv) {batch : List EpollEvent} (hadm : s.Admitted (.wait batch)) :
    Inv { s with batch } := by
  obtain ⟨-, -, hnodup, hreported⟩ := hadm
  refine { h with batch_nodup := hnodup, batch_open := ?_ }
  intro event hmem _
  have hw := (hreported event hmem).1
  refine ⟨h.watched_open _ hw, fun c hc heq => hw ?_⟩
  rw [← heq]
  exact (h.awaiting_fd c hc).2.2

/-! ### Operations -/

variable {loop' : EventLoop κ InterestSet} {result : ℤ}

theorem Inv.register (h : s.Inv) {channel : κ} (hc : channel ∈ s.awaiting) {map' : ChannelMap κ}
    {data' : InterestSet} {mask : BitVec 32}
    (hnone : s.loop.channelMap.entry (s.channels channel).fd = none)
    (hlt : (s.channels channel).fd < map'.length) (hext : map'.Extends s.loop.channelMap)
    (hdata : ∀ fd, data' fd =
      if fd = (s.channels channel).fd then some mask else s.loop.dispatcherData fd)
    {awaiting : List κ} (hsub : awaiting.Sublist s.awaiting)
    (hne : ∀ c ∈ awaiting, (s.channels c).fd ≠ (s.channels channel).fd) :
    Inv { s with loop := ⟨map'.set (s.channels channel).fd (some channel), data'⟩, awaiting } := by
  obtain ⟨h0, hop, -⟩ := h.awaiting_fd channel hc
  have hentry := hext.entry_set h0 hlt (some channel)
  have h' := h.sublist hsub (.refl _)
  refine { h' with
    wellFormed := hext.wellFormed.set _ _
    channel_fd := ?_
    watched_open := ?_
    entry_iff := ?_
    dropped_unwatched := ?_
    awaiting_fd := ?_ }
  · intro fd c hfd
    rw [hentry] at hfd
    split_ifs at hfd with heq
    · cases hfd
      exact heq.symm
    · exact h.channel_fd fd c hfd
  · intro fd hw
    change data' fd ≠ none at hw
    rw [hdata] at hw
    split_ifs at hw with heq
    · rw [heq]
      exact hop
    · exact h.watched_open fd hw
  · intro fd
    show (map'.set _ _).entry fd ≠ none ↔ data' fd ≠ none ∨ fd ∈ s.dropped
    rw [hentry, hdata]
    split_ifs with heq
    · simp
    · rw [h.entry_iff]
  · intro fd hd
    show data' fd = none
    rw [hdata, if_neg, h.dropped_unwatched fd hd]
    rintro rfl
    exact (h.not_dropped hnone).2 hd
  · intro c hc'
    obtain ⟨hc0, hopen, hunwatched⟩ := h'.awaiting_fd c hc'
    exact ⟨hc0, hopen, (hdata _).trans ((if_neg (hne c hc')).trans hunwatched)⟩

theorem Inv.add [DecidableEq κ] (h : s.Inv) {channel : κ} (hc : channel ∈ s.awaiting)
    {answer : Alloc (Option κ)} (hret : handlePending (epollEventDispatcher s.isOpen) s.channels
      s.loop ⟨.add, channel⟩ answer = .ok (loop', result)) :
    Inv { s with loop := loop', awaiting := s.awaiting.erase channel } := by
  rcases handlePendingAdd_cases h.wellFormed hret with
    ⟨rfl, -⟩ | ⟨map', data', r, -, hnone, hlt, hext, hadd, rfl⟩
  · exact h.sublist List.erase_sublist (.refl _)
  · apply h.register hc hnone hlt hext (epollOperation_inv hadd).2 List.erase_sublist
    -- the descriptors that are awaited are distinct
    intro c hmem heq
    have hperm := (List.perm_cons_erase hc).map fun c => (s.channels c).fd
    have hnodup := hperm.nodup_iff.mp h.awaiting_nodup
    rw [List.map_cons, List.nodup_cons] at hnodup
    exact hnodup.1 (heq ▸ List.mem_map_of_mem hmem)

theorem Inv.delete (h : s.Inv) {channel : κ} {answer : Alloc (Option κ)}
    (hret : handlePending (epollEventDispatcher s.isOpen) s.channels s.loop ⟨.delete, channel⟩
      answer = .ok (loop', result)) : Inv { s with loop := loop' } := by
  rcases handlePendingRemove_cases h.wellFormed hret with
    ⟨rfl, -⟩ | ⟨c, data', hentry, hdelete, rfl⟩
  · exact h
  obtain ⟨h0, hlt⟩ := h.wellFormed.lt_of_entry hentry
  have hfd := h.channel_fd _ c hentry
  obtain ⟨hwatched, hdata⟩ := epollOperation_inv hdelete
  rw [hfd] at hwatched hdata
  change ∀ fd, data' fd =
    if fd = (s.channels channel).fd then none else s.loop.dispatcherData fd at hdata
  have hset := h.wellFormed.entry_set h0 hlt none
  -- what the kernel deletes was watched, so it was not dropped
  have hnot : (s.channels channel).fd ∉ s.dropped :=
    fun hd => by simpa using hwatched.mp (h.dropped_unwatched _ hd)
  have hnone : ∀ fd, s.loop.dispatcherData fd = none → data' fd = none := by
    intro fd hw
    rw [hdata]
    split_ifs
    · rfl
    · exact hw
  refine { h with
    wellFormed := h.wellFormed.set _ _
    channel_fd := ?_
    watched_open := fun fd hw => h.watched_open fd (mt (hnone fd) hw)
    entry_iff := ?_
    dropped_unwatched := fun fd hd => hnone fd (h.dropped_unwatched fd hd)
    awaiting_fd := ?_ }
  · intro fd c' he
    rw [hset] at he
    split_ifs at he
    exact h.channel_fd fd c' he
  · intro fd
    show (s.loop.channelMap.set _ _).entry fd ≠ none ↔ data' fd ≠ none ∨ fd ∈ s.dropped
    rw [hset, hdata]
    by_cases heq : fd = (s.channels channel).fd
    · simp [heq, hnot]
    · simp only [if_neg heq, h.entry_iff]
  · intro c' hc
    obtain ⟨hc0, hop, hw⟩ := h.awaiting_fd c' hc
    exact ⟨hc0, hop, hnone _ hw⟩

theorem Inv.update (h : s.Inv) {channel : κ} {answer : Alloc (Option κ)}
    (hret : handlePending (epollEventDispatcher s.isOpen) s.channels s.loop ⟨.update, channel⟩
      answer = .ok (loop', result)) : Inv { s with loop := loop' } := by
  rcases handlePendingUpdate_cases h.wellFormed hret with rfl | ⟨c, data', -, hupdate, rfl⟩
  · exact h
  obtain ⟨hwatched, hdata⟩ := epollOperation_inv hupdate
  -- the same descriptors are watched
  have hsame : ∀ fd, data' fd = none ↔ s.loop.dispatcherData fd = none := by
    intro fd
    rw [hdata]
    by_cases heq : fd = (s.channels channel).fd
    · simp [heq, hwatched]
    · rw [if_neg heq]
  exact { h with
    watched_open := fun fd hw => h.watched_open fd (mt (hsame fd).mpr hw)
    entry_iff := fun fd => (h.entry_iff fd).trans (or_congr_left (not_congr (hsame fd).symm))
    dropped_unwatched := fun fd hd => (hsame fd).mpr (h.dropped_unwatched fd hd)
    awaiting_fd := fun c hc => ⟨(h.awaiting_fd c hc).1, (h.awaiting_fd c hc).2.1,
      (hsame _).mpr (h.awaiting_fd c hc).2.2⟩ }

theorem step_inv [DecidableEq κ] (s : EpollRun κ) (event : EpollRunEvent κ) (s' : EpollRun κ)
    (h : s.Inv) (hadm : s.Admitted event) (hret : s.step event = .ok s') : s'.Inv := by
  cases event with
  | accept channel => exact h.accept hadm hret
  | handle op answer =>
    obtain ⟨⟨loop', result⟩, hop, hret⟩ := bind_eq_ok.mp hret
    cases hret
    obtain ⟨type, channel⟩ := op
    cases type with
    | add => exact h.add (hadm rfl) hop
    | delete => exact h.delete hop
    | update => exact h.update hop
  | setEvents channel events =>
    cases hret
    exact h.setEvents channel events
  | wait batch =>
    cases hret
    exact h.wait hadm
  | next => exact h.dispatchNext hret
  | close fd =>
    cases hret
    exact h.close hadm

/-! ### The ADD of an accepted descriptor -/

/-- An ADD that is handled registers its channel unless it finds the entry that the
error branch has left. -/
theorem Inv.registered_iff [DecidableEq κ] (h : s.Inv) {c : κ} (hc : c ∈ s.awaiting)
    {answer : Alloc (Option κ)} (hret : s.step (.handle ⟨.add, c⟩ answer) = .ok s') :
    s'.Registered c ↔ (s.channels c).fd ∉ s.dropped := by
  obtain ⟨h0, -, hunwatched⟩ := h.awaiting_fd c hc
  obtain ⟨⟨loop', result⟩, hop, hret⟩ := bind_eq_ok.mp hret
  cases hret
  have hentry := h.entry_awaiting hc
  rcases handlePendingAdd_cases h.wellFormed hop with
    ⟨rfl, hfound⟩ | ⟨map', data', r, -, hnone, hlt, hext, hadd, rfl⟩
  · apply iff_of_false (fun hreg => hreg.2 hunwatched)
    intro hnot
    exact hnot (hentry.mp (hfound.resolve_left (not_lt.mpr h0)))
  · refine iff_of_true ⟨?_, ?_⟩ fun hd => hentry.mpr hd hnone
    · exact (hext.entry_set h0 hlt _ _).trans (if_pos rfl)
    · show data' (s.channels c).fd ≠ none
      rw [(epollOperation_inv hadd).2, if_pos rfl]
      nofun

theorem step_handle [DecidableEq κ] {op : PendingOp κ} {answer : Alloc (Option κ)}
    (hop : handlePending (epollEventDispatcher s.isOpen) s.channels s.loop op answer =
      .ok (loop', result)) :
    s.step (.handle op answer) = .ok { s with
      loop := loop'
      awaiting := if op.type = .add then s.awaiting.erase op.channel else s.awaiting } := by
  simp only [step, hop, ok_bind]

theorem Inv.add_ok [DecidableEq κ] (h : s.Inv) {c : κ} (hc : c ∈ s.awaiting)
    (hfd : (s.channels c).fd < 134217728) (fill : ℕ → Option κ) :
    ∃ s', s.step (.handle ⟨.add, c⟩ (some fill)) = .ok s' := by
  obtain ⟨h0, hop, hunwatched⟩ := h.awaiting_fd c hc
  cases he : s.loop.channelMap.entry (s.channels c).fd with
  | some c' => exact ⟨_, step_handle (handlePendingAdd_present (some fill) h.wellFormed he)⟩
  | none =>
    obtain ⟨map', hspace, hlt, hext⟩ := makeSpace_ok fill h.wellFormed h0 hfd
    have hadd : (epollEventDispatcher s.isOpen).add s.loop.dispatcherData (s.channels c) = _ :=
      epollAdd_ok hop hunwatched
    have hret := handlePendingAdd_absent (epollEventDispatcher s.isOpen) s.channels c h0 hspace hlt
      hext he
    rw [hadd, ok_bind] at hret
    exact ⟨_, step_handle hret⟩

/-- In every state that a run reaches, an accepted channel whose ADD is then handled is
in the channel map and in the interest set exactly if the error branch has not closed
its number while another channel was registered for it; and the ADD returns if the
allocator serves it, for descriptors below `2 ^ 27`. -/
theorem accepted_registered_iff [DecidableEq κ] {channels : κ → Channel} {isOpen : ℤ → Bool}
    {events : List (EpollRunEvent κ)}
    (hadm : Admissible step Admitted (init channels isOpen) events)
    (hrun : events.foldlM step (init channels isOpen) = .ok s) {c : κ} (hc : c ∈ s.awaiting) :
    (∀ answer s', s.step (.handle ⟨.add, c⟩ answer) = .ok s' →
      (s'.Registered c ↔ (s.channels c).fd ∉ s.dropped)) ∧
    ((s.channels c).fd < 134217728 → ∀ fill, ∃ s',
      s.step (.handle ⟨.add, c⟩ (some fill)) = .ok s') := by
  have hinv := foldlM_inv step_inv (inv_init channels isOpen) hadm hrun
  exact ⟨fun answer s' hret => hinv.registered_iff hc hret, fun hfd fill => hinv.add_ok hc hfd fill⟩

instance decidableAdmitted [DecidableEq κ] (s : EpollRun κ) (event : EpollRunEvent κ) :
    Decidable (s.Admitted event) :=
  match event with
  | .accept _ => inferInstanceAs (Decidable (_ ∧ _))
  | .handle op _ => inferInstanceAs (Decidable (op.type = .add → op.channel ∈ s.awaiting))
  | .setEvents _ _ => .isTrue trivial
  | .wait _ => inferInstanceAs (Decidable (_ ∧ _ ∧ _ ∧ ∀ event ∈ _, _ ∧ _))
  | .next => inferInstanceAs (Decidable (_ ≠ _))
  | .close _ => inferInstanceAs (Decidable (_ ∧ (∀ channel ∈ _, _) ∧ ∀ event ∈ _, _ → _))

instance [DecidableEq κ] (s : EpollRun κ) (channel : κ) : Decidable (s.Registered channel) :=
  inferInstanceAs (Decidable (_ ∧ _))

/-- Every connection gets the number 5. -/
def numberFive (id : ConnectionId) : Channel :=
  channelNew 5 eventRead (some .handleRead) (some .handleWrite) (.tcpConnection id)

def addConnection (id : ConnectionId) : EpollRunEvent ConnectionId :=
  .handle ⟨.add, id⟩ (some fun _ => none)

/-- The peer of connection 0 hangs up, and connection 1 gets its number. -/
def hangUpRun : List (EpollRunEvent ConnectionId) :=
  [.accept 0, addConnection 0, .wait [⟨epollIn ||| epollHup, 5⟩], .next, .accept 1]

/-- The ADD of connection 1 returns without a registration. -/
theorem accepted_not_registered :
    ∃ s s', Admissible step Admitted (init numberFive fun _ => false) hangUpRun ∧
      hangUpRun.foldlM step (init numberFive fun _ => false) = .ok s ∧ 1 ∈ s.awaiting ∧
      s.step (addConnection 1) = .ok s' ∧ ¬ s'.Registered 1 := by
  have hadm : Admissible step Admitted (init numberFive fun _ => false) hangUpRun := by
    decide +kernel
  obtain ⟨s, hrun, hmem, hadd⟩ := exists_ok_of_any
    (m := hangUpRun.foldlM step (init numberFive fun _ => false))
    (p := fun s => 1 ∈ s.awaiting ∧
      (s.step (addConnection 1)).toOption.any (¬ Registered · 1) = true)
    (by decide +kernel)
  obtain ⟨s', hs', hnot⟩ := exists_ok_of_any (p := (¬ Registered · 1)) hadd
  exact ⟨s, s', hadm, hrun, hmem, hs', hnot⟩

/-- Connection 0 is closed in the right order, and connection 1 gets its number. -/
def orderlyRun : List (EpollRunEvent ConnectionId) :=
  [.accept 0, addConnection 0, .wait [⟨epollIn, 5⟩], .next, .handle ⟨.delete, 0⟩ none, .close 5,
    .next, .accept 1]

theorem accepted_registered_iff_orderly :
    ∃ s s', orderlyRun.foldlM step (init numberFive fun _ => false) = .ok s ∧
      s.step (addConnection 1) = .ok s' ∧ s'.Registered 1 := by
  have hadm : Admissible step Admitted (init numberFive fun _ => false) orderlyRun := by
    decide +kernel
  obtain ⟨s, hrun, hmem, hnot, hfd⟩ := exists_ok_of_any
    (m := orderlyRun.foldlM step (init numberFive fun _ => false))
    (p := fun s => 1 ∈ s.awaiting ∧ (s.channels 1).fd ∉ s.dropped ∧
      (s.channels 1).fd < 134217728) (by decide +kernel)
  obtain ⟨hiff, hret⟩ := accepted_registered_iff hadm hrun hmem
  obtain ⟨s', hs'⟩ := hret hfd fun _ => none
  exact ⟨s, s', hrun, hs', (hiff _ s' hs').mpr hnot⟩

end EpollRun

end OsProgramming.Reactor
