import OsProgramming.Reactor.StaleOperations

/-! The two dispatchers on the same operations. The interest set of the kernel has room
for every descriptor, and the array of the poll dispatcher has 1024 slots. -/

namespace OsProgramming.Reactor

open Library

variable {κ : Type}

/-- Two loops on the same channels, one for each dispatcher. -/
structure TwinRun (κ : Type) where
  poll : PollRun κ
  epoll : EventLoop κ InterestSet

namespace TwinRun

def init (channels : κ → Channel) (fill : ℕ → PollFd) : TwinRun κ :=
  ⟨.init channels fill, channelMapInit, fun _ => none⟩

/-- Both loops are given the event. `epoll_ctl` is a map of the descriptors here, so all
of them are open. -/
def step [DecidableEq κ] (s : TwinRun κ) (event : PollEvent κ) : Result (TwinRun κ) := do
  let poll ← s.poll.step event
  match event with
  | .handle op answer => do
    let (epoll, _) ← handlePending (epollEventDispatcher fun _ => true) s.poll.channels s.epoll op
      answer
    .ok ⟨poll, epoll⟩
  | .setEvents _ _ => .ok { s with poll }

/-- How the poll dispatcher watches a descriptor: for each slot, if for reading and if
for writing. -/
def pollWatch (s : TwinRun κ) (fd : ℤ) : List (Bool × Bool) :=
  (slotsOf s.poll.loop.dispatcherData fd).map fun mask =>
    (mask &&& pollRdNorm != 0, mask &&& pollWrNorm != 0)

def epollWatch (s : TwinRun κ) (fd : ℤ) : List (Bool × Bool) :=
  (s.epoll.dispatcherData fd).toList.map fun mask =>
    (mask &&& epollIn != 0, mask &&& epollOut != 0)

/-- Both watch the registered descriptors, with the same interest. -/
def Agrees (s : TwinRun κ) : Prop :=
  ∀ fd, 0 ≤ fd → s.pollWatch fd = s.epollWatch fd ∧
    (s.epollWatch fd = [] ↔ s.poll.loop.channelMap.entry fd = none)

/-- If the operation is an ADD that takes effect, less than 1024 descriptors are
registered. -/
def Room (s : TwinRun κ) : PollEvent κ → Prop
  | .handle op _ => op.type = .add → 0 ≤ (s.poll.channels op.channel).fd →
      s.poll.loop.channelMap.entry (s.poll.channels op.channel).fd = none →
      s.poll.loop.channelMap.registered < initPollSize
  | .setEvents _ _ => True

/-! ### The interest set -/

def epollTranslation (events : Events) : BitVec 32 :=
  (if events &&& eventRead = 0 then 0 else epollIn) |||
    (if events &&& eventWrite = 0 then 0 else epollOut)

theorem epollInterest_eq (channel : Channel) :
    epollInterest channel = epollTranslation channel.events := by
  unfold epollInterest epollTranslation channelEventIsReadable channelEventIsWriteable
  split_ifs <;> simp_all

/-- The two translations of the events of a channel ask for the same. -/
theorem translations_agree (events : Events) :
    (pollTranslation events &&& pollRdNorm != 0, pollTranslation events &&& pollWrNorm != 0) =
      (epollTranslation events &&& epollIn != 0, epollTranslation events &&& epollOut != 0) := by
  unfold pollTranslation epollTranslation
  split_ifs <;> decide

/-- The map and the interest set are two tables of what is watched. -/
structure Follows (s : TwinRun κ) (a : Watch κ) : Prop where
  channels_eq : s.poll.channels = a.channels
  map_eq : s.epoll.channelMap = s.poll.loop.channelMap
  keyed : s.poll.loop.Keyed s.poll.channels
  entry_eq : ∀ fd, s.poll.loop.channelMap.entry fd = (a.watched fd).map Prod.fst
  interest_eq : ∀ fd, s.epoll.dispatcherData fd =
    (a.watched fd).map fun entry => epollTranslation entry.2

variable {s : TwinRun κ} {a : Watch κ}

theorem Follows.init (channels : κ → Channel) (fill : ℕ → PollFd) :
    (init channels fill).Follows ⟨channels, fun _ => none⟩ :=
  ⟨rfl, rfl, EventLoop.keyed_init channels _, ChannelMap.entry_init, fun _ => rfl⟩

/-- Both tables after a change at one descriptor. -/
theorem Follows.put (h : s.Follows a) {fd : ℤ} {entry : Option (κ × Events)}
    {poll' : EventLoop κ (List PollFd)} {epoll' : EventLoop κ InterestSet}
    (hmap : epoll'.channelMap = poll'.channelMap) (hkeyed : poll'.Keyed s.poll.channels)
    (hentry : ∀ fd', poll'.channelMap.entry fd' =
      if fd' = fd then entry.map Prod.fst else s.poll.loop.channelMap.entry fd')
    (hinterest : ∀ fd', epoll'.dispatcherData fd' =
      if fd' = fd then entry.map fun entry => epollTranslation entry.2
      else s.epoll.dispatcherData fd') :
    Follows ⟨⟨s.poll.channels, poll'⟩, epoll'⟩ (a.put fd entry) := by
  refine ⟨h.channels_eq, hmap, hkeyed, ?_, ?_⟩
  · intro fd'
    rw [show (⟨⟨s.poll.channels, poll'⟩, epoll'⟩ : TwinRun κ).poll.loop = poll' from rfl, hentry]
    by_cases heq : fd' = fd
    · rw [if_pos heq, heq, a.put_self]
    · rw [if_neg heq, a.put_of_ne _ heq, h.entry_eq]
  · intro fd'
    rw [show (⟨⟨s.poll.channels, poll'⟩, epoll'⟩ : TwinRun κ).epoll = epoll' from rfl, hinterest]
    by_cases heq : fd' = fd
    · rw [if_pos heq, heq, a.put_self]
    · rw [if_neg heq, a.put_of_ne _ heq, h.interest_eq]

theorem Follows.entry_none (h : s.Follows a) {fd : ℤ} :
    s.poll.loop.channelMap.entry fd = none ↔ a.watched fd = none := by
  rw [h.entry_eq, Option.map_eq_none_iff]

theorem Follows.watched_of_neg (h : s.Follows a) {fd : ℤ} (hneg : fd < 0) :
    a.watched fd = none := by
  rw [← h.entry_none, ChannelMap.entry, if_neg (by omega)]

theorem Follows.wellFormed (h : s.Follows a) : s.epoll.channelMap.WellFormed :=
  h.map_eq ▸ h.keyed.wellFormed

/-- What the map says of a descriptor is what `epoll_ctl` needs. -/
theorem Follows.operation_ok (h : s.Follows a) (op : EpollCtl) (channel : Channel)
    (hwatched : a.watched channel.fd = none ↔ op = .add) :
    ∃ interest', epollOperation op (fun _ => true) s.epoll.dispatcherData channel =
      .ok (interest', 1) ∧ ∀ fd, interest' fd =
        if fd = channel.fd then
          if op = .del then none else some (epollTranslation channel.events)
        else s.epoll.dispatcherData fd := by
  have hinterest : s.epoll.dispatcherData channel.fd = none ↔ op = .add := by
    rw [h.interest_eq, Option.map_eq_none_iff]
    exact hwatched
  obtain ⟨interest', hop⟩ : ∃ interest', epollOperation op (fun _ => true) _ channel = _ :=
    epollOperation_ok rfl hinterest
  refine ⟨interest', hop, ?_⟩
  rw [← epollInterest_eq]
  exact (epollOperation_inv hop).2

/-- All tables are of what is watched. -/
def Inv (s : TwinRun κ) : Prop := ∃ a, s.poll.Coherent a ∧ s.Follows a

theorem inv_init (channels : κ → Channel) (fill : ℕ → PollFd) : (init channels fill).Inv :=
  ⟨_, .init channels fill, .init channels fill⟩

variable [DecidableEq κ] {channel : κ} {answer : Alloc (Option κ)} {poll' : PollRun κ}

theorem step_handle {op : PendingOp κ} {epoll' : EventLoop κ InterestSet} {r : ℤ}
    (hpoll : s.poll.step (.handle op answer) = .ok poll')
    (hepoll : handlePending (epollEventDispatcher fun _ => true) s.poll.channels s.epoll op answer =
      .ok (epoll', r)) : s.step (.handle op answer) = .ok ⟨poll', epoll'⟩ := by
  simp only [step, hpoll, hepoll, ok_bind]

theorem Follows.add (h : s.Follows a)
    (hpoll : s.poll.step (.handle ⟨.add, channel⟩ answer) = .ok poll') :
    ∃ epoll', s.step (.handle ⟨.add, channel⟩ answer) = .ok ⟨poll', epoll'⟩ ∧
      Follows ⟨poll', epoll'⟩ (a.step (.handle ⟨.add, channel⟩ answer)) := by
  have hch := congrFun h.channels_eq channel
  obtain ⟨⟨loop', result⟩, hop, hpoll'⟩ := bind_eq_ok.mp hpoll
  cases hpoll'
  have hkeyed := h.keyed.keeps hop
  change eventLoopHandlePendingAdd _ _ _ _ _ _ = _ at hop
  rcases lt_or_ge (s.poll.channels channel).fd 0 with hneg | h0
  · rw [eventLoopHandlePendingAdd, if_pos hneg] at hop
    cases hop
    refine ⟨s.epoll, step_handle hpoll (r := 0) ?_, ?_⟩
    · simp only [handlePending, eventLoopHandlePendingAdd, hneg, ↓reduceIte]
    have hkept : a.step (.handle ⟨.add, channel⟩ answer) = a := by
      simp [Watch.step, Watch.handle, ← hch, h.watched_of_neg hneg, not_le.mpr hneg]
    rw [hkept]
    exact h
  cases hw : a.watched (s.poll.channels channel).fd with
  | some entry =>
    have hentry : s.poll.loop.channelMap.entry (s.poll.channels channel).fd = some entry.1 := by
      rw [h.entry_eq, hw]; rfl
    rw [handlePendingAdd_present answer h.keyed.wellFormed hentry] at hop
    cases hop
    refine ⟨s.epoll, step_handle hpoll
      (handlePendingAdd_present answer h.wellFormed (h.map_eq ▸ hentry)), ?_⟩
    have hkept : a.step (.handle ⟨.add, channel⟩ answer) = a := by
      simp [Watch.step, Watch.handle, ← hch, hw]
    rw [hkept]
    exact h
  | none =>
    have hnone := h.entry_none.mpr hw
    obtain ⟨map', hspace, hlt, hext⟩ := handlePendingAdd_space h.keyed.wellFormed h0 hop
    rw [handlePendingAdd_absent _ _ channel h0 hspace hlt hext hnone] at hop
    obtain ⟨⟨data', r⟩, -, hop⟩ := bind_eq_ok.mp hop
    cases hop
    obtain ⟨interest', hadd, hinterest⟩ := h.operation_ok .add
      (s.poll.channels channel) (iff_of_true hw rfl)
    have hepoll : eventLoopHandlePendingAdd (epollEventDispatcher fun _ => true) s.poll.channels
        s.epoll _ channel answer = epollOperation .add _ _ _ >>= _ :=
      handlePendingAdd_absent _ _ channel h0 (h.map_eq ▸ hspace) hlt (h.map_eq ▸ hext)
        (h.map_eq ▸ hnone)
    rw [hadd, ok_bind] at hepoll
    refine ⟨_, step_handle hpoll hepoll, ?_⟩
    have hstep : a.step (.handle ⟨.add, channel⟩ answer) =
        a.put (s.poll.channels channel).fd (some (channel, (s.poll.channels channel).events)) := by
      simp [Watch.step, Watch.handle, ← hch, hw, h0]
    rw [hstep]
    exact h.put rfl hkeyed (hext.entry_set h0 hlt _) hinterest

theorem Follows.delete (h : s.Follows a)
    (hpoll : s.poll.step (.handle ⟨.delete, channel⟩ answer) = .ok poll') :
    ∃ epoll', s.step (.handle ⟨.delete, channel⟩ answer) = .ok ⟨poll', epoll'⟩ ∧
      Follows ⟨poll', epoll'⟩ (a.step (.handle ⟨.delete, channel⟩ answer)) := by
  have hch := congrFun h.channels_eq channel
  obtain ⟨⟨loop', result⟩, hop, hpoll'⟩ := bind_eq_ok.mp hpoll
  cases hpoll'
  have hkeyed := h.keyed.keeps hop
  change eventLoopHandlePendingRemove _ _ _ _ = _ at hop
  have hstep : a.step (.handle ⟨.delete, channel⟩ answer) =
      a.put (s.poll.channels channel).fd none := by
    simp [Watch.step, Watch.handle, ← hch]
  rw [hstep]
  rcases handlePendingRemove_cases h.keyed.wellFormed hop with
    ⟨rfl, hnone⟩ | ⟨c, data', hentry, -, rfl⟩
  · have hne := handlePendingRemove_ne_length h.keyed.wellFormed hop
    obtain ⟨r, hepoll⟩ := handlePendingRemove_absent (epollEventDispatcher fun _ => true)
      s.poll.channels h.wellFormed (h.map_eq ▸ hne) (h.map_eq ▸ hnone)
    refine ⟨s.epoll, step_handle hpoll hepoll, ?_⟩
    rw [← h.entry_none.mp hnone, a.put_watched]
    exact h
  · obtain ⟨h0, hlt⟩ := h.keyed.wellFormed.lt_of_entry hentry
    have hfd := h.keyed.channel_fd _ c hentry
    obtain ⟨interest', hdelete, hinterest⟩ := h.operation_ok .del
      (s.poll.channels c) (iff_of_false (by simp [hfd, ← h.entry_none, hentry]) (by simp))
    have hepoll : eventLoopHandlePendingRemove (epollEventDispatcher fun _ => true) s.poll.channels
        s.epoll _ = epollOperation .del _ _ _ >>= _ :=
      handlePendingRemove_present h.wellFormed (h.map_eq ▸ hentry)
    rw [hdelete, ok_bind] at hepoll
    refine ⟨_, step_handle hpoll hepoll, ?_⟩
    apply h.put (by rw [h.map_eq]) hkeyed
    · intro fd
      rw [h.keyed.wellFormed.entry_set h0 hlt]
      rfl
    · rw [hfd] at hinterest
      exact hinterest

theorem Follows.update (h : s.Follows a)
    (hpoll : s.poll.step (.handle ⟨.update, channel⟩ answer) = .ok poll') :
    ∃ epoll', s.step (.handle ⟨.update, channel⟩ answer) = .ok ⟨poll', epoll'⟩ ∧
      Follows ⟨poll', epoll'⟩ (a.step (.handle ⟨.update, channel⟩ answer)) := by
  have hch := congrFun h.channels_eq channel
  obtain ⟨⟨loop', result⟩, hop, hpoll'⟩ := bind_eq_ok.mp hpoll
  cases hpoll'
  have hkeyed := h.keyed.keeps hop
  change eventLoopHandlePendingUpdate _ _ _ _ _ = _ at hop
  cases hw : a.watched (s.poll.channels channel).fd with
  | none =>
    have hnone := h.entry_none.mpr hw
    have hne := handlePendingUpdate_ne_length h.keyed.wellFormed hop
    obtain ⟨r, hepoll⟩ := handlePendingUpdate_absent (epollEventDispatcher fun _ => true)
      s.poll.channels channel h.wellFormed (h.map_eq ▸ hne) (h.map_eq ▸ hnone)
    refine ⟨s.epoll, step_handle hpoll hepoll, ?_⟩
    obtain ⟨r', hkeep⟩ := handlePendingUpdate_absent pollEventDispatcher
      s.poll.channels channel h.keyed.wellFormed hne hnone
    cases hop.symm.trans hkeep
    have hkept : a.step (.handle ⟨.update, channel⟩ answer) = a := by
      simp [Watch.step, Watch.handle, ← hch, hw]
    rw [hkept]
    exact h
  | some entry =>
    obtain ⟨c, events⟩ := entry
    have hentry : s.poll.loop.channelMap.entry (s.poll.channels channel).fd = some c := by
      rw [h.entry_eq, hw]; rfl
    rw [handlePendingUpdate_present h.keyed.wellFormed hentry] at hop
    obtain ⟨⟨data', r⟩, -, hop⟩ := bind_eq_ok.mp hop
    cases hop
    obtain ⟨interest', hupdate, hinterest⟩ := h.operation_ok .mod
      (s.poll.channels channel) (iff_of_false (by simp [hw]) (by simp))
    have hepoll : eventLoopHandlePendingUpdate (epollEventDispatcher fun _ => true) s.poll.channels
        s.epoll _ channel = epollOperation .mod _ _ _ >>= _ :=
      handlePendingUpdate_present h.wellFormed (h.map_eq ▸ hentry)
    rw [hupdate, ok_bind] at hepoll
    refine ⟨_, step_handle hpoll hepoll, ?_⟩
    have hstep : a.step (.handle ⟨.update, channel⟩ answer) =
        a.put (s.poll.channels channel).fd (some (c, (s.poll.channels channel).events)) := by
      simp [Watch.step, Watch.handle, ← hch, hw]
    rw [hstep]
    apply h.put (by exact h.map_eq) hkeyed
    · intro fd
      split_ifs with heq
      · rw [heq]
        exact hentry
      · rfl
    · exact hinterest

/-- No call of `epoll_ctl` fails: where the loop with the poll dispatcher goes on, so
does the other. -/
theorem Follows.step (h : s.Follows a) {event : PollEvent κ}
    (hpoll : s.poll.step event = .ok poll') :
    ∃ epoll', s.step event = .ok ⟨poll', epoll'⟩ ∧ Follows ⟨poll', epoll'⟩ (a.step event) := by
  cases event with
  | handle op answer =>
    obtain ⟨type, channel⟩ := op
    cases type with
    | add => exact h.add hpoll
    | delete => exact h.delete hpoll
    | update => exact h.update hpoll
  | setEvents channel events =>
    cases hpoll
    exact ⟨s.epoll, rfl, congrArg (setEvents · channel events) h.channels_eq, h.map_eq,
      h.keyed.setEvents channel events, h.entry_eq, h.interest_eq⟩

/-! ### The slots -/

omit [DecidableEq κ] in
theorem Follows.agrees (h : s.Follows a) (hcoh : s.poll.Coherent a) : s.Agrees := by
  intro fd h0
  rw [pollWatch, epollWatch, hcoh.slots_eq fd h0, h.interest_eq, h.entry_none]
  cases a.watched fd with
  | none => exact ⟨rfl, iff_of_true rfl rfl⟩
  | some entry =>
    refine ⟨congrArg (fun interest => [interest]) (translations_agree entry.2), ?_⟩
    simp

/-- With room for an ADD, the loop with the poll dispatcher follows what is watched. -/
theorem coherent_step (hcoh : s.poll.Coherent a) {event : PollEvent κ} (hroom : s.Room event)
    (hpoll : s.poll.step event = .ok poll') : poll'.Coherent (a.step event) := by
  by_cases hadm : event.Admitted s.poll
  · exact PollRun.step_follows s.poll a event poll' hcoh hadm hpoll
  -- an UPDATE or DELETE beyond the map is rejected
  cases event with
  | setEvents channel events => exact absurd trivial hadm
  | handle op answer =>
    have hch := congrFun hcoh.channels_eq op.channel
    have hbeyond : op.type ≠ .add → s.poll.loop.channelMap.entry (s.poll.channels op.channel).fd =
        none := by
      intro htype
      by_contra hentry
      obtain ⟨c, hc⟩ := Option.ne_none_iff_exists'.mp hentry
      have hlt := (hcoh.wellFormed.lt_of_entry hc).2
      apply hadm
      obtain ⟨type, channel⟩ := op
      cases type with
      | add => exact absurd rfl htype
      | delete => exact hlt
      | update => exact hlt
    obtain ⟨⟨loop', result⟩, hop, hpoll⟩ := bind_eq_ok.mp hpoll
    cases hpoll
    obtain ⟨type, channel⟩ := op
    cases type with
    | add => exact absurd (hroom rfl) hadm
    | delete =>
      have hnone := hbeyond (by simp)
      rcases handlePendingRemove_cases hcoh.wellFormed hop with
        ⟨rfl, -⟩ | ⟨c, data', hentry, -, rfl⟩
      · have hkept : a.step (.handle ⟨.delete, channel⟩ answer) = a := by
          have hstep : a.step (.handle ⟨.delete, channel⟩ answer) =
              a.put (s.poll.channels channel).fd none := by
            simp [Watch.step, Watch.handle, ← hch]
          rw [hstep, ← hcoh.entry_none.mp hnone, a.put_watched]
        rw [hkept]
        exact hcoh
      · rw [hnone] at hentry
        cases hentry
    | update =>
      have hnone := hbeyond (by simp)
      rcases handlePendingUpdate_cases hcoh.wellFormed hop with rfl | ⟨c, data', hentry, -, rfl⟩
      · have hkept : a.step (.handle ⟨.update, channel⟩ answer) = a := by
          simp [Watch.step, Watch.handle, ← hch, hcoh.entry_none.mp hnone]
        rw [hkept]
        exact hcoh
      · rw [hnone] at hentry
        cases hentry

/-- Without a free slot, the ADD leaves the slots as they are. -/
theorem pollAdd_full {data : List PollFd} (hfull : data.length ≤ occupied data)
    (channel : Channel) : pollAdd data channel = .ok (data, 1) := by
  have hall : occupied data = data.length := le_antisymm List.countP_le_length hfull
  have hno : ∀ slot ∈ data, decide (slot.fd < 0) = false := by
    intro slot hslot
    have := List.countP_eq_length.mp hall slot hslot
    simpa using this
  rw [pollAdd, modifyFirst_of_forall hno]

/-- An ADD that takes effect without room is not watched by the poll dispatcher. -/
theorem Follows.disagrees (h : s.Follows a) (hcoh : s.poll.Coherent a) {event : PollEvent κ}
    {s' : TwinRun κ} (hret : s.step event = .ok s') (hroom : ¬ s.Room event) : ¬ s'.Agrees := by
  cases event with
  | setEvents channel events => exact absurd trivial hroom
  | handle op answer =>
    obtain ⟨type, channel⟩ := op
    simp only [Room, Classical.not_imp, not_lt] at hroom
    obtain ⟨rfl, h0, hnone, hfull⟩ := hroom
    have hch := congrFun h.channels_eq channel
    have hw := h.entry_none.mp hnone
    obtain ⟨poll', hpoll, -⟩ := bind_eq_ok.mp hret
    obtain ⟨epoll', hs', hfollows⟩ := h.step hpoll
    cases hret.symm.trans hs'
    obtain ⟨⟨loop', result⟩, hop, hpoll⟩ := bind_eq_ok.mp hpoll
    cases hpoll
    rcases handlePendingAdd_cases h.keyed.wellFormed hop with
      ⟨-, hfound⟩ | ⟨map', data', r, -, -, -, -, hadd, rfl⟩
    · exact absurd hnone (hfound.resolve_left (not_lt.mpr h0))
    change pollAdd _ _ = _ at hadd
    rw [pollAdd_full (by rw [hcoh.occupied_eq, hcoh.length_eq]; exact hfull)] at hadd
    cases hadd
    intro hagrees
    have hagree := (hagrees _ h0).1
    have hstep : a.step (.handle ⟨.add, channel⟩ answer) =
        a.put (s.poll.channels channel).fd (some (channel, (s.poll.channels channel).events)) := by
      simp [Watch.step, Watch.handle, ← hch, hw, h0]
    rw [hstep] at hfollows
    rw [epollWatch, hfollows.interest_eq, a.put_self, pollWatch] at hagree
    change (slotsOf s.poll.loop.dispatcherData _).map _ = _ at hagree
    rw [hcoh.slots_eq _ h0, hw] at hagree
    cases hagree

/-! ### Runs -/

/-- UPDATE and DELETE are for descriptors below the length of the map. -/
def Below (s : PollRun κ) : PollEvent κ → Prop
  | .handle op _ => op.type ≠ .add → (s.channels op.channel).fd < s.loop.channelMap.length
  | .setEvents _ _ => True

theorem poll_returns {p : PollRun κ} (h : p.loop.Keyed p.channels) {event : PollEvent κ}
    (hbelow : Below p event) (hserved : event.Served p) : ∃ p', p.step event = .ok p' := by
  cases event with
  | setEvents channel events => exact ⟨_, rfl⟩
  | handle op answer =>
    suffices hop : ∃ r, handlePending pollEventDispatcher p.channels p.loop op answer = .ok r by
      obtain ⟨r, hr⟩ := hop
      exact ⟨{ p with loop := r.1 }, by simp only [PollRun.step, hr, ok_bind]⟩
    obtain ⟨type, channel⟩ := op
    cases type with
    | add =>
      show ∃ r, eventLoopHandlePendingAdd _ _ _ _ _ _ = .ok r
      rcases lt_or_ge (p.channels channel).fd 0 with hneg | h0
      · exact ⟨_, by rw [eventLoopHandlePendingAdd, if_pos hneg]⟩
      cases hentry : p.loop.channelMap.entry (p.channels channel).fd with
      | some c => exact ⟨_, handlePendingAdd_present answer h.wellFormed hentry⟩
      | none =>
        obtain ⟨hfd, hanswer⟩ := hserved rfl
        obtain ⟨fill, rfl⟩ := Option.isSome_iff_exists.mp hanswer
        obtain ⟨map', hspace, hlt, hext⟩ := makeSpace_ok fill h.wellFormed h0 hfd
        exact ⟨_, handlePendingAdd_absent _ _ channel h0 hspace hlt hext hentry⟩
    | delete =>
      show ∃ r, eventLoopHandlePendingRemove _ _ _ _ = .ok r
      cases hentry : p.loop.channelMap.entry (p.channels channel).fd with
      | some c => exact ⟨_, handlePendingRemove_present h.wellFormed hentry⟩
      | none =>
        obtain ⟨r, hr⟩ := handlePendingRemove_absent pollEventDispatcher p.channels h.wellFormed
          (hbelow (by simp)).ne hentry
        exact ⟨_, hr⟩
    | update =>
      show ∃ r, eventLoopHandlePendingUpdate _ _ _ _ _ = .ok r
      cases hentry : p.loop.channelMap.entry (p.channels channel).fd with
      | some c => exact ⟨_, handlePendingUpdate_present h.wellFormed hentry⟩
      | none =>
        obtain ⟨r, hr⟩ := handlePendingUpdate_absent pollEventDispatcher p.channels channel
          h.wellFormed (hbelow (by simp)).ne hentry
        exact ⟨_, hr⟩

theorem Follows.run (h : s.Follows a) {events : List (PollEvent κ)}
    (hpoll : events.foldlM PollRun.step s.poll = .ok poll') :
    ∃ epoll', events.foldlM TwinRun.step s = .ok ⟨poll', epoll'⟩ := by
  induction events generalizing s a with
  | nil =>
    cases hpoll
    exact ⟨s.epoll, rfl⟩
  | cons event events ih =>
    rw [List.foldlM_cons, bind_eq_ok] at hpoll
    obtain ⟨p, hp, hrest⟩ := hpoll
    obtain ⟨e, he, hfollows⟩ := h.step hp
    obtain ⟨epoll', hrun⟩ := ih hfollows hrest
    exact ⟨epoll', by rw [List.foldlM_cons, he, ok_bind, hrun]⟩

theorem poll_step_keyed (p : PollRun κ) (event : PollEvent κ) (h : p.loop.Keyed p.channels)
    (hadm : Below p event ∧ event.Served p) :
    ∃ p', p.step event = .ok p' ∧ p'.loop.Keyed p'.channels := by
  obtain ⟨p', hp'⟩ := poll_returns h hadm.1 hadm.2
  exact ⟨p', hp', p.keyed_step event p' h hp'⟩

theorem inv_step (s : TwinRun κ) (event : PollEvent κ) (s' : TwinRun κ) (h : s.Inv)
    (hroom : s.Room event) (hret : s.step event = .ok s') : s'.Inv := by
  obtain ⟨a, hcoh, hfollows⟩ := h
  obtain ⟨poll', hpoll, -⟩ := bind_eq_ok.mp hret
  obtain ⟨epoll', hs', hfollows'⟩ := hfollows.step hpoll
  cases hret.symm.trans hs'
  exact ⟨_, coherent_step hcoh hroom hpoll, hfollows'⟩

theorem inv_agrees_iff (s : TwinRun κ) (event : PollEvent κ) (s' : TwinRun κ) (h : s.Inv)
    (hret : s.step event = .ok s') : s'.Agrees ↔ s.Room event := by
  constructor
  · intro hagrees
    obtain ⟨a, hcoh, hfollows⟩ := h
    by_contra hroom
    exact hfollows.disagrees hcoh hret hroom hagrees
  · intro hroom
    obtain ⟨a, hcoh, hfollows⟩ := inv_step s event s' h hroom hret
    exact hfollows.agrees hcoh

/-- Over every run, no call of `epoll_ctl` fails; the two backends watch the same after
every operation if and only if no ADD takes effect while 1024 descriptors are
registered; and the run returns if the allocator serves it, for descriptors below
`2 ^ 27`. -/
theorem backends_agree_iff (channels : κ → Channel) (fill : ℕ → PollFd)
    (events : List (PollEvent κ)) :
    (∀ poll', events.foldlM PollRun.step (.init channels fill) = .ok poll' →
      ∃ epoll', events.foldlM step (init channels fill) = .ok ⟨poll', epoll'⟩) ∧
    (∀ s, events.foldlM step (init channels fill) = .ok s →
      (EachStep step (fun _ _ s' => s'.Agrees) (init channels fill) events ↔
        Admissible step Room (init channels fill) events)) ∧
    (Admissible PollRun.step (fun s event => Below s event ∧ event.Served s) (.init channels fill)
        events →
      ∃ poll', events.foldlM PollRun.step (.init channels fill) = .ok poll') := by
  refine ⟨fun poll' hpoll => (Follows.init channels fill).run hpoll, ?_, ?_⟩
  · intro s hrun
    exact eachStep_iff inv_step inv_agrees_iff (inv_init channels fill) hrun
  · intro hadm
    obtain ⟨poll', hrun, -⟩ := foldlM_ok poll_step_keyed (EventLoop.keyed_init channels _) hadm
    exact ⟨poll', hrun⟩

/-! ### One descriptor more than there are slots -/

def numbered (n : ℕ) : Channel := channelNew n eventRead none none .tcpServer

/-- The descriptors from 0 on are added. -/
def addAll (n : ℕ) : List (PollEvent ℕ) :=
  (List.range n).map fun i => .handle ⟨.add, i⟩ (some fun _ => none)

/-- The map after that has one entry for each. -/
theorem addAll_run (fill : ℕ → PollFd) (n : ℕ) (hn : n ≤ 134217728) :
    ∃ p, (addAll n).foldlM PollRun.step (.init numbered fill) = .ok p ∧ p.channels = numbered ∧
      p.loop.Keyed p.channels ∧ (∀ fd : ℤ, n ≤ fd → p.loop.channelMap.entry fd = none) ∧
      p.loop.channelMap.registered = n := by
  induction n with
  | zero =>
    refine ⟨_, rfl, rfl, EventLoop.keyed_init numbered _, fun fd _ => ChannelMap.entry_init fd, ?_⟩
    rfl
  | succ n ih =>
    obtain ⟨p, hrun, hch, hkeyed, hnone, hcount⟩ := ih (by omega)
    have hfd : (p.channels n).fd = n := by rw [hch]; rfl
    obtain ⟨p', hp'⟩ : ∃ p', p.step (.handle ⟨.add, n⟩ (some fun _ => none)) = .ok p' :=
      poll_returns hkeyed (fun htype => absurd rfl htype) fun _ => ⟨by rw [hfd]; omega, rfl⟩
    have hkeyed' := p.keyed_step _ p' hkeyed hp'
    obtain ⟨⟨loop', result⟩, hop, hret⟩ := bind_eq_ok.mp hp'
    cases hret
    refine ⟨⟨p.channels, loop'⟩, ?_, hch, hkeyed', ?_⟩
    · rw [addAll, List.range_succ, List.map_append, List.foldlM_append, ← addAll, hrun, ok_bind,
        List.map_singleton, List.foldlM_cons, hp', ok_bind]
      rfl
    have hfree := hnone n le_rfl
    rcases handlePendingAdd_cases hkeyed.wellFormed hop with
      ⟨-, hfound⟩ | ⟨map', data', r, h0, -, hlt, hext, -, rfl⟩
    · rw [hfd] at hfound
      rcases hfound with hneg | hpresent
      · omega
      · exact absurd hfree hpresent
    change 0 ≤ (p.channels n).fd at h0
    change (p.channels n).fd < _ at hlt
    show (∀ fd, _ → (map'.set (p.channels n).fd _).entry fd = none) ∧
      (map'.set (p.channels n).fd _).registered = _
    rw [hfd] at h0 hlt ⊢
    constructor
    · intro fd hle
      rw [hext.entry_set h0 hlt, if_neg (by push_cast at hle; omega)]
      exact hnone fd (by push_cast at hle; omega)
    · rw [hext.wellFormed.registered_set_some h0 hlt (by rw [hext.entry_eq]; exact hfree),
        hext.registered_eq, hcount]

theorem addAll_disagrees (fill : ℕ → PollFd) {n : ℕ} (hn : initPollSize < n)
    (hmax : n ≤ 134217728) :
    ∃ s, (addAll n).foldlM step (init numbered fill) = .ok s ∧
      ¬ EachStep step (fun _ _ s' => s'.Agrees) (init numbered fill) (addAll n) := by
  obtain ⟨p, hp, -, -, -, hcount⟩ := addAll_run fill n hmax
  obtain ⟨epoll', hrun⟩ := (Follows.init numbered fill).run hp
  refine ⟨_, hrun, ?_⟩
  intro heach
  have hroom := (eachStep_iff inv_step inv_agrees_iff (inv_init numbered fill) hrun).mp heach
  obtain ⟨a, hcoh, -⟩ := foldlM_inv inv_step (inv_init numbered fill) hroom hrun
  have hslots : occupied p.loop.dispatcherData ≤ p.loop.dispatcherData.length :=
    List.countP_le_length
  rw [hcoh.occupied_eq, hcount, hcoh.length_eq] at hslots
  omega

/-- The ADD of the 1025th descriptor returns, and the backends no longer agree. -/
theorem backends_disagree :
    ∃ s, (addAll 1025).foldlM step (init numbered fun _ => ⟨0, 0, 0⟩) = .ok s ∧
      ¬ EachStep step (fun _ _ s' => s'.Agrees) (init numbered fun _ => ⟨0, 0, 0⟩)
        (addAll 1025) :=
  addAll_disagrees _ (by decide) (by omega)

instance (s : TwinRun κ) (event : PollEvent κ) : Decidable (s.Room event) :=
  match event with
  | .handle _ _ => inferInstanceAs (Decidable (_ = _ → _ ≤ _ → _ = _ → _ < _))
  | .setEvents _ _ => .isTrue trivial

theorem backends_agree_iff_three :
    EachStep step (fun _ _ s' => s'.Agrees) (init numbered fun _ => ⟨0, 0, 0⟩) (addAll 3) := by
  obtain ⟨p, hp, -⟩ := addAll_run (fun _ => ⟨0, 0, 0⟩) 3 (by omega)
  obtain ⟨hepoll, hagree, -⟩ := backends_agree_iff numbered (fun _ => ⟨0, 0, 0⟩) (addAll 3)
  obtain ⟨epoll', hrun⟩ := hepoll p hp
  exact (hagree _ hrun).mpr (by decide +kernel)

end TwinRun

end OsProgramming.Reactor
