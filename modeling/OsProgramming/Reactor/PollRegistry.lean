import OsProgramming.Library.Runs
import OsProgramming.Reactor.PollDispatcher

/-! Coherence of a loop with the poll dispatcher. What the loop watches is, for each
descriptor, a channel and the events that it had when the operation took effect; the
channel map and the slots are two tables of that. -/

namespace OsProgramming.Reactor

open Library

variable {κ : Type}

/-- The memory of the channels and the loop. -/
structure PollRun (κ : Type) where
  channels : κ → Channel
  loop : EventLoop κ (List PollFd)

inductive PollEvent (κ : Type) where
  /-- an operation of the queue is handled -/
  | handle (op : PendingOp κ) (answer : Alloc (Option κ))
  /-- the events of a channel change; its descriptor never does -/
  | setEvents (channel : κ) (events : Events)

/-- The loop as `event_loop_init` leaves it, before the first operation. -/
def PollRun.init (channels : κ → Channel) (fill : ℕ → PollFd) : PollRun κ :=
  ⟨channels, channelMapInit, pollInit fill⟩

def PollRun.step [DecidableEq κ] (s : PollRun κ) : PollEvent κ → Result (PollRun κ)
  | .handle op answer => do
    let (loop, _) ← handlePending pollEventDispatcher s.channels s.loop op answer
    .ok { s with loop }
  | .setEvents channel events => .ok { s with channels := setEvents s.channels channel events }

/-- The abstract loop: for each descriptor, the channel registered and the events of
the last effective ADD or UPDATE. -/
structure Watch (κ : Type) where
  channels : κ → Channel
  watched : ℤ → Option (κ × Events)

def Watch.put (a : Watch κ) (fd : ℤ) (entry : Option (κ × Events)) : Watch κ :=
  { a with watched := Function.update a.watched fd entry }

@[simp] theorem Watch.put_self (a : Watch κ) (fd : ℤ) (entry : Option (κ × Events)) :
    (a.put fd entry).watched fd = entry := by
  simp [Watch.put]

theorem Watch.put_of_ne (a : Watch κ) {fd fd' : ℤ} (entry : Option (κ × Events)) (h : fd' ≠ fd) :
    (a.put fd entry).watched fd' = a.watched fd' := by
  simp [Watch.put, h]

theorem Watch.put_watched (a : Watch κ) (fd : ℤ) : a.put fd (a.watched fd) = a := by
  simp [Watch.put]

def Watch.handle (a : Watch κ) (op : PendingOp κ) : Watch κ :=
  let channel := a.channels op.channel
  match op.type, a.watched channel.fd with
  | .add, none =>
    if 0 ≤ channel.fd then a.put channel.fd (some (op.channel, channel.events)) else a
  | .add, some _ => a
  | .delete, _ => a.put channel.fd none
  | .update, none => a
  | .update, some (c, _) => a.put channel.fd (some (c, channel.events))

def Watch.step [DecidableEq κ] (a : Watch κ) : PollEvent κ → Watch κ
  | .handle op _ => a.handle op
  | .setEvents channel events => { a with channels := setEvents a.channels channel events }

/-- The translation of the events of a channel. -/
def pollTranslation (events : Events) : BitVec 16 :=
  (if events &&& eventRead = 0 then 0 else pollRdNorm) |||
    (if events &&& eventWrite = 0 then 0 else pollWrNorm)

theorem pollInterest_eq (channel : Channel) :
    pollInterest channel = pollTranslation channel.events := by
  unfold pollInterest pollTranslation channelEventIsReadable channelEventIsWriteable
  split_ifs <;> simp_all

/-- The masks that the slots of a descriptor should have. -/
def masks : Option (κ × Events) → List (BitVec 16)
  | none => []
  | some (_, events) => [pollTranslation events]

/-- Both tables agree with what is watched, and with each other on how many
descriptors there are. -/
structure PollRun.Coherent (s : PollRun κ) (a : Watch κ) : Prop where
  channels_eq : s.channels = a.channels
  wellFormed : s.loop.channelMap.WellFormed
  entry_eq : ∀ fd, s.loop.channelMap.entry fd = (a.watched fd).map Prod.fst
  channel_fd : ∀ fd c, s.loop.channelMap.entry fd = some c → (s.channels c).fd = fd
  slots_eq : ∀ fd, 0 ≤ fd → slotsOf s.loop.dispatcherData fd = masks (a.watched fd)
  occupied_eq : occupied s.loop.dispatcherData = s.loop.channelMap.registered
  length_eq : s.loop.dispatcherData.length = initPollSize

/-! ### One event -/

/-- An ADD that takes effect finds a free slot; UPDATE and DELETE keep below the
length of the map. -/
def PollEvent.Admitted (s : PollRun κ) : PollEvent κ → Prop
  | .handle op _ =>
    match op.type with
    | .add => 0 ≤ (s.channels op.channel).fd →
        s.loop.channelMap.entry (s.channels op.channel).fd = none →
        s.loop.channelMap.registered < initPollSize
    | .delete => (s.channels op.channel).fd < s.loop.channelMap.length
    | .update => (s.channels op.channel).fd < s.loop.channelMap.length
  | .setEvents _ _ => True

instance [DecidableEq κ] (s : PollRun κ) : DecidablePred (PollEvent.Admitted s)
  | .handle ⟨.add, channel⟩ _ => inferInstanceAs (Decidable (0 ≤ (s.channels channel).fd →
      s.loop.channelMap.entry (s.channels channel).fd = none →
      s.loop.channelMap.registered < initPollSize))
  | .handle ⟨.delete, channel⟩ _ | .handle ⟨.update, channel⟩ _ =>
    inferInstanceAs (Decidable ((s.channels channel).fd < s.loop.channelMap.length))
  | .setEvents _ _ => inferInstanceAs (Decidable True)

/-- The operation is for a negative descriptor, adds one that is there, or changes one
that is not. -/
def PollRun.Rejects (s : PollRun κ) (op : PendingOp κ) : Prop :=
  (s.channels op.channel).fd < 0 ∨
    match op.type with
    | .add => s.loop.channelMap.entry (s.channels op.channel).fd ≠ none
    | .delete => s.loop.channelMap.entry (s.channels op.channel).fd = none
    | .update => s.loop.channelMap.entry (s.channels op.channel).fd = none

/-- The channel map has, or gets, a cell for an ADD that takes effect. -/
def PollEvent.HasSpace (s : PollRun κ) : PollEvent κ → Prop
  | .handle op answer => op.type = .add → 0 ≤ (s.channels op.channel).fd →
      ∃ map', channelMapMakeSpace s.loop.channelMap (s.channels op.channel).fd channelPointerSize
          answer = .ok (map', true) ∧
        (s.channels op.channel).fd < map'.length ∧ map'.Extends s.loop.channelMap
  | .setEvents _ _ => True

variable {s : PollRun κ} {a : Watch κ}

theorem PollRun.Coherent.watched_of_neg (h : s.Coherent a) {fd : ℤ} (hneg : fd < 0) :
    a.watched fd = none := by
  rw [← Option.map_eq_none_iff, ← h.entry_eq, ChannelMap.entry, if_neg (by omega)]

theorem PollRun.Coherent.entry_none (h : s.Coherent a) {fd : ℤ} :
    s.loop.channelMap.entry fd = none ↔ a.watched fd = none := by
  rw [h.entry_eq, Option.map_eq_none_iff]

/-- The entries after a change at one descriptor. -/
theorem PollRun.Coherent.entry_put (h : s.Coherent a) {fd : ℤ} {entry : Option (κ × Events)}
    {map' : ChannelMap κ} (hentry : ∀ fd', map'.entry fd' =
      if fd' = fd then entry.map Prod.fst else s.loop.channelMap.entry fd') (fd' : ℤ) :
    map'.entry fd' = ((a.put fd entry).watched fd').map Prod.fst := by
  rw [hentry]
  by_cases heq : fd' = fd
  · rw [if_pos heq, heq, a.put_self]
  · rw [if_neg heq, a.put_of_ne _ heq, h.entry_eq]

/-- The slots after a change at one descriptor. -/
theorem PollRun.Coherent.slots_put (h : s.Coherent a) {fd : ℤ} {entry : Option (κ × Events)}
    {data' : List PollFd} (hslots : ∀ fd', 0 ≤ fd' → slotsOf data' fd' =
      if fd' = fd then masks entry else slotsOf s.loop.dispatcherData fd') (fd' : ℤ)
    (h0 : 0 ≤ fd') : slotsOf data' fd' = masks ((a.put fd entry).watched fd') := by
  rw [hslots fd' h0]
  by_cases heq : fd' = fd
  · rw [if_pos heq, heq, a.put_self]
  · rw [if_neg heq, a.put_of_ne _ heq, h.slots_eq fd' h0]

/-- A new entry and a new slot. -/
theorem PollRun.Coherent.register (h : s.Coherent a) {channel : κ} {map' : ChannelMap κ}
    {data' : List PollFd} (h0 : 0 ≤ (s.channels channel).fd)
    (hnone : a.watched (s.channels channel).fd = none)
    (hlt : (s.channels channel).fd < map'.length) (hext : map'.Extends s.loop.channelMap)
    (hlen : data'.length = s.loop.dispatcherData.length)
    (hocc : occupied data' = occupied s.loop.dispatcherData + 1)
    (hslots : ∀ fd, 0 ≤ fd → slotsOf data' fd =
      if fd = (s.channels channel).fd then [pollInterest (s.channels channel)]
      else slotsOf s.loop.dispatcherData fd) :
    PollRun.Coherent ⟨s.channels, map'.set (s.channels channel).fd (some channel), data'⟩
      (a.put (s.channels channel).fd (some (channel, (s.channels channel).events))) := by
  have hentry := hext.entry_set h0 hlt (some channel)
  refine ⟨h.channels_eq, hext.wellFormed.set _ _, h.entry_put hentry, ?_, h.slots_put ?_, ?_,
    hlen.trans h.length_eq⟩
  · intro fd c hc
    change (map'.set _ _).entry fd = some c at hc
    rw [hentry] at hc
    split_ifs at hc with heq
    · cases hc
      exact heq.symm
    · exact h.channel_fd fd c hc
  · intro fd hfd
    rw [hslots fd hfd, pollInterest_eq]
    rfl
  · show occupied data' = (map'.set _ _).registered
    rw [hocc, h.occupied_eq, hext.wellFormed.registered_set_some h0 hlt
      (by rw [hext.entry_eq, h.entry_none]; exact hnone), hext.registered_eq]

/-- The entry and the slot of a descriptor go together. -/
theorem PollRun.Coherent.unregister (h : s.Coherent a) {fd : ℤ} {c : κ} {data' : List PollFd}
    (hentry : s.loop.channelMap.entry fd = some c)
    (hlen : data'.length = s.loop.dispatcherData.length)
    (hocc : occupied data' + 1 = occupied s.loop.dispatcherData)
    (hslots : ∀ fd', 0 ≤ fd' → slotsOf data' fd' =
      if fd' = fd then [] else slotsOf s.loop.dispatcherData fd') :
    PollRun.Coherent ⟨s.channels, s.loop.channelMap.set fd none, data'⟩ (a.put fd none) := by
  obtain ⟨h0, hlt⟩ := h.wellFormed.lt_of_entry hentry
  have hset := h.wellFormed.entry_set h0 hlt none
  refine ⟨h.channels_eq, h.wellFormed.set _ _, h.entry_put hset, ?_, h.slots_put hslots, ?_,
    hlen.trans h.length_eq⟩
  · intro fd' c' hc
    change (s.loop.channelMap.set _ _).entry fd' = some c' at hc
    rw [hset] at hc
    split_ifs at hc
    exact h.channel_fd fd' c' hc
  · show occupied data' = (s.loop.channelMap.set _ _).registered
    have hcount := h.wellFormed.registered_set_none hentry
    have hocc₀ := h.occupied_eq
    omega

/-- A new mask in the slot of an entry. -/
theorem PollRun.Coherent.rewatch (h : s.Coherent a) {channel c : κ} {data' : List PollFd}
    (hentry : s.loop.channelMap.entry (s.channels channel).fd = some c)
    (hlen : data'.length = s.loop.dispatcherData.length)
    (hocc : occupied data' = occupied s.loop.dispatcherData)
    (hslots : ∀ fd, slotsOf data' fd =
      if fd = (s.channels channel).fd then [pollInterest (s.channels channel)]
      else slotsOf s.loop.dispatcherData fd) :
    PollRun.Coherent ⟨s.channels, s.loop.channelMap, data'⟩
      (a.put (s.channels channel).fd (some (c, (s.channels channel).events))) := by
  refine ⟨h.channels_eq, h.wellFormed, h.entry_put ?_, h.channel_fd, h.slots_put ?_,
    hocc.trans h.occupied_eq, hlen.trans h.length_eq⟩
  · intro fd
    split_ifs with heq
    · rw [heq]
      exact hentry
    · rfl
  · intro fd _
    rw [hslots fd, pollInterest_eq]
    rfl

theorem PollRun.Coherent.init (channels : κ → Channel) (fill : ℕ → PollFd) :
    (PollRun.init channels fill).Coherent ⟨channels, fun _ => none⟩ := by
  obtain ⟨hlen, hocc, hslots⟩ := pollInit_spec fill
  unfold PollRun.init
  -- the array is only known by its specification
  generalize pollInit fill = data at hlen hocc hslots ⊢
  refine ⟨rfl, ChannelMap.wellFormed_init, ChannelMap.entry_init, ?_, hslots, hocc,
    hlen⟩
  intro fd c hc
  rw [show (channelMapInit : ChannelMap κ).entry fd = none from ChannelMap.entry_init fd] at hc
  cases hc

/-- The channel that `event_loop_active` finds has the descriptor it was looked up by. -/
theorem PollRun.Coherent.no_mismatch (h : s.Coherent a) (fd : ℤ) :
    registeredChannel s.channels s.loop fd ≠ .error .exitFailure := by
  have hlen := h.wellFormed.length_eq
  unfold registeredChannel
  split_ifs with h0 hbeyond
  · nofun
  · nofun
  rcases (not_lt.mp hbeyond).lt_or_eq with hlt | heq
  · rw [h.wellFormed.load (by omega) hlt, ok_bind]
    cases hentry : s.loop.channelMap.entry fd with
    | none => nofun
    | some c =>
      have hfd := h.channel_fd fd c hentry
      simp [hfd]
  · rw [heq, hlen, load_of_length_le le_rfl, error_bind]
    nofun

/-- An ADD that takes effect is for a descriptor below `2 ^ 27`, and the allocator
serves it. -/
def PollEvent.Served (s : PollRun κ) : PollEvent κ → Prop
  | .handle op answer => op.type = .add → (s.channels op.channel).fd < 134217728 ∧ answer.isSome
  | .setEvents _ _ => True

instance (s : PollRun κ) : DecidablePred (PollEvent.Served s)
  | .handle op answer => inferInstanceAs
      (Decidable (op.type = .add → (s.channels op.channel).fd < 134217728 ∧ answer.isSome))
  | .setEvents _ _ => inferInstanceAs (Decidable True)

theorem PollRun.Coherent.hasSpace_of_served (h : s.Coherent a) {event : PollEvent κ}
    (hserved : event.Served s) : event.HasSpace s := by
  cases event with
  | handle op answer =>
    intro htype h0
    obtain ⟨hfd, hanswer⟩ := hserved htype
    obtain ⟨fill, rfl⟩ := Option.isSome_iff_exists.mp hanswer
    exact makeSpace_ok fill h.wellFormed h0 hfd
  | setEvents channel events => trivial

variable [DecidableEq κ]

theorem PollRun.Coherent.add (h : s.Coherent a) (channel : κ) (answer : Alloc (Option κ))
    (hadm : PollEvent.Admitted s (.handle ⟨.add, channel⟩ answer))
    (hspace : PollEvent.HasSpace s (.handle ⟨.add, channel⟩ answer)) :
    ∃ s', s.step (.handle ⟨.add, channel⟩ answer) = .ok s' ∧
      s'.Coherent (a.step (.handle ⟨.add, channel⟩ answer)) := by
  have hch := congrFun h.channels_eq channel
  rcases lt_or_ge (s.channels channel).fd 0 with hneg | h0
  · -- a negative descriptor is refused
    refine ⟨s, ?_, ?_⟩
    · simp only [PollRun.step, handlePending, eventLoopHandlePendingAdd, hneg, ↓reduceIte, ok_bind]
    · have hkept : a.step (.handle ⟨.add, channel⟩ answer) = a := by
        simp [Watch.step, Watch.handle, ← hch, h.watched_of_neg hneg, not_le.mpr hneg]
      rw [hkept]
      exact h
  cases hw : a.watched (s.channels channel).fd with
  | some entry =>
    -- the descriptor is there already
    have hentry : s.loop.channelMap.entry (s.channels channel).fd = some entry.1 := by
      rw [h.entry_eq, hw]; rfl
    refine ⟨s, ?_, ?_⟩
    · simp only [PollRun.step, handlePending, handlePendingAdd_present answer h.wellFormed hentry,
        ok_bind]
    · have hkept : a.step (.handle ⟨.add, channel⟩ answer) = a := by
        simp [Watch.step, Watch.handle, ← hch, hw]
      rw [hkept]
      exact h
  | none =>
    obtain ⟨map', hmake, hlt, hext⟩ := hspace rfl h0
    have hnone := h.entry_none.mpr hw
    obtain ⟨data', hadd, hlen, hocc, hslots⟩ := pollAdd_spec (s.channels channel) h0
      (by rw [h.occupied_eq, h.length_eq]; exact hadm h0 hnone)
      (by rw [h.slots_eq _ h0, hw]; rfl)
    refine ⟨⟨s.channels, map'.set (s.channels channel).fd (some channel), data'⟩, ?_, ?_⟩
    · simp only [PollRun.step, handlePending,
        handlePendingAdd_absent pollEventDispatcher s.channels channel h0 hmake hlt hext hnone]
      rw [show pollEventDispatcher.add = pollAdd from rfl, hadd]
      rfl
    · have hstep : a.step (.handle ⟨.add, channel⟩ answer) =
          a.put (s.channels channel).fd (some (channel, (s.channels channel).events)) := by
        simp [Watch.step, Watch.handle, ← hch, hw, h0]
      rw [hstep]
      exact h.register h0 hw hlt hext hlen hocc hslots

theorem PollRun.Coherent.delete (h : s.Coherent a) (channel : κ) (answer : Alloc (Option κ))
    (hadm : PollEvent.Admitted s (.handle ⟨.delete, channel⟩ answer)) :
    ∃ s', s.step (.handle ⟨.delete, channel⟩ answer) = .ok s' ∧
      s'.Coherent (a.step (.handle ⟨.delete, channel⟩ answer)) := by
  have hch := congrFun h.channels_eq channel
  have hstep : a.step (.handle ⟨.delete, channel⟩ answer) = a.put (s.channels channel).fd none := by
    simp [Watch.step, Watch.handle, ← hch]
  rw [hstep]
  cases hentry : s.loop.channelMap.entry (s.channels channel).fd with
  | none =>
    obtain ⟨result, hret⟩ := handlePendingRemove_absent pollEventDispatcher s.channels
      h.wellFormed (ne_of_lt hadm) hentry
    refine ⟨s, by simp only [PollRun.step, handlePending, hret, ok_bind], ?_⟩
    rw [← h.entry_none.mp hentry, a.put_watched]
    exact h
  | some c =>
    have hfd := h.channel_fd _ c hentry
    obtain ⟨h0, -⟩ := h.wellFormed.lt_of_entry hentry
    obtain ⟨events, hw⟩ : ∃ events, a.watched (s.channels channel).fd = some (c, events) := by
      obtain ⟨⟨c', events⟩, hw, rfl⟩ := Option.map_eq_some_iff.mp (h.entry_eq _ ▸ hentry)
      exact ⟨events, hw⟩
    obtain ⟨data', hdelete, hlen, hocc, hslots⟩ := pollDelete_spec (s.channels c)
      (pollTranslation events) (by rw [hfd]; exact h0)
      (by rw [hfd, h.slots_eq _ h0, hw]; rfl)
    rw [hfd] at hslots
    refine ⟨⟨s.channels, s.loop.channelMap.set (s.channels channel).fd none, data'⟩, ?_,
      h.unregister hentry hlen hocc hslots⟩
    simp only [PollRun.step, handlePending, handlePendingRemove_present h.wellFormed hentry]
    rw [show pollEventDispatcher.delete = pollDelete from rfl, hdelete]
    rfl

theorem PollRun.Coherent.update (h : s.Coherent a) (channel : κ) (answer : Alloc (Option κ))
    (hadm : PollEvent.Admitted s (.handle ⟨.update, channel⟩ answer)) :
    ∃ s', s.step (.handle ⟨.update, channel⟩ answer) = .ok s' ∧
      s'.Coherent (a.step (.handle ⟨.update, channel⟩ answer)) := by
  have hch := congrFun h.channels_eq channel
  cases hw : a.watched (s.channels channel).fd with
  | none =>
    obtain ⟨result, hret⟩ := handlePendingUpdate_absent pollEventDispatcher s.channels
      channel h.wellFormed (ne_of_lt hadm) (h.entry_none.mpr hw)
    have hkept : a.step (.handle ⟨.update, channel⟩ answer) = a := by
      simp [Watch.step, Watch.handle, ← hch, hw]
    rw [hkept]
    exact ⟨s, by simp only [PollRun.step, handlePending, hret, ok_bind], h⟩
  | some entry =>
    obtain ⟨c, events⟩ := entry
    have hentry : s.loop.channelMap.entry (s.channels channel).fd = some c := by
      rw [h.entry_eq, hw]; rfl
    have h0 := (h.wellFormed.lt_of_entry hentry).1
    obtain ⟨data', hupdate, hlen, hocc, hslots⟩ := pollUpdate_spec (s.channels channel)
      (pollTranslation events) (by rw [h.slots_eq _ h0, hw]; rfl)
    have hstep : a.step (.handle ⟨.update, channel⟩ answer) =
        a.put (s.channels channel).fd (some (c, (s.channels channel).events)) := by
      simp [Watch.step, Watch.handle, ← hch, hw]
    rw [hstep]
    refine ⟨⟨s.channels, s.loop.channelMap, data'⟩, ?_, h.rewatch hentry hlen hocc hslots⟩
    simp only [PollRun.step, handlePending, handlePendingUpdate_present h.wellFormed hentry]
    rw [show pollEventDispatcher.update = pollUpdate from rfl, hupdate]
    rfl

theorem PollRun.Coherent.step (h : s.Coherent a) (event : PollEvent κ) (hadm : event.Admitted s)
    (hspace : event.HasSpace s) : ∃ s', s.step event = .ok s' ∧ s'.Coherent (a.step event) := by
  cases event with
  | handle op answer =>
    obtain ⟨type, channel⟩ := op
    cases type with
    | add => exact h.add channel answer hadm hspace
    | delete => exact h.delete channel answer hadm
    | update => exact h.update channel answer hadm
  | setEvents channel events =>
    refine ⟨_, rfl, congrArg (setEvents · channel events) h.channels_eq, h.wellFormed, h.entry_eq,
      ?_, h.slots_eq, h.occupied_eq, h.length_eq⟩
    intro fd c hc
    rw [← h.channel_fd fd c hc]
    exact setEvents_fd s.channels channel events c

theorem PollRun.Coherent.hasSpace_of_returns (h : s.Coherent a) {event : PollEvent κ}
    {s' : PollRun κ} (hret : s.step event = .ok s') : event.HasSpace s := by
  cases event with
  | handle op answer =>
    intro htype h0
    obtain ⟨r, hr, -⟩ := bind_eq_ok.mp hret
    simp only [handlePending, htype] at hr
    exact handlePendingAdd_space h.wellFormed h0 hr
  | setEvents channel events => trivial

theorem PollRun.step_follows (s : PollRun κ) (a : Watch κ) (event : PollEvent κ) (s' : PollRun κ)
    (h : s.Coherent a) (hadm : event.Admitted s) (hret : s.step event = .ok s') :
    s'.Coherent (a.step event) := by
  obtain ⟨s'', hs'', hcoh⟩ := h.step event hadm (h.hasSpace_of_returns hret)
  obtain rfl := Except.ok.inj (hret.symm.trans hs'')
  exact hcoh

theorem PollRun.step_served (s : PollRun κ) (a : Watch κ) (event : PollEvent κ) (h : s.Coherent a)
    (hadm : event.Admitted s ∧ event.Served s) :
    ∃ s', s.step event = .ok s' ∧ s'.Coherent (a.step event) :=
  h.step event hadm.1 (h.hasSpace_of_served hadm.2)

theorem PollRun.Coherent.rejected (h : s.Coherent a) {op : PendingOp κ} {answer : Alloc (Option κ)}
    (hadm : PollEvent.Admitted s (.handle op answer)) (hrej : s.Rejects op) :
    s.step (.handle op answer) = .ok s := by
  obtain ⟨type, channel⟩ := op
  have hneg : (s.channels channel).fd < 0 →
      s.loop.channelMap.entry (s.channels channel).fd = none :=
    fun hlt => h.entry_none.mpr (h.watched_of_neg hlt)
  cases type with
  | add =>
    rcases hrej with hlt | hpresent
    · simp only [PollRun.step, handlePending, eventLoopHandlePendingAdd, hlt, ↓reduceIte, ok_bind]
    · obtain ⟨c, hc⟩ := Option.ne_none_iff_exists'.mp hpresent
      simp only [PollRun.step, handlePending, handlePendingAdd_present answer h.wellFormed hc,
        ok_bind]
  | delete =>
    obtain ⟨result, hret⟩ := handlePendingRemove_absent pollEventDispatcher s.channels
      h.wellFormed (ne_of_lt hadm) (hrej.elim hneg id)
    simp only [PollRun.step, handlePending, hret, ok_bind]
  | update =>
    obtain ⟨result, hret⟩ := handlePendingUpdate_absent pollEventDispatcher s.channels
      channel h.wellFormed (ne_of_lt hadm) (hrej.elim hneg id)
    simp only [PollRun.step, handlePending, hret, ok_bind]

/-- Over every run of operations and changes of events that returns, the channel map
and the slots hold what the effective operations make of them, no lookup finds a
channel with another descriptor, and what is rejected changes nothing; and a run
returns if the allocator serves it, for descriptors below `2 ^ 27`. -/
theorem poll_registry_coherent {channels : κ → Channel} {fill : ℕ → PollFd}
    {events : List (PollEvent κ)}
    (hadm : Admissible PollRun.step (fun s event => event.Admitted s) (.init channels fill)
      events) :
    (∀ s, events.foldlM PollRun.step (.init channels fill) = .ok s →
      s.Coherent (events.foldl Watch.step ⟨channels, fun _ => none⟩) ∧
      (∀ fd, registeredChannel s.channels s.loop fd ≠ .error .exitFailure) ∧
      ∀ op answer, PollEvent.Admitted s (.handle op answer) → s.Rejects op →
        s.step (.handle op answer) = .ok s) ∧
    (Admissible PollRun.step (fun s event => event.Admitted s ∧ event.Served s)
        (.init channels fill) events →
      ∃ s, events.foldlM PollRun.step (.init channels fill) = .ok s) := by
  constructor
  · intro s hrun
    have hcoh := foldlM_follows PollRun.step_follows (.init channels fill) hadm hrun
    exact ⟨hcoh, hcoh.no_mismatch, fun op answer hadm hrej => hcoh.rejected hadm hrej⟩
  · intro hserved
    obtain ⟨s, hs, -⟩ := foldlM_simulates PollRun.step_served (.init channels fill) hserved
    exact ⟨s, hs⟩

/-- Two channels that ask for reads, with descriptors 5 and 40. -/
def twoReaders (second : Bool) : Channel :=
  channelNew (if second then 40 else 5) eventRead none none .tcpServer

/-- Both are added, which makes the map grow twice; the first changes its events, is added again in
vain and is updated, and the second goes. -/
def updateAndDelete : List (PollEvent Bool) :=
  [.handle ⟨.add, false⟩ (some fun _ => none), .handle ⟨.add, true⟩ (some fun _ => none),
    .setEvents false eventWrite, .handle ⟨.add, false⟩ (some fun _ => none),
    .handle ⟨.update, false⟩ none, .handle ⟨.delete, true⟩ none]

theorem poll_registry_coherent_update :
    ∃ s, updateAndDelete.foldlM PollRun.step (.init twoReaders fun _ => ⟨0, 0, 0⟩) = .ok s ∧
      s.loop.channelMap.entry 5 = some false ∧ slotsOf s.loop.dispatcherData 5 = [pollWrNorm] ∧
      s.loop.channelMap.entry 40 = none ∧ slotsOf s.loop.dispatcherData 40 = [] ∧
      s.step (.handle ⟨.add, false⟩ none) = .ok s := by
  have hadm : Admissible PollRun.step (fun s event => event.Admitted s)
      (.init twoReaders fun _ => ⟨0, 0, 0⟩) updateAndDelete := by
    decide +kernel
  have hadm' : Admissible PollRun.step (fun s event => event.Admitted s ∧ event.Served s)
      (.init twoReaders fun _ => ⟨0, 0, 0⟩) updateAndDelete := by
    decide +kernel
  obtain ⟨hret, hserved⟩ := poll_registry_coherent hadm
  obtain ⟨s, hs⟩ := hserved hadm'
  obtain ⟨hcoh, -, hrejected⟩ := hret s hs
  have hfirst : (s.channels false).fd = 5 := by
    rw [hcoh.channels_eq]
    rfl
  have hentry : s.loop.channelMap.entry 5 = some false := hcoh.entry_eq 5
  have hthere : s.loop.channelMap.entry (s.channels false).fd ≠ none := by
    rw [hfirst, hentry]
    nofun
  exact ⟨s, hs, hentry, hcoh.slots_eq 5 (by omega), hcoh.entry_eq 40, hcoh.slots_eq 40 (by omega),
    hrejected ⟨.add, false⟩ none (fun _ hnone => absurd hnone hthere) (.inr hthere)⟩

end OsProgramming.Reactor
