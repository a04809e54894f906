import OsProgramming.Reactor.EpollRegistry
import OsProgramming.Reactor.PollRegistry

/-! Operations of stale channels. The queue holds channels, and the loop looks them up
by their descriptors, which other channels have by the time. -/

namespace OsProgramming.Reactor

open Library

variable {κ δ : Type}

/-- The channels in the map have the descriptors they are found by. -/
structure EventLoop.Keyed (loop : EventLoop κ δ) (channels : κ → Channel) : Prop where
  wellFormed : loop.channelMap.WellFormed
  channel_fd : ∀ fd c, loop.channelMap.entry fd = some c → (channels c).fd = fd

/-- An UPDATE or DELETE leaves the entry and the interest of its descriptor as they are,
unless the channel that it is for is registered there. -/
def PendingOp.Respects {ι : Type} (op : PendingOp κ) (entry entry' : Option κ)
    (interest interest' : ι) : Prop :=
  op.type ≠ .add → entry ≠ some op.channel → entry' = entry ∧ interest' = interest

/-- The descriptor of an UPDATE or DELETE is not registered, or is registered for the
channel, or the UPDATE asks for the interest that is there. -/
def PendingOp.Unopposed (op : PendingOp κ) (entry : Option κ) (asked : Prop) : Prop :=
  op.type ≠ .add → entry = none ∨ entry = some op.channel ∨ op.type = .update ∧ asked

section

variable {dispatcher : EventDispatcher δ} {channels : κ → Channel} {loop loop' : EventLoop κ δ}
  {op : PendingOp κ} {answer : Alloc (Option κ)} {result : ℤ}

theorem EventLoop.Keyed.keeps (h : loop.Keyed channels)
    (hret : handlePending dispatcher channels loop op answer = .ok (loop', result)) :
    loop'.Keyed channels := by
  obtain ⟨type, channel⟩ := op
  cases type with
  | add =>
    rcases handlePendingAdd_cases h.wellFormed hret with
      ⟨rfl, -⟩ | ⟨map', data', r, h0, -, hlt, hext, -, rfl⟩
    · exact h
    refine ⟨hext.wellFormed.set _ _, ?_⟩
    intro fd c hc
    rw [hext.entry_set h0 hlt] at hc
    split_ifs at hc with heq
    · cases hc
      exact heq.symm
    · exact h.channel_fd fd c hc
  | delete =>
    rcases handlePendingRemove_cases h.wellFormed hret with
      ⟨rfl, -⟩ | ⟨c, data', hentry, -, rfl⟩
    · exact h
    obtain ⟨h0, hlt⟩ := h.wellFormed.lt_of_entry hentry
    refine ⟨h.wellFormed.set _ _, ?_⟩
    intro fd c' hc
    rw [h.wellFormed.entry_set h0 hlt] at hc
    split_ifs at hc
    exact h.channel_fd fd c' hc
  | update =>
    rcases handlePendingUpdate_cases h.wellFormed hret with rfl | ⟨c, data', -, -, rfl⟩
    · exact h
    · exact ⟨h.wellFormed, h.channel_fd⟩

/-- What an operation does to the entry and the interest of its own descriptor, for a
dispatcher whose update sets the interest of a descriptor. -/
theorem EventLoop.Keyed.respects_iff {ι : Type} (interest : δ → ℤ → ι) {asked : Prop}
    (h : loop.Keyed channels)
    (hret : handlePending dispatcher channels loop op answer = .ok (loop', result))
    (hupdate : ∀ data' r,
      dispatcher.update loop.dispatcherData (channels op.channel) = .ok (data', r) →
      (interest data' (channels op.channel).fd =
        interest loop.dispatcherData (channels op.channel).fd ↔ asked)) :
    op.Respects (loop.channelMap.entry (channels op.channel).fd)
        (loop'.channelMap.entry (channels op.channel).fd)
        (interest loop.dispatcherData (channels op.channel).fd)
        (interest loop'.dispatcherData (channels op.channel).fd) ↔
      op.Unopposed (loop.channelMap.entry (channels op.channel).fd) asked := by
  obtain ⟨type, channel⟩ := op
  cases type with
  | add => exact iff_of_true (fun hadd => absurd rfl hadd) fun hadd => absurd rfl hadd
  | delete =>
    rcases handlePendingRemove_cases h.wellFormed hret with
      ⟨rfl, hnone⟩ | ⟨c, data', hentry, -, rfl⟩
    · exact iff_of_true (fun _ _ => ⟨rfl, rfl⟩) fun _ => .inl hnone
    obtain ⟨h0, hlt⟩ := h.wellFormed.lt_of_entry hentry
    have hcleared := h.wellFormed.entry_set h0 hlt none (channels channel).fd
    rw [if_pos rfl] at hcleared
    simp [PendingOp.Respects, PendingOp.Unopposed, hentry, hcleared]
  | update =>
    cases hentry : loop.channelMap.entry (channels channel).fd with
    | none =>
      rcases handlePendingUpdate_cases h.wellFormed hret with rfl | ⟨c, data', hc, -, -⟩
      · exact iff_of_true (fun _ _ => ⟨hentry, rfl⟩) fun _ => .inl rfl
      · rw [hentry] at hc
        cases hc
    | some c =>
      change eventLoopHandlePendingUpdate _ _ _ _ _ = _ at hret
      rw [handlePendingUpdate_present h.wellFormed hentry] at hret
      obtain ⟨⟨data', r⟩, hdata, hret⟩ := bind_eq_ok.mp hret
      cases hret
      have hasked := hupdate data' r hdata
      by_cases hself : c = channel
      · subst hself
        exact iff_of_true (fun _ hne => absurd rfl hne) fun _ => .inr (.inl rfl)
      · simp [PendingOp.Respects, PendingOp.Unopposed, hentry, hself, hasked]

end

/-! ### The two dispatchers -/

/-- One event of a loop with the poll dispatcher respects what it is not for. -/
def PollRun.Respects (s : PollRun κ) (event : PollEvent κ) (s' : PollRun κ) : Prop :=
  match event with
  | .handle op _ =>
    op.Respects (s.loop.channelMap.entry (s.channels op.channel).fd)
      (s'.loop.channelMap.entry (s.channels op.channel).fd)
      (slotsOf s.loop.dispatcherData (s.channels op.channel).fd)
      (slotsOf s'.loop.dispatcherData (s.channels op.channel).fd)
  | .setEvents _ _ => True

/-- The interest asked for is that of the slot which `poll_update` finds. -/
def PollRun.Unopposed (s : PollRun κ) : PollEvent κ → Prop
  | .handle op _ => op.Unopposed (s.loop.channelMap.entry (s.channels op.channel).fd)
      (∀ mask ∈ (slotsOf s.loop.dispatcherData (s.channels op.channel).fd).head?,
        mask = pollInterest (s.channels op.channel))
  | .setEvents _ _ => True

def EpollRun.Respects (s : EpollRun κ) (event : EpollRunEvent κ) (s' : EpollRun κ) : Prop :=
  match event with
  | .handle op _ =>
    op.Respects (s.loop.channelMap.entry (s.channels op.channel).fd)
      (s'.loop.channelMap.entry (s.channels op.channel).fd)
      (s.loop.dispatcherData (s.channels op.channel).fd)
      (s'.loop.dispatcherData (s.channels op.channel).fd)
  | _ => True

def EpollRun.Unopposed (s : EpollRun κ) : EpollRunEvent κ → Prop
  | .handle op _ => op.Unopposed (s.loop.channelMap.entry (s.channels op.channel).fd)
      (s.loop.dispatcherData (s.channels op.channel).fd =
        some (epollInterest (s.channels op.channel)))
  | _ => True

theorem modifyHead_eq_self {α : Type*} (xs : List α) (y : α) :
    (xs.modifyHead fun _ => y) = xs ↔ ∀ x ∈ xs.head?, x = y := by
  cases xs with
  | nil => simp
  | cons x xs => simp [eq_comm]

theorem EventLoop.Keyed.setEvents [DecidableEq κ] {loop : EventLoop κ δ} {channels : κ → Channel}
    (h : loop.Keyed channels) (channel : κ) (events : Events) :
    loop.Keyed (setEvents channels channel events) :=
  ⟨h.wellFormed, fun fd c hc =>
    (setEvents_fd channels channel events c).trans (h.channel_fd fd c hc)⟩

theorem EventLoop.keyed_init (channels : κ → Channel) (data : δ) :
    (⟨channelMapInit, data⟩ : EventLoop κ δ).Keyed channels := by
  refine ⟨ChannelMap.wellFormed_init, ?_⟩
  intro fd c hc
  rw [show (channelMapInit : ChannelMap κ).entry fd = none from ChannelMap.entry_init fd] at hc
  cases hc

theorem EpollRun.keyed_dispatchNext {s s' : EpollRun κ} (h : s.loop.Keyed s.channels)
    (hret : s.dispatchNext = .ok s') : s'.loop.Keyed s'.channels := by
  unfold EpollRun.dispatchNext at hret
  split at hret
  · cases hret
    exact h
  split_ifs at hret
  · cases hret
    exact ⟨h.wellFormed, h.channel_fd⟩
  · obtain ⟨_, -, hret⟩ := bind_eq_ok.mp hret
    cases hret
    exact h
  · obtain ⟨_, -, hret⟩ := bind_eq_ok.mp hret
    cases hret
    exact h
  · cases hret
    exact h

variable [DecidableEq κ]

theorem PollRun.keyed_step (s : PollRun κ) (event : PollEvent κ) (s' : PollRun κ)
    (h : s.loop.Keyed s.channels) (hret : s.step event = .ok s') : s'.loop.Keyed s'.channels := by
  cases event with
  | handle op answer =>
    obtain ⟨⟨loop', result⟩, hop, hret⟩ := bind_eq_ok.mp hret
    cases hret
    exact h.keeps hop
  | setEvents channel events =>
    cases hret
    exact h.setEvents channel events

theorem PollRun.respects_iff (s : PollRun κ) (event : PollEvent κ) (s' : PollRun κ)
    (h : s.loop.Keyed s.channels) (hret : s.step event = .ok s') :
    s.Respects event s' ↔ s.Unopposed event := by
  cases event with
  | handle op answer =>
    obtain ⟨⟨loop', result⟩, hop, hret⟩ := bind_eq_ok.mp hret
    cases hret
    apply h.respects_iff slotsOf hop
    intro data' r hdata
    obtain ⟨data'', hupdate, hslots⟩ :=
      slotsOf_pollUpdate s.loop.dispatcherData (s.channels op.channel)
    cases hdata.symm.trans hupdate
    rw [hslots, modifyHead_eq_self]
  | setEvents channel events => exact Iff.rfl

theorem EpollRun.keyed_step (s : EpollRun κ) (event : EpollRunEvent κ) (s' : EpollRun κ)
    (h : s.loop.Keyed s.channels) (hret : s.step event = .ok s') : s'.loop.Keyed s'.channels := by
  cases event with
  | accept channel =>
    cases hret
    exact h
  | handle op answer =>
    obtain ⟨⟨loop', result⟩, hop, hret⟩ := bind_eq_ok.mp hret
    cases hret
    exact h.keeps hop
  | setEvents channel events =>
    cases hret
    exact h.setEvents channel events
  | wait batch =>
    cases hret
    exact h
  | next => exact EpollRun.keyed_dispatchNext h hret
  | close fd =>
    cases hret
    exact ⟨h.wellFormed, h.channel_fd⟩

theorem EpollRun.respects_iff (s : EpollRun κ) (event : EpollRunEvent κ) (s' : EpollRun κ)
    (h : s.loop.Keyed s.channels) (hret : s.step event = .ok s') :
    s.Respects event s' ↔ s.Unopposed event := by
  cases event with
  | handle op answer =>
    obtain ⟨⟨loop', result⟩, hop, hret⟩ := bind_eq_ok.mp hret
    cases hret
    apply h.respects_iff (fun data fd => data fd) hop
    intro data' r hdata
    rw [(epollOperation_inv hdata).2]
    simp [eq_comm]
  | _ => exact Iff.rfl

/-- In every run that returns, with either dispatcher, each UPDATE and DELETE respects
the channel that is registered for its descriptor if and only if each of them finds
its own channel there, or none, or is an UPDATE to the interest that is there. -/
theorem stale_operations_iff :
    (∀ (channels : κ → Channel) (fill : ℕ → PollFd) (events : List (PollEvent κ)) (s : PollRun κ),
      events.foldlM PollRun.step (.init channels fill) = .ok s →
      (EachStep PollRun.step PollRun.Respects (.init channels fill) events ↔
        Admissible PollRun.step PollRun.Unopposed (.init channels fill) events)) ∧
    ∀ (channels : κ → Channel) (isOpen : ℤ → Bool) (events : List (EpollRunEvent κ))
      (s : EpollRun κ), events.foldlM EpollRun.step (.init channels isOpen) = .ok s →
      (EachStep EpollRun.step EpollRun.Respects (.init channels isOpen) events ↔
        Admissible EpollRun.step EpollRun.Unopposed (.init channels isOpen) events) := by
  constructor
  · intro channels fill events s hrun
    exact eachStep_iff (fun s event s' h _ => s.keyed_step event s' h) PollRun.respects_iff
      (EventLoop.keyed_init channels _) hrun
  · intro channels isOpen events s hrun
    exact eachStep_iff (fun s event s' h _ => s.keyed_step event s' h) EpollRun.respects_iff
      (EventLoop.keyed_init channels _) hrun

instance {ι : Type} [DecidableEq ι] (op : PendingOp κ) (entry entry' : Option κ)
    (interest interest' : ι) : Decidable (op.Respects entry entry' interest interest') :=
  inferInstanceAs (Decidable (_ ≠ _ → _ ≠ _ → _ ∧ _))

instance (op : PendingOp κ) (entry : Option κ) (asked : Prop) [Decidable asked] :
    Decidable (op.Unopposed entry asked) :=
  inferInstanceAs (Decidable (_ ≠ _ → _ ∨ _ ∨ _ ∧ _))

instance PollRun.decidableRespects (s : PollRun κ) (event : PollEvent κ) (s' : PollRun κ) :
    Decidable (s.Respects event s') :=
  match event with
  | .handle op _ => inferInstanceAs (Decidable (PendingOp.Respects op _ _ _ _))
  | .setEvents _ _ => .isTrue trivial

instance PollRun.decidableUnopposed (s : PollRun κ) (event : PollEvent κ) :
    Decidable (s.Unopposed event) :=
  match event with
  | .handle op _ => inferInstanceAs (Decidable (PendingOp.Unopposed op _ _))
  | .setEvents _ _ => .isTrue trivial

/-- Connections 0 and 1 have the number 5 one after the other. An UPDATE of connection
0, which had asked to write, is still to come. -/
def reusedRun : List (PollEvent ConnectionId) :=
  [.handle ⟨.add, 0⟩ (some fun _ => none), .setEvents 0 (eventRead ||| eventWrite),
    .handle ⟨.delete, 0⟩ none, .handle ⟨.add, 1⟩ (some fun _ => none)]

/-- The late operations of connection 0 change the interest of connection 1, and
unregister it. -/
theorem stale_operations_hit_successor :
    ∃ s updated deleted,
      reusedRun.foldlM PollRun.step (.init EpollRun.numberFive fun _ => ⟨0, 0, 0⟩) = .ok s ∧
      s.loop.channelMap.entry 5 = some 1 ∧ slotsOf s.loop.dispatcherData 5 = [pollRdNorm] ∧
      s.step (.handle ⟨.update, 0⟩ none) = .ok updated ∧
      (slotsOf updated.loop.dispatcherData 5 = [pollRdNorm ||| pollWrNorm] ∧
        ¬ s.Respects (.handle ⟨.update, 0⟩ none) updated) ∧
      s.step (.handle ⟨.delete, 0⟩ none) = .ok deleted ∧
      (deleted.loop.channelMap.entry 5 = none ∧ slotsOf deleted.loop.dispatcherData 5 = [] ∧
        ¬ s.Respects (.handle ⟨.delete, 0⟩ none) deleted) := by
  obtain ⟨s, hrun, hentry, hslots, hupdate, hdelete⟩ := exists_ok_of_any
    (m := reusedRun.foldlM PollRun.step (.init EpollRun.numberFive fun _ => ⟨0, 0, 0⟩))
    (p := fun s => s.loop.channelMap.entry 5 = some 1 ∧
      slotsOf s.loop.dispatcherData 5 = [pollRdNorm] ∧
      (s.step (.handle ⟨.update, 0⟩ none)).toOption.any (fun s' =>
        slotsOf s'.loop.dispatcherData 5 = [pollRdNorm ||| pollWrNorm] ∧
        ¬ s.Respects (.handle ⟨.update, 0⟩ none) s') = true ∧
      (s.step (.handle ⟨.delete, 0⟩ none)).toOption.any (fun s' =>
        s'.loop.channelMap.entry 5 = none ∧ slotsOf s'.loop.dispatcherData 5 = [] ∧
        ¬ s.Respects (.handle ⟨.delete, 0⟩ none) s') = true)
    (by decide +kernel)
  obtain ⟨updated, hupdated, hwritten⟩ := exists_ok_of_any hupdate
  obtain ⟨deleted, hdeleted, hcleared⟩ := exists_ok_of_any hdelete
  exact ⟨s, updated, deleted, hrun, hentry, hslots, hupdated, hwritten, hdeleted, hcleared⟩

/-- Without the late operations, every step respects what is registered. -/
theorem stale_operations_iff_reused :
    EachStep PollRun.step PollRun.Respects (.init EpollRun.numberFive fun _ => ⟨0, 0, 0⟩)
      reusedRun := by
  obtain ⟨s, hrun, -⟩ := exists_ok_of_any
    (m := reusedRun.foldlM PollRun.step (.init EpollRun.numberFive fun _ => ⟨0, 0, 0⟩))
    (p := fun _ => True) (by decide +kernel)
  have hadm : Admissible PollRun.step PollRun.Unopposed
      (.init EpollRun.numberFive fun _ => ⟨0, 0, 0⟩) reusedRun := by decide +kernel
  exact (stale_operations_iff.1 _ _ _ s hrun).mpr hadm

end OsProgramming.Reactor
