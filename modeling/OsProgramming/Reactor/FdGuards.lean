import OsProgramming.Reactor.Callbacks
import OsProgramming.Reactor.StaleOperations

/-! The guards of the channel map. Three functions check a descriptor by hand before
they look it up, and all three let the one through that is the length of the map.
For every other one they keep to the array. -/

namespace OsProgramming.Reactor

open Library

variable {κ δ σ : Type}

/-- What the callbacks of the channels do, to a state of any kind. -/
structure ChannelCallbacks (κ σ : Type) where
  onChannelReadable : κ → σ → Result σ
  onChannelWriteable : κ → σ → Result σ

/-- The last part of `event_loop_active`. -/
def ChannelCallbacks.invoke (callbacks : ChannelCallbacks κ σ) (channel : κ) (events : Events)
    (s : σ) : Result σ := do
  let s ← if events &&& eventRead ≠ 0 then callbacks.onChannelReadable channel s else .ok s
  if events &&& eventWrite ≠ 0 then callbacks.onChannelWriteable channel s else .ok s

def eventLoopActive (callbacks : ChannelCallbacks κ σ) (channels : κ → Channel)
    (loop : EventLoop κ δ) (fd : ℤ) (events : Events) (s : σ) : Result (σ × ℤ) :=
  if fd < 0 then .ok (s, 0)
  else if loop.channelMap.length < fd then .ok (s, -1)
  else do
    let entity ← load loop.channelMap.entities fd
    match entity with
    | none => .ok (s, -1)
    | some channel =>
      if (channels channel).fd ≠ fd then .error .exitFailure
      else do
        let s ← callbacks.invoke channel events s
        .ok (s, 1)

/-- The callbacks of a loop with its connections. -/
def LoopState.callbacks (S : Setting δ) (script : CallScript) :
    ChannelCallbacks ChannelId (LoopState δ) where
  onChannelReadable channel s := s.onChannelReadable S (s.channels channel) script
  onChannelWriteable channel s := s.onChannelWriteable S (s.channels channel) script

/-- With the callbacks of the library, and without its result, it is the function that
dispatches the events of a loop. -/
theorem LoopState.eventLoopActive_eq (S : Setting δ) (s : LoopState δ) (fd : ℤ) (events : Events)
    (script : CallScript) :
    s.eventLoopActive S fd events script =
      Reactor.eventLoopActive (callbacks S script) s.channels s.loop fd events s >>=
        fun r => .ok r.1 := by
  rw [LoopState.eventLoopActive, Reactor.eventLoopActive, registeredChannel]
  by_cases h0 : fd < 0
  · rw [if_pos h0, if_pos h0]
    rfl
  by_cases hbeyond : s.loop.channelMap.length < fd
  · rw [if_neg h0, if_neg h0, if_pos hbeyond, if_pos hbeyond]
    rfl
  rw [if_neg h0, if_neg h0, if_neg hbeyond, if_neg hbeyond]
  cases load s.loop.channelMap.entities fd with
  | error fault => rfl
  | ok entity =>
    cases entity with
    | none => rfl
    | some channel =>
      by_cases hfd : (s.channels channel).fd ≠ fd
      · simp only [ok_bind, if_pos hfd]
        rfl
      · simp only [ok_bind, if_neg hfd]
        show (callbacks S script).invoke channel events s = _
        cases (callbacks S script).invoke channel events s <;> rfl

/-- A descriptor without an entry is answered with 0 or -1 and nothing changes, and for
one with an entry only the code that is called for its channel fails. -/
structure Guarded (entry : Option κ) (s : σ) (calls : κ → Fault → Prop)
    (result : Result (σ × ℤ)) : Prop where
  absent : entry = none → ∃ r, (r = 0 ∨ r = -1) ∧ result = .ok (s, r)
  present : ∀ c fault, entry = some c → result = .error fault → calls c fault

def RemoveGuarded (dispatcher : EventDispatcher δ) (channels : κ → Channel)
    (loop : EventLoop κ δ) (fd : ℤ) : Prop :=
  Guarded (loop.channelMap.entry fd) loop
    (fun c fault => dispatcher.delete loop.dispatcherData (channels c) = .error fault)
    (eventLoopHandlePendingRemove dispatcher channels loop fd)

def UpdateGuarded (dispatcher : EventDispatcher δ) (channels : κ → Channel)
    (loop : EventLoop κ δ) (fd : ℤ) (channel : κ) : Prop :=
  Guarded (loop.channelMap.entry fd) loop
    (fun _ fault => dispatcher.update loop.dispatcherData (channels channel) = .error fault)
    (eventLoopHandlePendingUpdate dispatcher channels loop fd channel)

def ActiveGuarded (callbacks : ChannelCallbacks κ σ) (channels : κ → Channel)
    (loop : EventLoop κ δ) (fd : ℤ) (events : Events) (s : σ) : Prop :=
  Guarded (loop.channelMap.entry fd) s
    (fun c fault => callbacks.invoke c events s = .error fault)
    (eventLoopActive callbacks channels loop fd events s)

section

variable {channels : κ → Channel} {loop : EventLoop κ δ} {fd : ℤ} {c : κ}

theorem absentResult (fd : ℤ) : (if fd < 0 then 0 else -1 : ℤ) = 0 ∨
    (if fd < 0 then 0 else -1 : ℤ) = -1 := by
  split_ifs <;> simp

/-- Behind the array there is no entry, and a lookup there is no answer. -/
theorem ne_length_of_guarded {s : σ} {calls : κ → Fault → Prop} {result : Result (σ × ℤ)}
    (hmap : loop.channelMap.WellFormed) (h : Guarded (loop.channelMap.entry fd) s calls result)
    (hlength : fd = loop.channelMap.length → result = .error .outOfBounds) :
    fd ≠ loop.channelMap.length := by
  intro heq
  have hnone : loop.channelMap.entry fd = none := by
    cases he : loop.channelMap.entry fd with
    | none => rfl
    | some c => exact absurd heq (hmap.lt_of_entry he).2.ne
  obtain ⟨r, -, hr⟩ := h.absent hnone
  rw [hlength heq] at hr
  cases hr

theorem removeGuarded_iff (dispatcher : EventDispatcher δ) (channels : κ → Channel)
    (hmap : loop.channelMap.WellFormed) :
    RemoveGuarded dispatcher channels loop fd ↔ fd ≠ loop.channelMap.length := by
  constructor
  · intro h
    apply ne_length_of_guarded hmap h
    rintro rfl
    exact handlePendingRemove_length dispatcher channels hmap
  · intro hne
    refine ⟨fun he => ?_, fun c fault he herr => ?_⟩
    · exact ⟨_, absentResult fd, handlePendingRemove_none dispatcher channels hmap hne he⟩
    · rw [handlePendingRemove_present hmap he] at herr
      cases hdelete : dispatcher.delete loop.dispatcherData (channels c) with
      | error fault' => rw [hdelete] at herr; cases herr; rfl
      | ok r => rw [hdelete] at herr; cases herr

theorem updateGuarded_iff (dispatcher : EventDispatcher δ) (channels : κ → Channel) (channel : κ)
    (hmap : loop.channelMap.WellFormed) :
    UpdateGuarded dispatcher channels loop fd channel ↔ fd ≠ loop.channelMap.length := by
  constructor
  · intro h
    apply ne_length_of_guarded hmap h
    rintro rfl
    exact handlePendingUpdate_length dispatcher channels channel hmap
  · intro hne
    refine ⟨fun he => ?_, fun c fault he herr => ?_⟩
    · exact ⟨_, absentResult fd, handlePendingUpdate_none dispatcher channels channel hmap hne he⟩
    · rw [handlePendingUpdate_present hmap he] at herr
      cases hupdate : dispatcher.update loop.dispatcherData (channels channel) with
      | error fault' => rw [hupdate] at herr; cases herr; rfl
      | ok r => rw [hupdate] at herr; cases herr

theorem eventLoopActive_none (callbacks : ChannelCallbacks κ σ) (channels : κ → Channel)
    (events : Events) (s : σ) (hmap : loop.channelMap.WellFormed)
    (hne : fd ≠ loop.channelMap.length) (he : loop.channelMap.entry fd = none) :
    eventLoopActive callbacks channels loop fd events s = .ok (s, if fd < 0 then 0 else -1) := by
  rw [eventLoopActive]
  split_ifs with h0 hbeyond
  · rfl
  · rfl
  · rw [hmap.load (by omega) (by omega), he]
    rfl

theorem eventLoopActive_present (callbacks : ChannelCallbacks κ σ) (events : Events) (s : σ)
    (h : loop.Keyed channels) (he : loop.channelMap.entry fd = some c) :
    eventLoopActive callbacks channels loop fd events s =
      callbacks.invoke c events s >>= fun s' => .ok (s', 1) := by
  obtain ⟨h0, hlt⟩ := h.wellFormed.lt_of_entry he
  have hfd : ¬ (channels c).fd ≠ fd := not_not.mpr (h.channel_fd fd c he)
  rw [eventLoopActive, if_neg (by omega), if_neg (by omega), h.wellFormed.load h0 hlt, he, ok_bind]
  show (if (channels c).fd ≠ fd then _ else _) = _
  rw [if_neg hfd]

theorem eventLoopActive_length (callbacks : ChannelCallbacks κ σ) (channels : κ → Channel)
    (events : Events) (s : σ) (hmap : loop.channelMap.WellFormed) :
    eventLoopActive callbacks channels loop loop.channelMap.length events s =
      .error .outOfBounds := by
  have hlen := hmap.length_eq
  rw [eventLoopActive, if_neg (by omega), if_neg (by omega), load_length hmap, error_bind]

theorem activeGuarded_iff (callbacks : ChannelCallbacks κ σ) (events : Events) (s : σ)
    (h : loop.Keyed channels) :
    ActiveGuarded callbacks channels loop fd events s ↔ fd ≠ loop.channelMap.length := by
  constructor
  · intro hguarded
    apply ne_length_of_guarded h.wellFormed hguarded
    rintro rfl
    exact eventLoopActive_length callbacks channels events s h.wellFormed
  · intro hne
    refine ⟨fun he => ?_, fun c fault he herr => ?_⟩
    · exact ⟨_, absentResult fd,
        eventLoopActive_none callbacks channels events s h.wellFormed hne he⟩
    · rw [eventLoopActive_present callbacks events s h he] at herr
      cases hinvoke : callbacks.invoke c events s with
      | error fault' => rw [hinvoke] at herr; cases herr; rfl
      | ok s' => rw [hinvoke] at herr; cases herr

end

/-! ### Reachable maps -/

/-- The loops that a program reaches, each with the memory behind its channel pointers.
Operations are handled with any dispatcher; the dispatcher's data and the channels
change as they may, but a registered channel keeps its descriptor. -/
inductive LoopReached : (κ → Channel) → EventLoop κ δ → Prop
  | init (channels : κ → Channel) (data : δ) : LoopReached channels ⟨channelMapInit, data⟩
  | handle {channels : κ → Channel} {loop loop' : EventLoop κ δ} {dispatcher : EventDispatcher δ}
    {op : PendingOp κ} {answer : Alloc (Option κ)} {result : ℤ} (h : LoopReached channels loop)
    (hret : handlePending dispatcher channels loop op answer = .ok (loop', result)) :
    LoopReached channels loop'
  | change {channels channels' : κ → Channel} {loop : EventLoop κ δ} {data : δ}
    (h : LoopReached channels loop)
    (hfd : ∀ fd c, loop.channelMap.entry fd = some c → (channels' c).fd = (channels c).fd) :
    LoopReached channels' ⟨loop.channelMap, data⟩

theorem LoopReached.keyed {channels : κ → Channel} {loop : EventLoop κ δ}
    (h : LoopReached channels loop) : loop.Keyed channels := by
  induction h with
  | init channels data => exact EventLoop.keyed_init channels data
  | handle _ hret ih => exact ih.keeps hret
  | change _ hfd ih =>
    exact ⟨ih.wellFormed, fun fd c hc => (hfd fd c hc).trans (ih.channel_fd fd c hc)⟩

/-- Each of the three guards its lookup exactly when the descriptor is not the length of
the map. -/
theorem fd_guards_iff {channels : κ → Channel} {loop : EventLoop κ δ}
    (h : LoopReached channels loop) (dispatcher : EventDispatcher δ)
    (callbacks : ChannelCallbacks κ σ) (fd : ℤ) (channel : κ) (events : Events) (s : σ) :
    (RemoveGuarded dispatcher channels loop fd ↔ fd ≠ loop.channelMap.length) ∧
    (UpdateGuarded dispatcher channels loop fd channel ↔ fd ≠ loop.channelMap.length) ∧
    (ActiveGuarded callbacks channels loop fd events s ↔ fd ≠ loop.channelMap.length) :=
  ⟨removeGuarded_iff dispatcher channels h.keyed.wellFormed,
    updateGuarded_iff dispatcher channels channel h.keyed.wellFormed,
    activeGuarded_iff callbacks events s h.keyed⟩

/-- Channels by their descriptors. -/
def channelOfFd (fd : ℤ) : Channel := channelNew fd eventRead none none .tcpServer

/-- A map of 32 cells, after the ADD of descriptor 3. -/
theorem reached_length_32 :
    ∃ loop result, handlePending pollEventDispatcher channelOfFd
        ⟨channelMapInit, pollInit fun _ => ⟨0, 0, 0⟩⟩ ⟨.add, 3⟩ (some fun _ => none) =
          .ok (loop, result) ∧
      LoopReached channelOfFd loop ∧ loop.channelMap.length = 32 := by
  obtain ⟨r, hret, hlength⟩ := exists_ok_of_any
    (m := handlePending pollEventDispatcher channelOfFd
      ⟨channelMapInit, pollInit fun _ => ⟨0, 0, 0⟩⟩ ⟨.add, 3⟩ (some fun _ => none))
    (p := fun r => r.1.channelMap.length = 32) (by decide +kernel)
  exact ⟨r.1, r.2, hret, .handle (.init _ _) hret, hlength⟩

/-- An UPDATE that comes before the ADD of descriptor 33 is turned away. -/
theorem fd_guards_iff_beyond :
    ∃ loop, LoopReached channelOfFd loop ∧ loop.channelMap.length = 32 ∧
      UpdateGuarded pollEventDispatcher channelOfFd loop 33 33 := by
  obtain ⟨loop, -, -, hreached, hlength⟩ := reached_length_32
  refine ⟨loop, hreached, hlength, ?_⟩
  exact ((fd_guards_iff hreached pollEventDispatcher
    (⟨fun _ s => .ok s, fun _ s => .ok s⟩ : ChannelCallbacks ℤ Unit) 33 33 eventRead ()).2.1).mpr
    (by rw [hlength]; decide)

/-- An UPDATE that comes before the ADD of descriptor 32 is not, nor a DELETE nor an
event. -/
theorem fd_guards_miss :
    ∃ loop, LoopReached channelOfFd loop ∧ loop.channelMap.entry 32 = none ∧
      eventLoopHandlePendingUpdate pollEventDispatcher channelOfFd loop 32 32 =
        .error .outOfBounds ∧
      eventLoopHandlePendingRemove pollEventDispatcher channelOfFd loop 32 =
        .error .outOfBounds ∧
      eventLoopActive (⟨fun _ s => .ok s, fun _ s => .ok s⟩ : ChannelCallbacks ℤ Unit)
        channelOfFd loop 32 eventRead () = .error .outOfBounds := by
  obtain ⟨loop, -, -, hreached, hlength⟩ := reached_length_32
  have hmap := hreached.keyed.wellFormed
  refine ⟨loop, hreached, ?_, ?_, ?_, ?_⟩
  · cases he : loop.channelMap.entry 32 with
    | none => rfl
    | some c => exact absurd hlength (hmap.lt_of_entry he).2.ne'
  · rw [← hlength]
    exact handlePendingUpdate_length _ _ _ hmap
  · rw [← hlength]
    exact handlePendingRemove_length _ _ hmap
  · rw [← hlength]
    exact eventLoopActive_length _ _ _ _ hmap

end OsProgramming.Reactor
