import OsProgramming.Reactor.Channel
import OsProgramming.Reactor.ChannelMap
import OsProgramming.Reactor.PendingQueue

/-! How a loop handles the operations of its queue. The dispatcher is a parameter, as it
is in the source; `channels` is the memory behind the channel pointers `κ`, and the
`int` results of the source are kept. -/

namespace OsProgramming.Reactor

open Library

/-- `struct event_dispatcher`, with its data `δ`. -/
structure EventDispatcher (δ : Type) where
  add : δ → Channel → Result (δ × ℤ)
  delete : δ → Channel → Result (δ × ℤ)
  update : δ → Channel → Result (δ × ℤ)

structure EventLoop (κ δ : Type) where
  channelMap : ChannelMap κ
  dispatcherData : δ

variable {κ δ : Type}

/-- The second part of `event_loop_handle_pending_add`. -/
def registerIfAbsent (dispatcher : EventDispatcher δ) (channels : κ → Channel)
    (loop : EventLoop κ δ) (fd : ℤ) (channel : κ) : Result (EventLoop κ δ × ℤ) := do
  let entity ← load loop.channelMap.entities fd
  match entity with
  | none => do
    let entities ← store loop.channelMap.entities fd [some channel]
    let (data, _) ← dispatcher.add loop.dispatcherData (channels channel)
    .ok (⟨{ loop.channelMap with entities }, data⟩, 1)
  | some _ => .ok (loop, 1)

def eventLoopHandlePendingAdd (dispatcher : EventDispatcher δ) (channels : κ → Channel)
    (loop : EventLoop κ δ) (fd : ℤ) (channel : κ) (answer : Alloc (Option κ)) :
    Result (EventLoop κ δ × ℤ) :=
  if fd < 0 then .ok (loop, 0)
  else if loop.channelMap.length ≤ fd then do
    let (channelMap, space) ← channelMapMakeSpace loop.channelMap fd channelPointerSize answer
    if space then registerIfAbsent dispatcher channels { loop with channelMap } fd channel
    else .ok ({ loop with channelMap }, -1)
  else registerIfAbsent dispatcher channels loop fd channel

/-- The check lets a descriptor that is the length of the map through. -/
def eventLoopHandlePendingRemove (dispatcher : EventDispatcher δ) (channels : κ → Channel)
    (loop : EventLoop κ δ) (fd : ℤ) : Result (EventLoop κ δ × ℤ) :=
  if fd < 0 then .ok (loop, 0)
  else if loop.channelMap.length < fd then .ok (loop, -1)
  else do
    let addedChannel ← load loop.channelMap.entities fd
    match addedChannel with
    | none => .ok (loop, -1)
    | some added => do
      let (data, result) ← dispatcher.delete loop.dispatcherData (channels added)
      let entities ← store loop.channelMap.entities fd [none]
      .ok (⟨{ loop.channelMap with entities }, data⟩, result)

def eventLoopHandlePendingUpdate (dispatcher : EventDispatcher δ) (channels : κ → Channel)
    (loop : EventLoop κ δ) (fd : ℤ) (channel : κ) : Result (EventLoop κ δ × ℤ) :=
  if fd < 0 then .ok (loop, 0)
  else if loop.channelMap.length < fd then .ok (loop, -1)
  else do
    let entity ← load loop.channelMap.entities fd
    match entity with
    | none => .ok (loop, -1)
    | some _ => do
      let (data, result) ← dispatcher.update loop.dispatcherData (channels channel)
      .ok ({ loop with dispatcherData := data }, result)

/-- The body of the loop in `event_loop_handle_pending_channel`. -/
def handlePending (dispatcher : EventDispatcher δ) (channels : κ → Channel) (loop : EventLoop κ δ)
    (op : PendingOp κ) (answer : Alloc (Option κ)) : Result (EventLoop κ δ × ℤ) :=
  let fd := (channels op.channel).fd
  match op.type with
  | .add => eventLoopHandlePendingAdd dispatcher channels loop fd op.channel answer
  | .delete => eventLoopHandlePendingRemove dispatcher channels loop fd
  | .update => eventLoopHandlePendingUpdate dispatcher channels loop fd op.channel

/-- The first part of `event_loop_active`: the channel whose callbacks it invokes. -/
def registeredChannel (channels : κ → Channel) (loop : EventLoop κ δ) (fd : ℤ) :
    Result (Option κ) :=
  if fd < 0 then .ok none
  else if loop.channelMap.length < fd then .ok none
  else do
    let entity ← load loop.channelMap.entities fd
    match entity with
    | none => .ok none
    | some channel => if (channels channel).fd ≠ fd then .error .exitFailure else .ok (some channel)

/-- The events of a channel change, in the memory behind the pointers. -/
def setEvents [DecidableEq κ] (channels : κ → Channel) (channel : κ) (events : Events) :
    κ → Channel :=
  Function.update channels channel { channels channel with events }

theorem setEvents_fd [DecidableEq κ] (channels : κ → Channel) (channel : κ) (events : Events)
    (c : κ) :
    (setEvents channels channel events c).fd = (channels c).fd := by
  simp only [setEvents, Function.update_apply]
  split_ifs with heq
  · rw [heq]
  · rfl

/-! ### On a well-formed map -/

section

variable {dispatcher : EventDispatcher δ} {channels : κ → Channel} {loop : EventLoop κ δ} {fd : ℤ}
  {channel c : κ} {answer : Alloc (Option κ)}

/-- The space for a descriptor is made, or is there. -/
theorem handlePendingAdd_eq (dispatcher : EventDispatcher δ) (channels : κ → Channel)
    (loop : EventLoop κ δ) (channel : κ) (answer : Alloc (Option κ)) (h0 : 0 ≤ fd) :
    eventLoopHandlePendingAdd dispatcher channels loop fd channel answer =
      channelMapMakeSpace loop.channelMap fd channelPointerSize answer >>= fun r =>
        registerIfAbsent dispatcher channels { loop with channelMap := r.1 } fd channel := by
  rw [eventLoopHandlePendingAdd, if_neg (by omega)]
  split_ifs with hle
  · cases hspace : channelMapMakeSpace loop.channelMap fd channelPointerSize answer with
    | error fault => rfl
    | ok r =>
      obtain ⟨map', space⟩ := r
      obtain rfl : space = true := makeSpace_result hspace
      rfl
  · rw [makeSpace_of_lt answer (by omega)]
    rfl

theorem handlePendingAdd_present (answer : Alloc (Option κ)) (hmap : loop.channelMap.WellFormed)
    (he : loop.channelMap.entry fd = some c) :
    eventLoopHandlePendingAdd dispatcher channels loop fd channel answer = .ok (loop, 1) := by
  obtain ⟨h0, hlt⟩ := hmap.lt_of_entry he
  rw [handlePendingAdd_eq dispatcher channels loop channel answer h0, makeSpace_of_lt answer hlt,
    ok_bind, registerIfAbsent, hmap.load h0 hlt, he]
  rfl

theorem handlePendingAdd_absent (dispatcher : EventDispatcher δ) (channels : κ → Channel)
    (channel : κ) {map' : ChannelMap κ} (h0 : 0 ≤ fd)
    (hspace : channelMapMakeSpace loop.channelMap fd channelPointerSize answer = .ok (map', true))
    (hlt : fd < map'.length) (hext : map'.Extends loop.channelMap)
    (he : loop.channelMap.entry fd = none) :
    eventLoopHandlePendingAdd dispatcher channels loop fd channel answer =
      dispatcher.add loop.dispatcherData (channels channel) >>= fun r =>
        .ok (⟨map'.set fd (some channel), r.1⟩, 1) := by
  rw [handlePendingAdd_eq dispatcher channels loop channel answer h0, hspace, ok_bind,
    registerIfAbsent, hext.wellFormed.load h0 hlt, hext.entry_eq, he, ok_bind]
  show (store map'.entities fd [some channel] >>= _) = _
  rw [hext.wellFormed.store h0 hlt]
  rfl

/-- An ADD that returns has found its space. -/
theorem handlePendingAdd_space {r : EventLoop κ δ × ℤ} (hmap : loop.channelMap.WellFormed)
    (h0 : 0 ≤ fd)
    (hret : eventLoopHandlePendingAdd dispatcher channels loop fd channel answer = .ok r) :
    ∃ map', channelMapMakeSpace loop.channelMap fd channelPointerSize answer = .ok (map', true) ∧
      fd < map'.length ∧ map'.Extends loop.channelMap := by
  rw [handlePendingAdd_eq dispatcher channels loop channel answer h0] at hret
  obtain ⟨⟨map', space⟩, hspace, hret⟩ := bind_eq_ok.mp hret
  obtain rfl : space = true := makeSpace_result hspace
  obtain ⟨entity, hload, -⟩ := bind_eq_ok.mp hret
  obtain ⟨hlt, hext⟩ := makeSpace_returns hmap h0 hspace (lt_length_of_load hload)
  exact ⟨map', hspace, hlt, hext⟩

theorem handlePendingRemove_none (dispatcher : EventDispatcher δ) (channels : κ → Channel)
    (hmap : loop.channelMap.WellFormed)
    (hne : fd ≠ loop.channelMap.length) (he : loop.channelMap.entry fd = none) :
    eventLoopHandlePendingRemove dispatcher channels loop fd =
      .ok (loop, if fd < 0 then 0 else -1) := by
  rw [eventLoopHandlePendingRemove]
  split_ifs with h0 hbeyond
  · rfl
  · rfl
  · rw [hmap.load (by omega) (by omega), he]
    rfl

theorem handlePendingRemove_absent (dispatcher : EventDispatcher δ) (channels : κ → Channel)
    (hmap : loop.channelMap.WellFormed)
    (hne : fd ≠ loop.channelMap.length) (he : loop.channelMap.entry fd = none) :
    ∃ result, eventLoopHandlePendingRemove dispatcher channels loop fd = .ok (loop, result) :=
  ⟨_, handlePendingRemove_none dispatcher channels hmap hne he⟩

theorem handlePendingRemove_present (hmap : loop.channelMap.WellFormed)
    (he : loop.channelMap.entry fd = some c) :
    eventLoopHandlePendingRemove dispatcher channels loop fd =
      dispatcher.delete loop.dispatcherData (channels c) >>= fun r =>
        .ok (⟨loop.channelMap.set fd none, r.1⟩, r.2) := by
  obtain ⟨h0, hlt⟩ := hmap.lt_of_entry he
  rw [eventLoopHandlePendingRemove, if_neg (by omega), if_neg (by omega), hmap.load h0 hlt, he,
    ok_bind]
  show (dispatcher.delete loop.dispatcherData (channels c) >>= fun r =>
    store loop.channelMap.entities fd [none] >>= _) = _
  rw [hmap.store h0 hlt]
  rfl

theorem handlePendingUpdate_none (dispatcher : EventDispatcher δ) (channels : κ → Channel)
    (channel : κ) (hmap : loop.channelMap.WellFormed)
    (hne : fd ≠ loop.channelMap.length) (he : loop.channelMap.entry fd = none) :
    eventLoopHandlePendingUpdate dispatcher channels loop fd channel =
      .ok (loop, if fd < 0 then 0 else -1) := by
  rw [eventLoopHandlePendingUpdate]
  split_ifs with h0 hbeyond
  · rfl
  · rfl
  · rw [hmap.load (by omega) (by omega), he]
    rfl

theorem handlePendingUpdate_absent (dispatcher : EventDispatcher δ) (channels : κ → Channel)
    (channel : κ) (hmap : loop.channelMap.WellFormed)
    (hne : fd ≠ loop.channelMap.length) (he : loop.channelMap.entry fd = none) :
    ∃ result, eventLoopHandlePendingUpdate dispatcher channels loop fd channel =
      .ok (loop, result) :=
  ⟨_, handlePendingUpdate_none dispatcher channels channel hmap hne he⟩

theorem handlePendingUpdate_present (hmap : loop.channelMap.WellFormed)
    (he : loop.channelMap.entry fd = some c) :
    eventLoopHandlePendingUpdate dispatcher channels loop fd channel =
      dispatcher.update loop.dispatcherData (channels channel) >>= fun r =>
        .ok ({ loop with dispatcherData := r.1 }, r.2) := by
  obtain ⟨h0, hlt⟩ := hmap.lt_of_entry he
  rw [eventLoopHandlePendingUpdate, if_neg (by omega), if_neg (by omega), hmap.load h0 hlt, he]
  rfl

/-! ### What an operation that returns has done -/

variable {loop' : EventLoop κ δ} {result : ℤ}

theorem handlePendingAdd_cases (hmap : loop.channelMap.WellFormed)
    (hret : eventLoopHandlePendingAdd dispatcher channels loop fd channel answer =
      .ok (loop', result)) :
    (loop' = loop ∧ (fd < 0 ∨ loop.channelMap.entry fd ≠ none)) ∨
      ∃ (map' : ChannelMap κ) (data' : δ) (r : ℤ), 0 ≤ fd ∧ loop.channelMap.entry fd = none ∧
        fd < map'.length ∧ map'.Extends loop.channelMap ∧
        dispatcher.add loop.dispatcherData (channels channel) = .ok (data', r) ∧
        loop' = ⟨map'.set fd (some channel), data'⟩ := by
  by_cases hneg : fd < 0
  · rw [eventLoopHandlePendingAdd, if_pos hneg] at hret
    cases hret
    exact .inl ⟨rfl, .inl hneg⟩
  have h0 : 0 ≤ fd := by omega
  cases he : loop.channelMap.entry fd with
  | some c =>
    rw [handlePendingAdd_present answer hmap he] at hret
    cases hret
    exact .inl ⟨rfl, .inr nofun⟩
  | none =>
    obtain ⟨map', hspace, hlt, hext⟩ := handlePendingAdd_space hmap h0 hret
    rw [handlePendingAdd_absent dispatcher channels channel h0 hspace hlt hext he] at hret
    obtain ⟨⟨data', r⟩, hadd, hret⟩ := bind_eq_ok.mp hret
    cases hret
    exact .inr ⟨map', data', r, h0, rfl, hlt, hext, hadd, rfl⟩

/-- A lookup that is not for a cell of the array does not return. -/
theorem lt_length_of_returns {β : Type} {f : Option κ → Result β} {r : β}
    (hmap : loop.channelMap.WellFormed) (hret : load loop.channelMap.entities fd >>= f = .ok r) :
    fd < loop.channelMap.length := by
  obtain ⟨entity, hload, -⟩ := bind_eq_ok.mp hret
  have hlt := lt_length_of_load hload
  have hlen := hmap.length_eq
  omega

/-- The descriptor that the check lets through is looked up behind the array. -/
theorem load_length (hmap : loop.channelMap.WellFormed) :
    load loop.channelMap.entities loop.channelMap.length = .error .outOfBounds := by
  rw [hmap.length_eq, load_of_length_le le_rfl]

theorem handlePendingRemove_length (dispatcher : EventDispatcher δ) (channels : κ → Channel)
    (hmap : loop.channelMap.WellFormed) :
    eventLoopHandlePendingRemove dispatcher channels loop loop.channelMap.length =
      .error .outOfBounds := by
  have hlen := hmap.length_eq
  rw [eventLoopHandlePendingRemove, if_neg (by omega), if_neg (by omega), load_length hmap,
    error_bind]

theorem handlePendingUpdate_length (dispatcher : EventDispatcher δ) (channels : κ → Channel)
    (channel : κ) (hmap : loop.channelMap.WellFormed) :
    eventLoopHandlePendingUpdate dispatcher channels loop loop.channelMap.length channel =
      .error .outOfBounds := by
  have hlen := hmap.length_eq
  rw [eventLoopHandlePendingUpdate, if_neg (by omega), if_neg (by omega), load_length hmap,
    error_bind]

theorem handlePendingRemove_ne_length (hmap : loop.channelMap.WellFormed)
    (hret : eventLoopHandlePendingRemove dispatcher channels loop fd = .ok (loop', result)) :
    fd ≠ loop.channelMap.length := by
  rintro rfl
  rw [handlePendingRemove_length dispatcher channels hmap] at hret
  cases hret

theorem handlePendingUpdate_ne_length (hmap : loop.channelMap.WellFormed)
    (hret : eventLoopHandlePendingUpdate dispatcher channels loop fd channel =
      .ok (loop', result)) : fd ≠ loop.channelMap.length := by
  rintro rfl
  rw [handlePendingUpdate_length dispatcher channels channel hmap] at hret
  cases hret

theorem handlePendingRemove_cases (hmap : loop.channelMap.WellFormed)
    (hret : eventLoopHandlePendingRemove dispatcher channels loop fd = .ok (loop', result)) :
    (loop' = loop ∧ loop.channelMap.entry fd = none) ∨ ∃ c data',
      loop.channelMap.entry fd = some c ∧
      dispatcher.delete loop.dispatcherData (channels c) = .ok (data', result) ∧
      loop' = ⟨loop.channelMap.set fd none, data'⟩ := by
  cases he : loop.channelMap.entry fd with
  | none =>
    rw [eventLoopHandlePendingRemove] at hret
    split_ifs at hret with h0 hbeyond
    · cases hret
      exact .inl ⟨rfl, rfl⟩
    · cases hret
      exact .inl ⟨rfl, rfl⟩
    · rw [hmap.load (by omega) (lt_length_of_returns hmap hret), he] at hret
      cases hret
      exact .inl ⟨rfl, rfl⟩
  | some c =>
    rw [handlePendingRemove_present hmap he] at hret
    obtain ⟨⟨data', r⟩, hdelete, hret⟩ := bind_eq_ok.mp hret
    cases hret
    exact .inr ⟨c, data', rfl, hdelete, rfl⟩

theorem handlePendingUpdate_cases (hmap : loop.channelMap.WellFormed)
    (hret : eventLoopHandlePendingUpdate dispatcher channels loop fd channel =
      .ok (loop', result)) :
    loop' = loop ∨ ∃ c data', loop.channelMap.entry fd = some c ∧
      dispatcher.update loop.dispatcherData (channels channel) = .ok (data', result) ∧
      loop' = { loop with dispatcherData := data' } := by
  cases he : loop.channelMap.entry fd with
  | none =>
    rw [eventLoopHandlePendingUpdate] at hret
    split_ifs at hret with h0 hbeyond
    · cases hret
      exact .inl rfl
    · cases hret
      exact .inl rfl
    · rw [hmap.load (by omega) (lt_length_of_returns hmap hret), he] at hret
      cases hret
      exact .inl rfl
  | some c =>
    rw [handlePendingUpdate_present hmap he] at hret
    obtain ⟨⟨data', r⟩, hupdate, hret⟩ := bind_eq_ok.mp hret
    cases hret
    exact .inr ⟨c, data', rfl, hupdate, rfl⟩

theorem registeredChannel_eq {r : Option κ} (hmap : loop.channelMap.WellFormed)
    (hret : registeredChannel channels loop fd = .ok r) : r = loop.channelMap.entry fd := by
  have hlen := hmap.length_eq
  unfold registeredChannel at hret
  split_ifs at hret with h0 hbeyond
  · cases hret
    rw [ChannelMap.entry, if_neg (by omega)]
  · cases hret
    rw [ChannelMap.entry, if_pos (by omega), List.getElem?_eq_none (by omega)]
    rfl
  · rw [hmap.load (by omega) (lt_length_of_returns hmap hret), ok_bind] at hret
    split at hret
    · cases hret
      exact Eq.symm ‹_›
    · split_ifs at hret
      cases hret
      exact Eq.symm ‹_›

end

end OsProgramming.Reactor
