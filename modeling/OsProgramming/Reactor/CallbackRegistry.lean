import OsProgramming.Reactor.CallbackMoves

/-! The channel map of a loop under what callbacks do. Moves add entries for channels
that were never added, and a removal clears one; so the channels of the map keep the
callbacks and the data that they were created with, and an event that is dispatched is
a sequence of moves or closes the connection that it is for. -/

namespace OsProgramming.Reactor

open Library

namespace LoopState

variable {δ : Type} {S : Setting δ} {s s' : LoopState δ}

variable (S) in
/-- The channels are as they were created, and those of the map have been added by
this loop, under their own descriptors. -/
structure Sane (s : LoopState δ) : Prop where
  wakeup : s.wakeup.onChannelReadable = some .handleLoopThreadWakeup ∧
    s.wakeup.onChannelWriteable = none
  acceptor : s.acceptor.onChannelReadable = some .handleConnectionEstablished ∧
    s.acceptor.onChannelWriteable = none
  readable : ∀ id, (s.connections id).channel.onChannelReadable = some .handleRead
  writeable : ∀ id, (s.connections id).channel.onChannelWriteable = some .handleWrite
  data : ∀ id, (s.connections id).channel.data = .tcpConnection id
  wellFormed : s.loop.channelMap.WellFormed
  channel_fd : ∀ fd c, s.loop.channelMap.entry fd = some c → (s.channels c).fd = fd
  added : ∀ fd c, s.loop.channelMap.entry fd = some c → c ∈ s.added
  served : ∀ fd c, s.loop.channelMap.entry fd = some c → s.ServedBy S.self c

/-- A state that differs in what its channel map holds. -/
theorem Sane.of_entries (h : Sane S s) (hfixed : SameFixed s s')
    (hwf : s'.loop.channelMap.WellFormed) (hadded : ∀ c ∈ s.added, c ∈ s'.added)
    (hentries : ∀ fd c, s'.loop.channelMap.entry fd = some c →
      s.loop.channelMap.entry fd = some c ∨
        (s.channels c).fd = fd ∧ c ∈ s'.added ∧ s.ServedBy S.self c) : Sane S s' where
  wakeup := by
    rw [hfixed.wakeup]
    exact h.wakeup
  acceptor := by
    rw [hfixed.acceptor]
    exact h.acceptor
  readable id :=
    (congrArg (fun p => p.2.2.onChannelReadable) (hfixed.connections id)).trans (h.readable id)
  writeable id :=
    (congrArg (fun p => p.2.2.onChannelWriteable) (hfixed.connections id)).trans (h.writeable id)
  data id := (congrArg (fun p => p.2.2.data) (hfixed.connections id)).trans (h.data id)
  wellFormed := hwf
  channel_fd fd c hc := by
    rw [hfixed.channel_fd]
    rcases hentries fd c hc with hold | ⟨hfd, -, -⟩
    · exact h.channel_fd fd c hold
    · exact hfd
  added fd c hc := by
    rcases hentries fd c hc with hold | ⟨-, hmem, -⟩
    · exact hadded c (h.added fd c hold)
    · exact hmem
  served fd c hc := by
    rw [hfixed.servedBy]
    rcases hentries fd c hc with hold | ⟨-, -, hserved⟩
    · exact h.served fd c hold
    · exact hserved

/-- The effect of an operation on the channel map and on the data of the dispatcher. -/
theorem handle_add (hwf : s.loop.channelMap.WellFormed) {channel : ChannelId}
    {answer : Alloc (Option ChannelId)} (h : s.handle S ⟨.add, channel⟩ answer = .ok s') :
    s'.loop = s.loop ∨
      0 ≤ (s.channels channel).fd ∧ s.loop.channelMap.entry (s.channels channel).fd = none ∧
        s'.loop.channelMap.WellFormed ∧
        (∀ fd, s'.loop.channelMap.entry fd =
          if fd = (s.channels channel).fd then some channel else s.loop.channelMap.entry fd) ∧
        ∃ result, (S.dispatcher s.isOpen).add s.loop.dispatcherData (s.channels channel) =
          .ok (s'.loop.dispatcherData, result) := by
  obtain ⟨-, result, hop⟩ := handle_loop h
  rcases handlePendingAdd_cases hwf hop with
    ⟨heq, -⟩ | ⟨map', data', r, h0, hnone, hlt, hext, hadd, heq⟩
  · exact .inl heq
  · rw [heq]
    exact .inr ⟨h0, hnone, hext.wellFormed.set _ _, hext.entry_set h0 hlt _, r, hadd⟩

theorem handle_update (hwf : s.loop.channelMap.WellFormed) {channel : ChannelId}
    {answer : Alloc (Option ChannelId)} (h : s.handle S ⟨.update, channel⟩ answer = .ok s') :
    s'.loop = s.loop ∨
      s'.loop.channelMap = s.loop.channelMap ∧
        ∃ result, (S.dispatcher s.isOpen).update s.loop.dispatcherData (s.channels channel) =
          .ok (s'.loop.dispatcherData, result) := by
  obtain ⟨-, result, hop⟩ := handle_loop h
  rcases handlePendingUpdate_cases hwf hop with heq | ⟨c, data', -, hupdate, heq⟩
  · exact .inl heq
  · rw [heq]
    exact .inr ⟨rfl, result, hupdate⟩

theorem handle_delete (hwf : s.loop.channelMap.WellFormed) {channel : ChannelId}
    {answer : Alloc (Option ChannelId)} (h : s.handle S ⟨.delete, channel⟩ answer = .ok s') :
    (s'.loop = s.loop ∧ s.loop.channelMap.entry (s.channels channel).fd = none) ∨
      s'.loop.channelMap.WellFormed ∧
        (∀ fd, s'.loop.channelMap.entry fd =
          if fd = (s.channels channel).fd then none else s.loop.channelMap.entry fd) ∧
        ∃ c result, s.loop.channelMap.entry (s.channels channel).fd = some c ∧
          (S.dispatcher s.isOpen).delete s.loop.dispatcherData (s.channels c) =
            .ok (s'.loop.dispatcherData, result) := by
  obtain ⟨-, result, hop⟩ := handle_loop h
  rcases handlePendingRemove_cases hwf hop with ⟨heq, hnone⟩ | ⟨c, data', hentry, hdelete, heq⟩
  · exact .inl ⟨heq, hnone⟩
  · rw [heq]
    obtain ⟨h0, hlt⟩ := hwf.lt_of_entry hentry
    exact .inr ⟨hwf.set _ _, hwf.entry_set h0 hlt none, c, result, hentry, hdelete⟩

variable (S) in
/-- What a move makes of the channel map: it keeps the entries, and new ones are for
channels that had not been added. -/
structure Grows (s s' : LoopState δ) : Prop where
  wellFormed : s'.loop.channelMap.WellFormed
  added : ∀ c ∈ s.added, c ∈ s'.added
  closed : s'.closed = s.closed
  kept : ∀ fd c, s.loop.channelMap.entry fd = some c → s'.loop.channelMap.entry fd = some c
  entries : ∀ fd c, s'.loop.channelMap.entry fd = some c →
    s.loop.channelMap.entry fd = some c ∨
      (s.channels c).fd = fd ∧ c ∉ s.added ∧ c ∈ s'.added ∧ s.ServedBy S.self c

/-- The channel map is the same. -/
theorem Grows.of_same (hwf : s.loop.channelMap.WellFormed)
    (hmap : s'.loop.channelMap = s.loop.channelMap) (hadded : ∀ c ∈ s.added, c ∈ s'.added)
    (hclosed : s'.closed = s.closed) : Grows S s s' := by
  refine ⟨?_, hadded, hclosed, ?_, ?_⟩
  · rw [hmap]
    exact hwf
  · intro fd c hc
    rw [hmap]
    exact hc
  · intro fd c hc
    rw [hmap] at hc
    exact .inl hc

theorem Move.grows (hwf : s.loop.channelMap.WellFormed) (h : Move S s s') : Grows S s s' := by
  cases h with
  | connection hconnection => exact .of_same hwf rfl (fun _ => id) rfl
  | accept fd => exact .of_same hwf rfl (fun _ => id) rfl
  | close fd => exact .of_same hwf rfl (fun _ => id) rfl
  | @add handled channel answer hnew hserved hadd =>
    obtain ⟨hadded, hclosed⟩ := handle_log hadd
    have hmem : ∀ c ∈ s.added, c ∈ channel :: handled.added := by
      rw [hadded]
      exact fun c => List.mem_cons_of_mem channel
    rcases handle_add hwf hadd with heq | ⟨-, hnone, hwf', hentry, -⟩
    · exact .of_same hwf (congrArg EventLoop.channelMap heq) hmem hclosed
    · refine ⟨hwf', hmem, hclosed, ?_, ?_⟩
      · intro fd c hc
        refine (hentry fd).trans ((if_neg ?_).trans hc)
        rintro rfl
        exact absurd (hc.symm.trans hnone) nofun
      · intro fd c hc
        rw [hentry] at hc
        split_ifs at hc with hfd
        · cases hc
          exact .inr ⟨hfd.symm, hnew, List.mem_cons_self, hserved⟩
        · exact .inl hc
  | update hupdate =>
    obtain ⟨hadded, hclosed⟩ := handle_log hupdate
    have hmap : s'.loop.channelMap = s.loop.channelMap := by
      rcases handle_update hwf hupdate with heq | ⟨hmap, -⟩
      · exact congrArg EventLoop.channelMap heq
      · exact hmap
    exact .of_same hwf hmap (hadded ▸ fun _ => id) hclosed

theorem Sane.move (h : Sane S s) (hmove : Move S s s') : Sane S s' := by
  have hgrows := hmove.grows h.wellFormed
  apply h.of_entries hmove.fixed hgrows.wellFormed hgrows.added
  intro fd c hc
  exact (hgrows.entries fd c hc).imp_right fun hnew => ⟨hnew.1, hnew.2.2⟩

theorem Removes.log {id : ConnectionId} (h : Removes S id s s') :
    s'.added = s.added ∧
      s'.closed = s.closed ++
        if (s.connections id).callbacks.onConnectionClosed then [id] else [] := by
  obtain ⟨removed, hdelete, heq⟩ := h
  obtain ⟨hadded, hclosed⟩ := handle_log hdelete
  rw [heq, ← hadded, ← hclosed]
  split_ifs
  · exact ⟨rfl, rfl⟩
  · exact ⟨rfl, (List.append_nil _).symm⟩

theorem Removes.handled {id : ConnectionId} (h : Removes S id s s') :
    ∃ removed, s.handle S ⟨.delete, .connection id⟩ none = .ok removed ∧
      s'.loop = removed.loop := by
  obtain ⟨removed, hdelete, heq⟩ := h
  refine ⟨removed, hdelete, ?_⟩
  rw [heq]
  split_ifs <;> rfl

/-- A removal clears the entry of the descriptor, if there is one. -/
theorem Removes.entries (hwf : s.loop.channelMap.WellFormed) {id : ConnectionId}
    (h : Removes S id s s') : s'.loop.channelMap.WellFormed ∧
      ∀ fd, s'.loop.channelMap.entry fd =
        if fd = (s.connections id).channel.fd then none else s.loop.channelMap.entry fd := by
  obtain ⟨removed, hdelete, hloop⟩ := h.handled
  rw [hloop]
  rcases handle_delete hwf hdelete with ⟨hsame, hnone⟩ | ⟨hwf', hentry, -⟩
  · rw [hsame]
    refine ⟨hwf, ?_⟩
    intro fd
    split_ifs with hfd
    · rw [hfd]
      exact hnone
    · rfl
  · exact ⟨hwf', hentry⟩

theorem Sane.removes (h : Sane S s) {id : ConnectionId} (hremoves : Removes S id s s') :
    Sane S s' := by
  obtain ⟨hwf, hentry⟩ := hremoves.entries h.wellFormed
  apply h.of_entries hremoves.fixed hwf (hremoves.log.1 ▸ fun _ hc => hc)
  intro fd c hc
  rw [hentry] at hc
  split_ifs at hc
  exact .inl hc

/-! ### The dispatch of an event -/

/-- A readable event: the connection that it is for is closed if the read ends it. -/
theorem active_read (hs : Sane S s) {fd : ℤ} {script : CallScript}
    (h : s.eventLoopActive S fd eventRead script = .ok s') :
    (∃ id, s.loop.channelMap.entry fd = some (.connection id) ∧ script.read.Ends ∧
      Closes S id s s') ∨
    (∀ id, s.loop.channelMap.entry fd = some (.connection id) → ¬ script.read.Ends) ∧
      Moves S s s' := by
  obtain ⟨registered, hregistered, h⟩ := bind_eq_ok.mp h
  rw [← registeredChannel_eq hs.wellFormed hregistered]
  have hentry := registeredChannel_eq hs.wellFormed hregistered
  cases registered with
  | none =>
    cases h
    exact .inr ⟨by simp, .refl⟩
  | some channel =>
    simp only [eventRead, eventWrite, show (2 : BitVec 32) &&& 2 ≠ 0 by decide,
      show (2 : BitVec 32) &&& 4 = 0 by decide, ne_eq, not_false_eq_true, not_true_eq_false,
      ↓reduceIte] at h
    obtain ⟨s₁, hread, h⟩ := bind_eq_ok.mp h
    cases h
    cases channel with
    | wakeup =>
      simp only [onChannelReadable, channels, hs.wakeup.1] at hread
      cases hread
      exact .inr ⟨by simp, .refl⟩
    | acceptor =>
      simp only [onChannelReadable, channels, hs.acceptor.1] at hread
      exact .inr ⟨by simp, acts_moves hread⟩
    | connection id =>
      simp only [onChannelReadable, channels, hs.readable, hs.data] at hread
      obtain ⟨effect, heffect, hfinish⟩ := bind_eq_ok.mp hread
      obtain ⟨hfixed, hcases⟩ := handleRead_cases heffect
      split_ifs at hcases with hends
      · have hfd := hs.served fd _ hentry.symm
        exact .inl ⟨id, rfl, hends, finish_closes hfixed hcases hfd hfinish⟩
      · refine .inr ⟨?_, finish_moves hfixed (by simp [hcases.1]) hcases.2 hfinish⟩
        intro id' heq
        exact hends

/-- A writable event closes nothing. -/
theorem active_write (hs : Sane S s) {fd : ℤ} {script : CallScript}
    (h : s.eventLoopActive S fd eventWrite script = .ok s') : Moves S s s' := by
  obtain ⟨registered, -, h⟩ := bind_eq_ok.mp h
  cases registered with
  | none =>
    cases h
    exact .refl
  | some channel =>
    simp only [eventRead, eventWrite, show (4 : BitVec 32) &&& 2 = 0 by decide,
      show (4 : BitVec 32) &&& 4 ≠ 0 by decide, ne_eq, not_false_eq_true, not_true_eq_false,
      ↓reduceIte, ok_bind] at h
    cases channel with
    | wakeup =>
      simp only [onChannelWriteable, channels, hs.wakeup.2] at h
      cases h
      exact .refl
    | acceptor =>
      simp only [onChannelWriteable, channels, hs.acceptor.2] at h
      cases h
      exact .refl
    | connection id =>
      simp only [onChannelWriteable, channels, hs.writeable, hs.data] at h
      obtain ⟨effect, heffect, hfinish⟩ := bind_eq_ok.mp h
      obtain ⟨honly, hposts, hcallback⟩ := handleWrite_cases heffect
      exact finish_moves honly.fixed hposts hcallback hfinish

end LoopState

end OsProgramming.Reactor
