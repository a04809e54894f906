import OsProgramming.Library.Runs
import OsProgramming.Reactor.Dispatch

/-! What becomes of a connection whose descriptor is reported with an error or a
hang-up. The epoll pass closes the descriptor and leaves the connection where it is;
the poll pass ignores the report, and closes the connection if a readable event that
comes with it finds the error. -/

namespace OsProgramming.Reactor

open Library

namespace LoopState

section

variable {δ : Type} {S : Setting δ} {s₀ s s' : LoopState δ} {id : ConnectionId}

/-- The connection is in no entry of the channel map, its descriptor is watched only if
another channel has it now, and its callback has been invoked once. -/
def TornDown (watches : δ → ℤ → Prop) (id : ConnectionId) (s s' : LoopState δ) : Prop :=
  (∀ fd, s'.loop.channelMap.entry fd ≠ some (.connection id)) ∧
    (watches s'.loop.dispatcherData (s.connections id).channel.fd →
      s'.loop.channelMap.entry (s.connections id).channel.fd ≠ none) ∧
    s'.closed.count id = s.closed.count id + 1

/-! ### A connection that is still there -/

variable (S s₀ id) in
/-- Since `s₀`, the connection has kept its entry and its callback has not been invoked. -/
structure Holding (s : LoopState δ) : Prop where
  sane : Sane S s
  fixed : SameFixed s₀ s
  entry : s.loop.channelMap.entry (s₀.connections id).channel.fd = some (.connection id)
  count : s.closed.count id = s₀.closed.count id

namespace Holding

theorem move (h : Holding S s₀ id s) (hmove : Move S s s') : Holding S s₀ id s' := by
  have hgrows := hmove.grows h.sane.wellFormed
  exact ⟨h.sane.move hmove, h.fixed.trans hmove.fixed, hgrows.kept _ _ h.entry,
    hgrows.closed ▸ h.count⟩

/-- The removal of a connection with another descriptor. -/
theorem removes (h : Holding S s₀ id s) {id' : ConnectionId}
    (hne : (s₀.connections id').channel.fd ≠ (s₀.connections id).channel.fd)
    (hremoves : Removes S id' s s') : Holding S s₀ id s' := by
  have hfd : (s.connections id').channel.fd = (s₀.connections id').channel.fd :=
    h.fixed.channel_fd (.connection id')
  obtain ⟨-, hentry⟩ := hremoves.entries h.sane.wellFormed
  refine ⟨h.sane.removes hremoves, h.fixed.trans hremoves.fixed, ?_, ?_⟩
  · rw [hentry, if_neg (hfd ▸ hne.symm)]
    exact h.entry
  · have hid : id' ≠ id := fun heq => hne (heq ▸ rfl)
    rw [hremoves.log.2, List.count_append, h.count]
    split_ifs <;> simp [hid]

end Holding

/-! ### A connection that is gone -/

variable (S id) in
/-- The connection has been removed, and its callback invoked `n` times. -/
structure Gone (n : ℕ) (s : LoopState δ) : Prop where
  sane : Sane S s
  added : .connection id ∈ s.added
  absent : ∀ fd, s.loop.channelMap.entry fd ≠ some (.connection id)
  count : s.closed.count id = n

namespace Gone

variable {n : ℕ}

/-- A channel is added once, so the connection does not come back. -/
theorem move (h : Gone S id n s) (hmove : Move S s s') : Gone S id n s' := by
  have hgrows := hmove.grows h.sane.wellFormed
  refine ⟨h.sane.move hmove, hgrows.added _ h.added, ?_, hgrows.closed ▸ h.count⟩
  intro fd hentry
  rcases hgrows.entries fd _ hentry with hold | ⟨-, hnew, -⟩
  · exact h.absent fd hold
  · exact hnew h.added

theorem removes (h : Gone S id n s) {id' : ConnectionId} (hne : id' ≠ id)
    (hremoves : Removes S id' s s') : Gone S id n s' := by
  obtain ⟨-, hentry⟩ := hremoves.entries h.sane.wellFormed
  refine ⟨h.sane.removes hremoves, hremoves.log.1 ▸ h.added, ?_, ?_⟩
  · intro fd
    rw [hentry]
    split_ifs
    · nofun
    · exact h.absent fd
  · rw [hremoves.log.2, List.count_append, h.count]
    split_ifs <;> simp [hne]

/-- No event is dispatched to the connection any more. -/
theorem activeIf (h : Gone S id n s) {reported : Prop} [Decidable reported] {fd : ℤ}
    {events : Events} (hevents : events = eventRead ∨ events = eventWrite) {script : CallScript}
    (hret : s.activeIf S reported fd events script = .ok s') : Gone S id n s' :=
  activeIf_keeps (fun _ hs => hs.sane) (fun _ _ => move)
    (fun _ _ id' (hne : id' ≠ id) hs => hs.removes hne) hevents h
    (fun _ hentry heq => h.absent fd (heq ▸ hentry)) hret

end Gone

namespace Holding

/-- The connection of a closing callback has the descriptor that was reported. -/
theorem reported (h : Holding S s₀ id s) {id' : ConnectionId} {fd : ℤ}
    (hentry : s.loop.channelMap.entry fd = some (.connection id')) :
    (s₀.connections id').channel.fd = fd :=
  (h.fixed.channel_fd (.connection id')).symm.trans (h.sane.channel_fd fd _ hentry)

theorem moves (h : Holding S s₀ id s) (hmoves : Moves S s s') : Holding S s₀ id s' :=
  hmoves.keeps (fun _ _ => move) h

/-- An event for another descriptor. -/
theorem activeIf (h : Holding S s₀ id s) {reported : Prop} [Decidable reported] {fd : ℤ}
    (hne : fd ≠ (s₀.connections id).channel.fd) {events : Events}
    (hevents : events = eventRead ∨ events = eventWrite) {script : CallScript}
    (hret : s.activeIf S reported fd events script = .ok s') : Holding S s₀ id s' :=
  activeIf_keeps (fun _ hs => hs.sane) (fun _ _ => move)
    (fun _ _ _ hne hs => hs.removes hne) hevents h
    (fun _ hentry => h.reported hentry ▸ hne) hret

/-- The connection is closed. -/
theorem closes (h : Holding S s₀ id s) (hcloses : Closes S id s s') :
    Gone S id
      (s₀.closed.count id + if (s₀.connections id).callbacks.onConnectionClosed then 1 else 0)
      s' := by
  obtain ⟨s₁, s₂, hbefore, hremoves, hafter⟩ := hcloses
  have h₁ := h.moves hbefore
  obtain ⟨-, hentry⟩ := hremoves.entries h₁.sane.wellFormed
  refine hafter.keeps (fun _ _ => Gone.move) ⟨h₁.sane.removes hremoves, ?_, ?_, ?_⟩
  · rw [hremoves.log.1]
    exact h₁.sane.added _ _ h₁.entry
  · intro fd
    rw [hentry]
    split_ifs with hfd
    · nofun
    · exact fun heq => hfd (h₁.sane.channel_fd fd _ heq).symm
  · rw [hremoves.log.2, List.count_append, h₁.count, h₁.fixed.callbacks]
    split_ifs <;> simp

end Holding

end

/-! ### The epoll pass -/

section

variable {E : Setting InterestSet} {s₀ s s' : LoopState InterestSet} {id : ConnectionId}

theorem Holding.epollEntry (h : Holding E s₀ id s) {entry : EpollEvent × PassScript}
    (hentry : entry.1.fd = (s₀.connections id).channel.fd → entry.1.Failed)
    (hret : s.epollEntry E entry = .ok s') : Holding E s₀ id s' := by
  obtain ⟨event, script⟩ := entry
  rw [LoopState.epollEntry] at hret
  split_ifs at hret with hfail
  · cases hret
    exact h.move (.close s event.fd)
  · have hne : event.fd ≠ (s₀.connections id).channel.fd := mt hentry hfail
    obtain ⟨s₁, hread, hwrite⟩ := bind_eq_ok.mp hret
    exact (h.activeIf hne (.inl rfl) hread).activeIf hne (.inr rfl) hwrite

/-- The error branch calls nothing, so the connection stays. -/
theorem Holding.epollDispatch (h : Holding E s₀ id s) {batch : List (EpollEvent × PassScript)}
    (hbatch : ∀ entry ∈ batch, entry.1.fd = (s₀.connections id).channel.fd → entry.1.Failed)
    (hret : s.epollDispatch E batch = .ok s') : Holding E s₀ id s' := by
  induction batch generalizing s with
  | nil => cases hret; exact h
  | cons entry batch ih =>
    obtain ⟨s₁, hentry, hrest⟩ := bind_eq_ok.mp hret
    exact ih (h.epollEntry (hbatch entry List.mem_cons_self) hentry)
      (fun e he => hbatch e (List.mem_cons_of_mem entry he)) hrest

end

end LoopState

end OsProgramming.Reactor
