import OsProgramming.Reactor.PendingOrder

/-! No wake-up is lost. A byte is read in a pass of callbacks, and the pass ends with
the queue handled; an operation queued after that has its byte still to come, or in
the socketpair. -/

namespace OsProgramming.Reactor

open Library

namespace System

variable {T κ ρ : Type*} {handler : ρ → PendingOp κ → ρ} {r₀ : ρ} {owner t : T}
  {s s' : System T κ ρ}

/-- The thread has queued an operation and not yet written its byte. -/
def Notifies (owner : T) (s : System T κ ρ) (t : T) : Prop :=
  t ≠ owner ∧
    (s.threads t = .doChannelEvent .unlock ∨ s.threads t = .doChannelEvent .wakeup)

/-- The owner will not look at the queue again before it waits. -/
def Quiet (owner : T) (s : System T κ ρ) : Prop :=
  s.phase = .waiting ∨ s.phase = .starting ∧ s.threads owner = .outside ∨
    s.threads owner = .handlePendingChannel .unlock

/-- An operation in the queue has a byte, or a thread that will write one. -/
def Announced (owner : T) (s : System T κ ρ) : Prop :=
  s.pending.head ≠ none → 0 < s.unread ∨ ∃ t, Notifies owner s t

structure WakeInv (owner : T) (s : System T κ ρ) : Prop where
  asleep : s.phase = .waiting → s.threads owner = .outside
  passes : ∀ t next, s.threads t = .handlePendingChannel next → t = owner
  announced : Quiet owner s → Announced owner s

theorem WakeInv.awake (h : WakeInv owner s) (hout : s.threads t ≠ .outside) :
    t = owner → s.phase ≠ .waiting := by
  rintro rfl hphase
  exact hout (h.asleep hphase)

theorem not_notifies (hunlock : s.threads t ≠ .doChannelEvent .unlock)
    (hwakeup : s.threads t ≠ .doChannelEvent .wakeup) : ¬ Notifies owner s t :=
  fun h => h.2.elim hunlock hwakeup

theorem not_quiet_of_callbacks {wakeup : Bool} (hphase : s.phase = .callbacks wakeup)
    (howner : s.threads owner = .outside) : ¬ Quiet owner s := by
  rintro (hw | ⟨hs, -⟩ | hu)
  · rw [hphase] at hw
    cases hw
  · rw [hphase] at hs
    cases hs
  · rw [howner] at hu
    cases hu

theorem wakeInv_init : WakeInv owner (init r₀ : System T κ ρ) :=
  ⟨nofun, nofun, fun _ hne => absurd rfl hne⟩

variable [DecidableEq T]

/-! ### One thread moves on -/

section

variable {b : System T κ ρ} {next : Thread κ}

theorem not_quiet_goto (hphase : b.phase ≠ .waiting) (hout : next ≠ .outside)
    (hunlock : next ≠ .handlePendingChannel .unlock) : ¬ Quiet owner (b.goto owner next) := by
  rintro (hw | ⟨-, ho⟩ | hu)
  · exact hphase hw
  · exact hout (by simpa using ho)
  · exact hunlock (by simpa using hu)

theorem Quiet.of_goto (hphase : b.phase = s.phase) (hthreads : b.threads = s.threads)
    (hne : owner ≠ t) (h : Quiet owner (b.goto t next)) : Quiet owner s := by
  unfold Quiet at h ⊢
  rw [goto_threads_of_ne b next hne, hthreads] at h
  rw [← hphase]
  exact h

/-- What announces the queue is not touched by a thread that notifies nobody. -/
theorem Announced.goto (hhead : b.pending.head = s.pending.head) (hunread : b.unread = s.unread)
    (hthreads : b.threads = s.threads) (ht : ¬ Notifies owner s t) (h : Announced owner s) :
    Announced owner (b.goto t next) := by
  intro hne
  rcases h (hhead ▸ hne) with hpos | ⟨t', hn⟩
  · exact .inl (by rw [← hunread] at hpos; exact hpos)
  · refine .inr ⟨t', hn.1, ?_⟩
    have ht' : t' ≠ t := fun heq => ht (heq ▸ hn)
    rw [goto_threads_of_ne b next ht', hthreads]
    exact hn.2

/-- Only the owner gets to handle the queue. -/
theorem WakeInv.passes_goto (h : WakeInv owner s) (hthreads : b.threads = s.threads)
    (hpass : ∀ pass, next = .handlePendingChannel pass → t = owner) (t' : T) (pass : Pass)
    (hp : (b.goto t next).threads t' = .handlePendingChannel pass) : t' = owner := by
  by_cases ht : t' = t
  · subst ht
    exact hpass pass (by simpa using hp)
  · rw [goto_threads_of_ne b next ht, hthreads] at hp
    exact h.passes t' pass hp

theorem WakeInv.goto (h : WakeInv owner s) (hphase : b.phase = s.phase)
    (hthreads : b.threads = s.threads) (hawake : t = owner → s.phase ≠ .waiting)
    (hpass : ∀ pass, next = .handlePendingChannel pass → t = owner)
    (hannounced : Quiet owner (b.goto t next) → Announced owner (b.goto t next)) :
    WakeInv owner (b.goto t next) := by
  refine ⟨?_, h.passes_goto hthreads hpass, hannounced⟩
  intro hw
  have hne : owner ≠ t := fun heq => hawake heq.symm (hphase.symm.trans hw)
  rw [goto_threads_of_ne b next hne, hthreads]
  exact h.asleep (hphase.symm.trans hw)

/-- A thread that changes neither the queue nor the socketpair. -/
theorem WakeInv.goto_silent (h : WakeInv owner s) (hphase : b.phase = s.phase)
    (hthreads : b.threads = s.threads) (hhead : b.pending.head = s.pending.head)
    (hunread : b.unread = s.unread) (hawake : t = owner → s.phase ≠ .waiting)
    (hpass : ∀ pass, next = .handlePendingChannel pass → t = owner) (ht : ¬ Notifies owner s t)
    (hout : next ≠ .outside) (hunlock : next ≠ .handlePendingChannel .unlock) :
    WakeInv owner (b.goto t next) := by
  apply h.goto hphase hthreads hawake hpass
  intro hquiet
  by_cases hown : t = owner
  · subst hown
    exact absurd hquiet (not_quiet_goto (hphase ▸ hawake rfl) hout hunlock)
  · exact (h.announced (hquiet.of_goto hphase hthreads (Ne.symm hown))).goto hhead hunread
      hthreads ht

end

/-! ### Runs -/

theorem WakeInv.moves (h : WakeInv owner s) (hmove : Moves handler owner s s') :
    WakeInv owner s' := by
  cases hmove with
  | run hphase howner =>
    exact ⟨fun _ => howner, h.passes, fun _ => h.announced (.inr (.inl ⟨hphase, howner⟩))⟩
  | dispatch wakeup hphase =>
    refine ⟨nofun, h.passes, ?_⟩
    intro hquiet
    exact absurd hquiet (not_quiet_of_callbacks rfl (h.asleep hphase))
  | readWakeup hphase howner =>
    refine ⟨nofun, h.passes, ?_⟩
    intro hquiet
    exact absurd hquiet (not_quiet_of_callbacks rfl howner)
  | finish hphase howner =>
    refine ⟨nofun, h.passes_goto rfl fun _ _ => rfl, ?_⟩
    intro hquiet
    exact absurd hquiet (not_quiet_goto nofun nofun nofun)
  | call t op ht hcall =>
    refine h.goto_silent rfl rfl rfl rfl ?_ nofun
      (not_notifies (by simp [ht]) (by simp [ht])) nofun nofun
    intro hown hw
    rcases hcall hown with hs | ⟨wakeup, hc⟩
    · rw [hs] at hw; cases hw
    · rw [hc] at hw; cases hw
  | lock t op ht _ =>
    exact h.goto_silent rfl rfl rfl rfl (h.awake (by simp [ht])) nofun
      (not_notifies (by simp [ht]) (by simp [ht])) nofun nofun
  | assertFails => exact ⟨h.asleep, h.passes, h.announced⟩
  | enqueueFails => exact ⟨h.asleep, h.passes, h.announced⟩
  | enqueue t op pending ht _ =>
    have hawake := h.awake (t := t) (by simp [ht])
    refine h.goto rfl rfl hawake nofun ?_
    intro hquiet hne
    by_cases hown : t = owner
    · subst hown
      exact absurd hquiet (not_quiet_goto (hawake rfl) nofun nofun)
    · exact .inr ⟨t, hown, .inl (by simp)⟩
  | unlock t ht =>
    have hawake := h.awake (t := t) (by simp [ht])
    by_cases hown : t = owner
    · subst hown
      refine h.goto rfl rfl hawake (fun _ _ => rfl) ?_
      intro hquiet
      exact absurd hquiet (not_quiet_goto (hawake rfl) (by simp) (by simp))
    · refine h.goto rfl rfl hawake (by simp [hown]) ?_
      intro _ _
      exact .inr ⟨t, hown, .inr (by simp [hown])⟩
  | wakeup t ht =>
    exact h.goto rfl rfl (h.awake (by simp [ht])) nofun fun _ _ => .inl (Nat.succ_pos _)
  | passLock t ht _ =>
    exact h.goto_silent rfl rfl rfl rfl (h.awake (by simp [ht])) (fun _ _ => h.passes t _ ht)
      (not_notifies (by simp [ht]) (by simp [ht])) nofun nofun
  | derefFails => exact ⟨h.asleep, h.passes, h.announced⟩
  | visit t node cell ht _ =>
    exact h.goto_silent rfl rfl rfl rfl (h.awake (by simp [ht])) (fun _ _ => h.passes t _ ht)
      (not_notifies (by simp [ht]) (by simp [ht])) nofun nofun
  | reset t ht =>
    exact h.goto rfl rfl (h.awake (by simp [ht])) (fun _ _ => h.passes t _ ht)
      fun _ hne => absurd rfl hne
  | passUnlock t ht =>
    obtain rfl : t = owner := h.passes t _ ht
    refine ⟨fun _ => by simp, h.passes_goto rfl fun _ _ => rfl, ?_⟩
    intro _
    exact (h.announced (.inr (.inr ht))).goto rfl rfl rfl fun hn => hn.1 rfl

theorem reaches_wakeInv (h : Reaches (step handler owner) (init r₀) s) : WakeInv owner s := by
  apply h.invariant (WakeInv owner) wakeInv_init
  intro s action s' hinv hstep
  exact hinv.moves (step_moves hstep).2

/-- A thread that notifies writes its byte without any help. -/
theorem Notifies.writes (h : Notifies owner s t) (hfault : s.fault = none)
    (hw : s.phase = .waiting) :
    ∃ s', Reaches (step handler owner) s s' ∧ s'.phase = .waiting ∧ 0 < s'.unread := by
  obtain ⟨hne, hunlock | hwakeup⟩ := h
  · refine ⟨{ { s with mutex := none }.goto t (.doChannelEvent .wakeup) with
      unread := s.unread + 1 }.goto t .outside, ?_, hw, Nat.succ_pos _⟩
    have hfirst : step handler owner s (.advance t) =
        some ({ s with mutex := none }.goto t (.doChannelEvent .wakeup)) := by
      simp [step, move, hfault, hunlock, eventLoopDoChannelEvent, hne]
    refine .head ⟨.advance t, hfirst⟩ (.single ⟨.advance t, ?_⟩)
    simp only [step, move, goto_threads_self]
    exact if_pos hfault
  · refine ⟨{ s with unread := s.unread + 1 }.goto t .outside, .single ⟨.advance t, ?_⟩, hw,
      Nat.succ_pos _⟩
    simp [step, move, hfault, hwakeup, eventLoopDoChannelEvent]

/-- In every reachable state in which the loop waits and the queue is not empty, a
byte is unread or a thread that has queued an operation will write one; and without
any step of the loop a byte arrives. -/
theorem no_lost_wakeup (h : Reaches (step handler owner) (init r₀) s) (hw : s.phase = .waiting)
    (hqueued : s.pending.head ≠ none) :
    (0 < s.unread ∨ ∃ t, t ≠ owner ∧
      (s.threads t = .doChannelEvent .unlock ∨ s.threads t = .doChannelEvent .wakeup)) ∧
    ∃ s', Reaches (step handler owner) s s' ∧ s'.phase = .waiting ∧ 0 < s'.unread := by
  have hannounced := (reaches_wakeInv h).announced (.inl hw) hqueued
  refine ⟨hannounced, ?_⟩
  rcases hannounced with hpos | ⟨t, hn⟩
  · exact ⟨s, .refl, hw, hpos⟩
  · obtain ⟨nodes, hinv⟩ := reaches_inv h
    exact hn.writes hinv.fault hw

/-- A thread has queued an operation while the loop waits. -/
theorem no_lost_wakeup_queued :
    ∃ s : System Bool ℕ (List ℕ),
      [.run, .call false ⟨.add, 5⟩, .advance false, .advance false].foldlM
        (step (fun r op => r ++ [op.channel]) true) (init []) = some s ∧ s.unread = 0 ∧
      (0 < s.unread ∨ ∃ t, t ≠ true ∧
        (s.threads t = .doChannelEvent .unlock ∨ s.threads t = .doChannelEvent .wakeup)) := by
  obtain ⟨s, hrun, hunread, hphase, hqueued⟩ : ∃ s : System Bool ℕ (List ℕ),
      [.run, .call false ⟨.add, 5⟩, .advance false, .advance false].foldlM
        (step (fun r op => r ++ [op.channel]) true) (init []) = some s ∧ s.unread = 0 ∧
      s.phase = .waiting ∧ s.pending.head ≠ none := ⟨_, rfl, rfl, rfl, nofun⟩
  exact ⟨s, hrun, hunread, (no_lost_wakeup (Reaches.of_foldlM hrun) hphase hqueued).1⟩

end System

end OsProgramming.Reactor
