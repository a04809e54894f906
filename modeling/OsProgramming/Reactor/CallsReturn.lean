import OsProgramming.Library.Progress
import OsProgramming.Reactor.PendingOrder
import Mathlib.Algebra.Order.BigOperators.Group.Finset

/-! The calls of `event_loop_do_channel_event` return. The mutex is not held across anything
that waits, so the thread that holds it can move on, and each statement leaves less to do:
fewer statements of the threads, or fewer operations for the handlers. The only place to
wait is the byte of a wake-up, when nobody has read those before it and the socketpair is
full. -/

namespace OsProgramming.Reactor

open Library

/-- The statements that a thread has before it, as far as they do not depend on the queue; one
more for the operation that it will queue. -/
def Thread.weight {κ : Type*} : Thread κ → ℕ
  | .outside => 0
  | .doChannelEvent (.lock _) => 7
  | .doChannelEvent (.enqueue _) => 5
  | .doChannelEvent .unlock => 4
  | .doChannelEvent .wakeup => 1
  | .handlePendingChannel .lock => 3
  | .handlePendingChannel (.visit _) => 2
  | .handlePendingChannel .unlock => 1

namespace System

variable {T κ ρ : Type*} {handler : ρ → PendingOp κ → ρ} {r₀ : ρ} {owner t : T}
  {s s' : System T κ ρ} {nodes : List (ℕ × PendingOp κ)}

/-- The operations that the handlers have not been given. -/
def backlog (s : System T κ ρ) : ℕ := s.acquired.length - s.handed.length

/-- The statements before all threads, and the operations before the handlers. -/
def rank [Fintype T] (s : System T κ ρ) : ℕ := ∑ t, (s.threads t).weight + s.backlog

/-- The `write` of the thread finds no room in a socketpair that holds `room` bytes. -/
def WaitsToWrite (room : ℕ) (s : System T κ ρ) (t : T) : Prop :=
  s.threads t = .doChannelEvent .wakeup ∧ room ≤ s.unread

theorem rank_le [Fintype T] (s : System T κ ρ) : s.rank ≤ 7 * Fintype.card T + s.backlog := by
  have hweight : ∀ t ∈ Finset.univ, (s.threads t).weight ≤ 7 := by
    intro t _
    cases s.threads t with
    | outside => exact Nat.zero_le 7
    | doChannelEvent next => cases next <;> simp [Thread.weight]
    | handlePendingChannel next => cases next <;> simp [Thread.weight]
  refine Nat.add_le_add_right ?_ _
  rw [Nat.mul_comm]
  exact Finset.sum_le_card_nsmul _ _ 7 hweight

theorem Inv.handed_le (h : Inv handler r₀ s nodes) : s.handed.length ≤ s.acquired.length := by
  obtain ⟨rest, -, horder⟩ := h.order
  rw [horder, List.append_assoc, List.length_append]
  exact Nat.le_add_right _ _

theorem Inv.mutex_free (h : Inv handler r₀ s nodes) {room : ℕ}
    (hout : ∀ t, s.threads t = .outside ∨ s.WaitsToWrite room t) : s.mutex = none := by
  by_contra hheld
  obtain ⟨t, ht⟩ := Option.ne_none_iff_exists'.mp hheld
  have hlocks := (h.locks t).mpr ht
  rcases hout t with hout | ⟨hwaits, -⟩
  · rw [hout] at hlocks
    exact hlocks
  · rw [hwaits] at hlocks
    exact hlocks

variable [DecidableEq T]

/-- A step of threads whose socketpair holds `room` bytes. -/
def stepWithin (room : ℕ) (handler : ρ → PendingOp κ → ρ) (owner : T) (s : System T κ ρ) :
    Action T κ → Option (System T κ ρ)
  | .advance t =>
    match s.threads t with
    | .doChannelEvent .wakeup => if room ≤ s.unread then none else step handler owner s (.advance t)
    | _ => step handler owner s (.advance t)
  | action => step handler owner s action

theorem step_of_stepWithin {room : ℕ} {action : Action T κ}
    (h : stepWithin room handler owner s action = some s') : step handler owner s action = some s' := by
  cases action with
  | advance t =>
    simp only [stepWithin] at h
    split at h
    · split_ifs at h
      exact h
    · exact h
  | run | dispatch | readWakeup | finish | call => exact h

theorem stepWithin_eq_none (room : ℕ) (s : System T κ ρ) (t : T) :
    stepWithin room handler owner s (.advance t) = none ↔
      s.WaitsToWrite room t ∨ step handler owner s (.advance t) = none := by
  simp only [stepWithin, WaitsToWrite]
  split
  next ht =>
    rw [ht, eq_self, true_and]
    by_cases hfull : room ≤ s.unread
    · simp [hfull]
    · simp [hfull]
  next hnot => exact (or_iff_right fun h => hnot h.1).symm

theorem reaches_of_within {room : ℕ} (h : Reaches (stepWithin room handler owner) (init r₀) s) :
    Reaches (step handler owner) (init r₀) s :=
  h.invariant (Reaches (step handler owner) (init r₀)) .refl
    fun _ action _ hreach hstep => hreach.tail ⟨action, step_of_stepWithin hstep⟩

/-! ### Who writes -/

theorem goto_wakeup {b : System T κ ρ} {next : Thread κ} (hthreads : b.threads = s.threads)
    (hnext : next = .doChannelEvent .wakeup → t ≠ owner)
    (h : ∀ t, s.threads t = .doChannelEvent .wakeup → t ≠ owner) (t' : T)
    (ht' : (b.goto t next).threads t' = .doChannelEvent .wakeup) : t' ≠ owner := by
  by_cases heq : t' = t
  · subst heq
    exact hnext (by simpa using ht')
  · rw [goto_threads_of_ne b next heq, hthreads] at ht'
    exact h t' ht'

/-- The owner handles the queue itself. -/
theorem Moves.wakes_other (hmove : Moves handler owner s s')
    (h : ∀ t, s.threads t = .doChannelEvent .wakeup → t ≠ owner) (t : T)
    (ht : s'.threads t = .doChannelEvent .wakeup) : t ≠ owner := by
  cases hmove with
  | run | dispatch | readWakeup | assertFails | enqueueFails | derefFails => exact h t ht
  | finish | call | lock | enqueue | wakeup | passLock | visit | reset | passUnlock =>
    refine goto_wakeup rfl ?_ h t ht
    exact nofun
  | unlock t' =>
    refine goto_wakeup rfl ?_ h t ht
    split_ifs with hown
    · exact nofun
    · exact fun _ => hown

theorem reaches_wakes_other (h : Reaches (step handler owner) (init r₀) s) (t : T)
    (ht : s.threads t = .doChannelEvent .wakeup) : t ≠ owner := by
  revert t
  apply h.invariant (fun s => ∀ t, s.threads t = .doChannelEvent .wakeup → t ≠ owner) nofun
  intro s action s' hinv hstep
  exact (step_moves hstep).2.wakes_other hinv

/-! ### What a statement leaves -/

theorem weight_doChannelEvent {next : Call κ} (h : Inv handler r₀ s nodes) (hfault : s'.fault = none)
    (hstep : eventLoopDoChannelEvent owner t s next = some s') :
    ∃ next', s'.threads = Function.update s.threads t next' ∧
      next'.weight + s'.backlog < (Thread.doChannelEvent next).weight + s.backlog := by
  cases next with
  | lock op =>
    simp only [eventLoopDoChannelEvent] at hstep
    split_ifs at hstep
    cases hstep
    refine ⟨_, rfl, ?_⟩
    have := h.handed_le
    simp only [Thread.weight, backlog, goto, List.length_append, List.length_singleton]
    omega
  | enqueue op =>
    simp only [eventLoopDoChannelEvent] at hstep
    split_ifs at hstep
    · cases hstep
      cases hfault
    · split at hstep
      · cases hstep
        cases hfault
      · cases hstep
        exact ⟨_, rfl, Nat.add_lt_add_right (by decide : 4 < 5) _⟩
  | unlock =>
    cases hstep
    refine ⟨_, rfl, Nat.add_lt_add_right ?_ _⟩
    split_ifs
    · exact (by decide : 3 < 4)
    · exact (by decide : 1 < 4)
  | wakeup =>
    cases hstep
    exact ⟨_, rfl, Nat.add_lt_add_right (by decide : 0 < 1) _⟩

theorem weight_handlePendingChannel {next : Pass} {nodes' : List (ℕ × PendingOp κ)}
    (h' : Inv handler r₀ s' nodes')
    (hstep : eventLoopHandlePendingChannel handler t s next = some s') :
    ∃ next', s'.threads = Function.update s.threads t next' ∧
      next'.weight + s'.backlog < (Thread.handlePendingChannel next : Thread κ).weight + s.backlog := by
  cases next with
  | lock =>
    simp only [eventLoopHandlePendingChannel] at hstep
    split_ifs at hstep
    cases hstep
    exact ⟨_, rfl, Nat.add_lt_add_right (by decide : 2 < 3) _⟩
  | visit node =>
    cases node with
    | none =>
      cases hstep
      exact ⟨_, rfl, Nat.add_lt_add_right (by decide : 1 < 2) _⟩
    | some node =>
      simp only [eventLoopHandlePendingChannel] at hstep
      split at hstep
      · cases hstep
        cases h'.fault
      · cases hstep
        -- the operation leaves the backlog
        refine ⟨_, rfl, Nat.add_lt_add_left ?_ 2⟩
        have hle := h'.handed_le
        simp only [backlog, goto, List.length_append, List.length_singleton] at hle ⊢
        omega
  | unlock =>
    cases hstep
    exact ⟨_, rfl, Nat.add_lt_add_right (by decide : 0 < 1) _⟩

/-- A statement of a thread in a call: what it adds to the backlog, the thread has less before
it. -/
theorem weight_advance (h : Inv handler r₀ s nodes)
    (hstep : step handler owner s (.advance t) = some s') :
    ∃ next, s'.threads = Function.update s.threads t next ∧
      next.weight + s'.backlog < (s.threads t).weight + s.backlog := by
  obtain ⟨nodes', h'⟩ := h.moves (step_moves hstep).2
  simp only [step, if_pos h.fault, move] at hstep
  split at hstep
  next => cases hstep
  next next ht => exact ht ▸ weight_doChannelEvent h h'.fault hstep
  next next ht => exact ht ▸ weight_handlePendingChannel h' hstep

/-- A thread cannot move on outside of its calls, or when another one holds the mutex that it
needs. -/
theorem advance_eq_none (hfault : s.fault = none)
    (hnone : step handler owner s (.advance t) = none) :
    s.threads t = .outside ∨ ¬ (s.threads t).Locks ∧ s.mutex ≠ none := by
  simp only [step, if_pos hfault, move] at hnone
  split at hnone
  next ht => exact .inl ht
  next next ht =>
    refine .inr ?_
    rw [ht]
    cases next with
    | lock op =>
      simp only [eventLoopDoChannelEvent] at hnone
      split_ifs at hnone with hmutex
      exact ⟨id, hmutex⟩
    | enqueue op =>
      simp only [eventLoopDoChannelEvent] at hnone
      split_ifs at hnone
      split at hnone <;> cases hnone
    | unlock => cases hnone
    | wakeup => cases hnone
  next next ht =>
    refine .inr ?_
    rw [ht]
    cases next with
    | lock =>
      simp only [eventLoopHandlePendingChannel] at hnone
      split_ifs at hnone with hmutex
      exact ⟨id, hmutex⟩
    | visit node =>
      cases node with
      | none => cases hnone
      | some node =>
        simp only [eventLoopHandlePendingChannel] at hnone
        split at hnone <;> cases hnone
    | unlock => cases hnone

/-- The thread that holds the mutex can move on, and if nobody does, every thread can, unless
it has a byte to write and finds no room. -/
theorem Inv.stuck_iff (h : Inv handler r₀ s nodes) (room : ℕ) :
    (∀ t, stepWithin room handler owner s (.advance t) = none) ↔
      ∀ t, s.threads t = .outside ∨ s.WaitsToWrite room t := by
  simp only [stepWithin_eq_none]
  constructor
  · intro hstuck
    have hmutex : s.mutex = none := by
      by_contra hheld
      obtain ⟨t, ht⟩ := Option.ne_none_iff_exists'.mp hheld
      have hlocks := (h.locks t).mpr ht
      rcases hstuck t with ⟨hwaits, -⟩ | hnone
      · rw [hwaits] at hlocks
        exact hlocks
      rcases advance_eq_none h.fault hnone with hout | ⟨hnot, -⟩
      · rw [hout] at hlocks
        exact hlocks
      · exact hnot hlocks
    intro t
    rcases hstuck t with hwaits | hnone
    · exact .inr hwaits
    rcases advance_eq_none h.fault hnone with hout | ⟨-, hheld⟩
    · exact .inl hout
    · exact absurd hmutex hheld
  · intro hout t
    rcases hout t with hout | hwaits
    · exact .inr (by simp [step, move, hout])
    · exact .inl hwaits

variable [Fintype T]

theorem rank_advance (h : Inv handler r₀ s nodes)
    (hstep : step handler owner s (.advance t) = some s') : s'.rank < s.rank := by
  obtain ⟨next, hthreads, hweight⟩ := weight_advance h hstep
  have hsum := sum_update Thread.weight s.threads (Finset.mem_univ t) next
  rw [rank, rank, hthreads]
  omega

/-- From every reachable state on, however the threads take turns, those that are in
`event_loop_do_channel_event` and the owner in its pass make at most seven statements a
thread, and one more for each operation that is not handled yet. They only stop when each of
them is outside, or, not being the owner, has the byte of a wake-up to write and finds the
socketpair full; and the mutex is free then. -/
theorem calls_return {room : ℕ} (h : Reaches (stepWithin room handler owner) (init r₀) s)
    {turns : List T}
    (hpath : turns.foldlM (fun s t => stepWithin room handler owner s (.advance t)) s = some s') :
    turns.length ≤ 7 * Fintype.card T + s.backlog ∧
      ((∀ t, stepWithin room handler owner s' (.advance t) = none) ↔
        ∀ t, s'.threads t = .outside ∨ s'.WaitsToWrite room t) ∧
      ((∀ t, s'.threads t = .outside ∨ s'.WaitsToWrite room t) → s'.mutex = none) ∧
      ∀ t, s'.WaitsToWrite room t → t ≠ owner := by
  let advance (s : System T κ ρ) (t : T) := stepWithin room handler owner s (.advance t)
  let inv (s : System T κ ρ) := Reaches (step handler owner) (init r₀) s
  have hkeeps : ∀ s t s', inv s → advance s t = some s' → inv s' := by
    intro s t s' hreach hstep
    exact hreach.tail ⟨.advance t, step_of_stepWithin hstep⟩
  have hworks : ∀ s t s', inv s → advance s t = some s' → ¬ False → s'.rank < s.rank := by
    rintro s t s' hreach hstep -
    obtain ⟨nodes, hinv⟩ := reaches_inv hreach
    exact rank_advance hinv (step_of_stepWithin hstep)
  have hreach := reaches_of_within h
  have hrank := rank_path (k := 0) hkeeps hworks (fun _ _ _ _ _ => False.elim) hreach hpath
  have hreach' : inv s' := foldlM_invariant hkeeps hreach hpath
  obtain ⟨nodes, hinv⟩ := reaches_inv hreach'
  refine ⟨?_, hinv.stuck_iff room, hinv.mutex_free, fun t ht => reaches_wakes_other hreach' t ht.1⟩
  have hle := s.rank_le
  simp only [not_false_eq_true, decide_true, List.countP_true, Nat.zero_mul] at hrank
  omega

/-- A thread posts two operations, and the socketpair holds the byte of the first one only. -/
theorem calls_return_two :
    ∃ s s' : System Bool ℕ (List ℕ),
      [.call false ⟨.add, 5⟩, .advance false, .advance false, .advance false, .advance false,
        .call false ⟨.add, 6⟩].foldlM (stepWithin 1 (fun r op => r ++ [op.channel]) true) (init []) =
          some s ∧
      [false, false, false].foldlM
        (fun s t => stepWithin 1 (fun r op => r ++ [op.channel]) true s (.advance t)) s = some s' ∧
      (∀ t, stepWithin 1 (fun r op => r ++ [op.channel]) true s' (.advance t) = none) ∧
      s'.mutex = none := by
  obtain ⟨s, hrun, s', hpath, hout, hwaits⟩ : ∃ s : System Bool ℕ (List ℕ),
      [.call false ⟨.add, 5⟩, .advance false, .advance false, .advance false, .advance false,
        .call false ⟨.add, 6⟩].foldlM (stepWithin 1 (fun r op => r ++ [op.channel]) true) (init []) =
          some s ∧
      ∃ s', [false, false, false].foldlM
        (fun s t => stepWithin 1 (fun r op => r ++ [op.channel]) true s (.advance t)) s = some s' ∧
      s'.threads true = .outside ∧ s'.WaitsToWrite 1 false :=
    ⟨_, rfl, _, rfl, rfl, rfl, le_rfl⟩
  obtain ⟨-, hstuck, hfree, -⟩ := calls_return (Reaches.of_foldlM hrun) hpath
  have hstopped (t : Bool) : s'.threads t = .outside ∨ s'.WaitsToWrite 1 t := by
    cases t with
    | false => exact .inr hwaits
    | true => exact .inl hout
  exact ⟨s, s', hrun, hpath, hstuck.mpr hstopped, hfree hstopped⟩

end System

end OsProgramming.Reactor
