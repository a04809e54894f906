import OsProgramming.Library.Memory
import OsProgramming.Library.Ring
import OsProgramming.Library.Runs
import Mathlib.Logic.Function.Basic

/-! The queue of `thread_pool_server.c`. The acceptor pushes the descriptors of its
clients and any number of workers pop them; each critical section is one step. -/

namespace OsProgramming.Servers

open Library

structure BlockQueue where
  length : ℕ
  fd : List ℤ
  rear : ℕ
  front : ℕ

def blockQueueInit (queueLength : ℕ) : BlockQueue where
  length := queueLength
  fd := List.replicate queueLength 0
  rear := 0
  front := 0

/-- It is not asked if the queue is full. -/
def blockQueuePush (queue : BlockQueue) (fd : ℤ) : Result BlockQueue := do
  let block ← store queue.fd queue.rear [fd]
  .ok { queue with fd := block, rear := ringNext queue.length queue.rear }

/-- From the test of the loop on; nothing if the worker has to wait. -/
def blockQueuePop (queue : BlockQueue) : Result (Option (ℤ × BlockQueue)) :=
  if queue.front = queue.rear then .ok none
  else do
    let fd ← load queue.fd queue.front
    .ok (some (fd, { queue with front := ringNext queue.length queue.front }))

/-- `waiting` are the workers `T` in `pthread_cond_wait` that nothing has woken yet, and
`pushed` and `popped` what the two functions have been given and have returned. -/
structure ThreadPool (T : Type) where
  queue : BlockQueue
  waiting : T → Bool
  pushed : List ℤ
  popped : List (T × ℤ)

inductive PoolEvent (T : Type) where
  /-- the acceptor pushes a descriptor, and wakes a worker or none -/
  | push (fd : ℤ) (wakes : Option T)
  /-- a worker gets the mutex in `block_queue_pop` -/
  | pop (worker : T)
  /-- a worker wakes up by itself -/
  | wake (worker : T)

namespace ThreadPool

variable {T : Type}

def init (queueLength : ℕ) : ThreadPool T := ⟨blockQueueInit queueLength, fun _ => false, [], []⟩

/-- A worker that waits does not get the mutex. -/
def step [DecidableEq T] (s : ThreadPool T) : PoolEvent T → Result (ThreadPool T)
  | .push fd wakes => do
    let queue ← blockQueuePush s.queue fd
    .ok { s with
      queue
      waiting := wakes.elim s.waiting fun worker => Function.update s.waiting worker false
      pushed := s.pushed ++ [fd] }
  | .pop worker =>
    if s.waiting worker then .ok s
    else do
      let popped ← blockQueuePop s.queue
      match popped with
      | none => .ok { s with waiting := Function.update s.waiting worker true }
      | some (fd, queue) => .ok { s with queue, popped := s.popped ++ [(worker, fd)] }
  | .wake worker => .ok { s with waiting := Function.update s.waiting worker false }

/-- The descriptors that are still in the queue. -/
def queued (s : ThreadPool T) : List ℤ := ringContents s.queue.fd s.queue.front s.queue.rear

/-- What was popped and what is queued is what was pushed, and a worker that begins to
wait has left nothing behind. -/
def Delivers (s : ThreadPool T) (event : PoolEvent T) (s' : ThreadPool T) : Prop :=
  s'.popped.map Prod.snd ++ s'.queued = s'.pushed ∧
    ∀ worker, event = .pop worker → s.waiting worker = false → s'.waiting worker = true →
      s'.popped.map Prod.snd = s'.pushed

/-- A push finds at most `length - 2` descriptors that are not popped yet. -/
def Room (s : ThreadPool T) : PoolEvent T → Prop
  | .push _ _ => s.pushed.length + 1 < s.popped.length + s.queue.length
  | .pop _ => True
  | .wake _ => True

instance (s : ThreadPool T) : (event : PoolEvent T) → Decidable (s.Room event)
  | .push _ _ => inferInstanceAs (Decidable (_ < _))
  | .pop _ => .isTrue trivial
  | .wake _ => .isTrue trivial

/-- The indices are in the ring. -/
structure Bounds (s : ThreadPool T) : Prop where
  two_le : 2 ≤ s.queue.length
  length_eq : s.queue.fd.length = s.queue.length
  front_lt : s.queue.front < s.queue.fd.length
  rear_lt : s.queue.rear < s.queue.fd.length

/-- The ring holds what is not delivered yet. -/
structure Inv (s : ThreadPool T) : Prop extends s.Bounds where
  delivered : s.popped.map Prod.snd ++ s.queued = s.pushed

variable {s s' : ThreadPool T}

theorem Bounds.init {queueLength : ℕ} (h : 2 ≤ queueLength) :
    (init queueLength : ThreadPool T).Bounds := by
  have hlen : (List.replicate queueLength (0 : ℤ)).length = queueLength := List.length_replicate
  have hpos : 0 < (List.replicate queueLength (0 : ℤ)).length := by omega
  exact ⟨h, hlen, hpos, hpos⟩

theorem Inv.init {queueLength : ℕ} (h : 2 ≤ queueLength) :
    (init queueLength : ThreadPool T).Inv :=
  ⟨.init h, ringContents_self (List.replicate queueLength 0) 0⟩

theorem Inv.length_pushed (h : s.Inv) :
    s.pushed.length = s.popped.length + s.queued.length := by
  rw [← h.delivered, List.length_append, List.length_map]

theorem Bounds.push (h : s.Bounds) (fd : ℤ) :
    blockQueuePush s.queue fd = .ok { s.queue with
      fd := s.queue.fd.set s.queue.rear fd
      rear := ringNext s.queue.length s.queue.rear } := by
  rw [blockQueuePush, store_one _ h.rear_lt, ok_bind]

theorem Bounds.pop (h : s.Bounds) (hne : s.queue.front ≠ s.queue.rear) :
    ∃ fd, blockQueuePop s.queue =
        .ok (some (fd, { s.queue with front := ringNext s.queue.length s.queue.front })) ∧
      s.queued = fd :: ringContents s.queue.fd (ringNext s.queue.length s.queue.front)
        s.queue.rear := by
  refine ⟨_, by rw [blockQueuePop, if_neg hne, load_natCast _ h.front_lt, ok_bind], ?_⟩
  rw [queued, ringContents_pop h.front_lt h.rear_lt hne, h.length_eq]

variable [DecidableEq T]

/-- Every step returns. -/
theorem Bounds.step (h : s.Bounds) (event : PoolEvent T) :
    ∃ s', s.step event = .ok s' ∧ s'.Bounds := by
  have hnext : ∀ {i}, i < s.queue.fd.length → ringNext s.queue.length i < s.queue.fd.length := by
    intro i hi
    rw [h.length_eq] at hi ⊢
    exact ringNext_lt hi
  cases event with
  | push fd wakes =>
    refine ⟨_, by rw [ThreadPool.step, h.push fd, ok_bind], ?_⟩
    exact ⟨h.two_le, (List.length_set ..).trans h.length_eq, (List.length_set ..).symm ▸ h.front_lt,
      (List.length_set ..).symm ▸ hnext h.rear_lt⟩
  | pop worker =>
    by_cases hwaiting : s.waiting worker = true
    · exact ⟨s, by rw [ThreadPool.step, if_pos hwaiting], h⟩
    by_cases hempty : s.queue.front = s.queue.rear
    · refine ⟨_, by rw [ThreadPool.step, if_neg hwaiting, blockQueuePop, if_pos hempty, ok_bind], ?_⟩
      exact ⟨h.two_le, h.length_eq, h.front_lt, h.rear_lt⟩
    · obtain ⟨fd, hpop, -⟩ := h.pop hempty
      refine ⟨_, by rw [ThreadPool.step, if_neg hwaiting, hpop, ok_bind], ?_⟩
      exact ⟨h.two_le, h.length_eq, hnext h.front_lt, h.rear_lt⟩
  | wake worker => exact ⟨_, rfl, h.two_le, h.length_eq, h.front_lt, h.rear_lt⟩

/-- With room for the push, the step delivers. -/
theorem Inv.step (h : s.Inv) {event : PoolEvent T} (hroom : s.Room event)
    (hret : s.step event = .ok s') : s'.Inv ∧ s.Delivers event s' := by
  obtain ⟨s'', hs'', hbounds⟩ := h.toBounds.step event
  cases hret.symm.trans hs''
  suffices hdelivers : s.Delivers event s' from ⟨⟨hbounds, hdelivers.1⟩, hdelivers⟩
  cases event with
  | push fd wakes =>
    rw [ThreadPool.step, h.push fd, ok_bind] at hret
    cases hret
    refine ⟨?_, nofun⟩
    have hfree : s.queued.length + 1 < s.queue.fd.length := by
      have := h.length_pushed
      rw [h.length_eq]
      simp only [Room] at hroom
      omega
    show s.popped.map Prod.snd ++ ringContents (s.queue.fd.set s.queue.rear fd) s.queue.front
      (ringNext s.queue.length s.queue.rear) = s.pushed ++ [fd]
    rw [← h.length_eq, ringContents_push h.front_lt h.rear_lt hfree, ← List.append_assoc]
    exact congrArg (· ++ [fd]) h.delivered
  | pop worker =>
    rw [ThreadPool.step] at hret
    split_ifs at hret with hwaiting
    · cases hret
      refine ⟨h.delivered, ?_⟩
      intro worker' heq hnot
      cases heq
      rw [hwaiting] at hnot
      cases hnot
    by_cases hempty : s.queue.front = s.queue.rear
    · rw [blockQueuePop, if_pos hempty, ok_bind] at hret
      cases hret
      have hnone : s.queued = [] := by rw [queued, hempty, ringContents_self]
      have hall := h.delivered
      rw [hnone, List.append_nil] at hall
      exact ⟨h.delivered, fun _ _ _ _ => hall⟩
    · obtain ⟨fd, hpop, hqueued⟩ := h.pop hempty
      rw [hpop, ok_bind] at hret
      cases hret
      refine ⟨?_, ?_⟩
      · have hall := h.delivered
        rw [hqueued] at hall
        rw [List.map_append, List.append_assoc]
        exact hall
      · intro worker' _ hnot hwaits
        exact absurd (hnot.symm.trans hwaits) nofun
  | wake worker =>
    cases hret
    exact ⟨h.delivered, nofun⟩

/-- A push without room makes the ring look empty. -/
theorem Inv.step_full (h : s.Inv) {event : PoolEvent T} (hret : s.step event = .ok s')
    (hroom : ¬ s.Room event) : ¬ s.Delivers event s' := by
  cases event with
  | push fd wakes =>
    rw [ThreadPool.step, h.push fd, ok_bind] at hret
    cases hret
    have hlt : s.queued.length < s.queue.fd.length := ringContents_lt h.front_lt h.rear_lt
    have hcount := h.length_pushed
    have hlen := h.length_eq
    have htwo := h.two_le
    simp only [Room, not_lt] at hroom
    have hfull : s.queued.length + 1 = s.queue.fd.length := by omega
    rintro ⟨hdelivered, -⟩
    change s.popped.map Prod.snd ++ ringContents (s.queue.fd.set s.queue.rear fd) s.queue.front
      (ringNext s.queue.length s.queue.rear) = s.pushed ++ [fd] at hdelivered
    rw [← hlen, ringNext_of_full h.front_lt h.rear_lt hfull, ringContents_self] at hdelivered
    have hcount' := congrArg List.length hdelivered
    simp only [List.length_append, List.length_map, List.length_nil, List.length_singleton] at hcount'
    omega
  | pop worker => exact absurd trivial hroom
  | wake worker => exact absurd trivial hroom

theorem inv_step (s : ThreadPool T) (event : PoolEvent T) (s' : ThreadPool T) (h : s.Inv)
    (hroom : s.Room event) (hret : s.step event = .ok s') : s'.Inv :=
  (h.step hroom hret).1

theorem delivers_iff (s : ThreadPool T) (event : PoolEvent T) (s' : ThreadPool T) (h : s.Inv)
    (hret : s.step event = .ok s') : s.Delivers event s' ↔ s.Room event := by
  constructor
  · intro hdelivers
    by_contra hroom
    exact h.step_full hret hroom hdelivers
  · intro hroom
    exact (h.step hroom hret).2

/-- Every run of the acceptor and the workers returns, and each of its steps delivers if
and only if no push brings the undelivered descriptors to the length of the ring. -/
theorem block_queue_delivers_iff {queueLength : ℕ} (h : 2 ≤ queueLength)
    (events : List (PoolEvent T)) :
    (∃ s, events.foldlM step (init queueLength) = .ok s) ∧
      (EachStep step Delivers (init queueLength) events ↔
        Admissible step Room (init queueLength) events) := by
  have hadm : Admissible step (fun (_ : ThreadPool T) _ => True) (init queueLength) events :=
    admissible_true _ _
  obtain ⟨s, hrun, -⟩ := foldlM_ok (fun s event hbounds _ => hbounds.step event) (Bounds.init h) hadm
  exact ⟨⟨s, hrun⟩, eachStep_iff inv_step delivers_iff (.init h) hrun⟩

/-- Two clients of a ring of two cells, while no worker is free. -/
theorem block_queue_loses :
    ∃ s : ThreadPool Unit,
      [.push 4 none, .push 5 none, .pop ()].foldlM step (init 2) = .ok s ∧
      s.pushed = [4, 5] ∧ s.popped = [] ∧ s.queued = [] ∧ s.waiting () = true ∧
      ¬ EachStep step Delivers (init 2 : ThreadPool Unit) [.push 4 none, .push 5 none, .pop ()] := by
  refine ⟨_, rfl, rfl, rfl, rfl, rfl, ?_⟩
  rw [eachStep_iff inv_step delivers_iff (.init le_rfl) rfl]
  decide

theorem block_queue_delivers_iff_two :
    EachStep step Delivers (init 2 : ThreadPool Unit) [.push 4 none, .pop (), .push 5 none] := by
  refine (block_queue_delivers_iff le_rfl _).2.mpr ?_
  decide

end ThreadPool

end OsProgramming.Servers
