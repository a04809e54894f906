import OsProgramming.Library.Progress
import OsProgramming.Reactor.TcpServer

/-! The start of the threads, `event_loop_thread.c`. The main thread creates them one after
the other, and waits on the condition variable of each until its loop is there. Every
statement of the two threads is a step, and a wait may end by itself. -/

namespace OsProgramming.Reactor

open Library

/-- Who holds the mutex of an `event_loop_thread`. -/
inductive Party where
  | main
  | child
  deriving DecidableEq

/-- The fields that the two threads share. -/
structure EventLoopThread where
  loop : Option LoopId
  mutex : Option Party

def eventLoopThreadInit : EventLoopThread := ⟨none, none⟩

/-- The next statement of `event_loop_thread_run`. -/
inductive ThreadRun where
  /-- the thread does not exist yet -/
  | absent
  /-- `pthread_create` has failed -/
  | refused
  | lock
  | initLoop
  | signal
  | unlock
  /-- in `event_loop_run` -/
  | running
  deriving DecidableEq

/-- The next statement of the main thread in the round of one thread. -/
inductive ThreadStart where
  | init
  | create
  | lock
  | test
  /-- in `pthread_cond_wait`, which nothing has ended yet -/
  | waiting
  /-- in `pthread_cond_wait`, which needs the mutex to return -/
  | relock
  | unlock
  deriving DecidableEq

/-- The main thread in the loop of `thread_pool_start`. -/
inductive MainThread where
  | starting (i : ℕ) (next : ThreadStart)
  | returned
  deriving DecidableEq

structure PoolStart where
  threadNumber : ℤ
  threads : ℕ → EventLoopThread
  children : ℕ → ThreadRun
  main : MainThread

inductive StartAction where
  /-- the main thread moves on; only `pthread_create` looks at `fails` -/
  | main (fails : Bool)
  | child (i : ℕ)
  /-- the wait of the main thread ends by itself -/
  | wake
  deriving DecidableEq

/-- The thread is between `pthread_mutex_lock` and `pthread_mutex_unlock`. -/
def ThreadRun.holds (run : ThreadRun) : Bool := run = .initLoop ∨ run = .signal ∨ run = .unlock

/-- The thread has assigned its loop. -/
def ThreadRun.published (run : ThreadRun) : Bool := run = .signal ∨ run = .unlock ∨ run = .running

/-- The main thread has the mutex. -/
def ThreadStart.holds (next : ThreadStart) : Bool := next = .test ∨ next = .unlock

namespace PoolStart

/-- `threads` is fresh from `malloc`. -/
def init (threadNumber : ℤ) (threads : ℕ → EventLoopThread) : PoolStart where
  threadNumber := threadNumber
  threads := threads
  children := fun _ => .absent
  main := if threadNumber ≤ 0 then .returned else .starting 0 .init

def setThread (s : PoolStart) (i : ℕ) (thread : EventLoopThread) : PoolStart :=
  { s with threads := Function.update s.threads i thread }

def setChild (s : PoolStart) (i : ℕ) (run : ThreadRun) : PoolStart :=
  { s with children := Function.update s.children i run }

/-- What the main thread does after the round of a thread. -/
def nextRound (s : PoolStart) (i : ℕ) : MainThread :=
  if (i + 1 : ℤ) < s.threadNumber then .starting (i + 1) .init else .returned

/-- `pthread_cond_signal` of the thread `i`, and a wait that ends by itself: only the main
thread waits. -/
def signalled (i : ℕ) (main : MainThread) : MainThread :=
  if main = .starting i .waiting then .starting i .relock else main

def eventLoopThreadStartNext (s : PoolStart) (i : ℕ) (fails : Bool) :
    ThreadStart → Option PoolStart
  | .init => some { s.setThread i eventLoopThreadInit with main := .starting i .create }
  | .create =>
    some { s.setChild i (if fails then .refused else .lock) with main := .starting i .lock }
  | .lock | .relock =>
    if (s.threads i).mutex = none then
      some { s.setThread i { s.threads i with mutex := some .main } with main := .starting i .test }
    else none
  | .test =>
    if (s.threads i).loop = none then
      some { s.setThread i { s.threads i with mutex := none } with main := .starting i .waiting }
    else some { s with main := .starting i .unlock }
  | .waiting => none
  | .unlock =>
    some { s.setThread i { s.threads i with mutex := none } with main := s.nextRound i }

def eventLoopThreadRunNext (s : PoolStart) (i : ℕ) : ThreadRun → Option PoolStart
  | .absent | .refused | .running => none
  | .lock =>
    if (s.threads i).mutex = none then
      some ((s.setThread i { s.threads i with mutex := some .child }).setChild i .initLoop)
    else none
  | .initLoop =>
    some ((s.setThread i { s.threads i with loop := some (eventLoopThreadStart i) }).setChild i
      .signal)
  | .signal => some { s.setChild i .unlock with main := signalled i s.main }
  | .unlock => some ((s.setThread i { s.threads i with mutex := none }).setChild i .running)

def step (s : PoolStart) : StartAction → Option PoolStart
  | .main fails =>
    match s.main with
    | .starting i next => s.eventLoopThreadStartNext i fails next
    | .returned => none
  | .child i => s.eventLoopThreadRunNext i (s.children i)
  | .wake =>
    match s.main with
    | .starting i .waiting => some { s with main := .starting i .relock }
    | _ => none

/-! ### The round of a thread -/

/-- How far the main thread has come. -/
def round (s : PoolStart) : ℕ :=
  match s.main with
  | .starting i _ => i
  | .returned => s.threadNumber.toNat

/-- Where the two threads can be at the same time. -/
structure Compatible (next : ThreadStart) (run : ThreadRun) : Prop where
  unborn : next = .init ∨ next = .create ↔ run = .absent
  exclusive : next.holds = true → run.holds = false
  unsignalled : next = .waiting → run ≠ .unlock ∧ run ≠ .running
  finished : next = .unlock → run = .running

/-- What they find in the structure that they share. -/
def shared (i : ℕ) (next : ThreadStart) (run : ThreadRun) : EventLoopThread where
  loop := if run.published then some (eventLoopThreadStart i) else none
  mutex := if next.holds then some .main else if run.holds then some .child else none

structure Meets (i : ℕ) (next : ThreadStart) (run : ThreadRun) (thread : EventLoopThread) :
    Prop extends Compatible next run where
  thread_eq : next ≠ .init → thread = shared i next run

/-- The threads of the rounds before run their loops, and those of the rounds to come do not
exist. -/
structure Inv (s : PoolStart) : Prop where
  inRange : ∀ i next, s.main = .starting i next → (i : ℤ) < s.threadNumber
  meets : ∀ i next, s.main = .starting i next → Meets i next (s.children i) (s.threads i)
  started : ∀ i < s.round, s.children i = .running ∧ (s.threads i).loop = some (eventLoopThreadStart i)
  absent : ∀ i, s.round < i ∨ s.main = .returned ∧ s.round ≤ i → s.children i = .absent

/-- A state in the round of the thread `i`. -/
def inRound (s : PoolStart) (i : ℕ) (next : ThreadStart) (run : ThreadRun)
    (thread : EventLoopThread) : PoolStart :=
  { s with
    threads := Function.update s.threads i thread
    children := Function.update s.children i run
    main := .starting i next }

/-- The statements of the round that are left, with one more for each that a signal can
cause. -/
def ThreadStart.rank : ThreadStart → ℕ
  | .init => 12
  | .create => 11
  | .lock | .relock => 4
  | .test => 3
  | .waiting => 2
  | .unlock => 1

def ThreadRun.rank : ThreadRun → ℕ
  | .lock => 6
  | .initLoop => 5
  | .signal => 4
  | .unlock => 1
  | .absent | .refused | .running => 0

/-- What is left of the round. -/
def roundRank (next : ThreadStart) (run : ThreadRun) : ℕ := ThreadStart.rank next + ThreadRun.rank run

variable {n : ℤ} {threads : ℕ → EventLoopThread} {s s' : PoolStart} {i : ℕ} {next : ThreadStart}
  {run : ThreadRun} {thread : EventLoopThread} {action : StartAction}

theorem inRound_children (s : PoolStart) (i : ℕ) (next : ThreadStart) (thread : EventLoopThread) :
    s.inRound i next (s.children i) thread = { s.setThread i thread with main := .starting i next } := by
  simp [inRound, setThread, Function.update_eq_self]

theorem inRound_threads (s : PoolStart) (i : ℕ) (next : ThreadStart) (run : ThreadRun) :
    s.inRound i next run (s.threads i) = { s.setChild i run with main := .starting i next } := by
  simp [inRound, setChild, Function.update_eq_self]

/-- The mutex is free. -/
theorem Meets.free (h : Meets i next run thread) (hinit : next ≠ .init) (hfree : thread.mutex = none) :
    next.holds = false ∧ run.holds = false := by
  rw [h.thread_eq hinit, shared] at hfree
  revert hfree
  cases next.holds <;> cases run.holds <;> simp

/-- The main thread gets the mutex. -/
theorem Meets.locks (h : Meets i next run thread) (hnext : next = .lock ∨ next = .relock)
    (hfree : thread.mutex = none) :
    Meets i .test run { thread with mutex := some .main } ∧
      roundRank .test run < roundRank next run := by
  have hinit : next ≠ .init := by rcases hnext with rfl | rfl <;> decide
  obtain ⟨-, hrun⟩ := h.free hinit hfree
  have hborn : run ≠ .absent := by
    intro habsent
    have := h.unborn.mpr habsent
    rcases hnext with rfl | rfl <;> simp at this
  refine ⟨⟨⟨?_, fun _ => hrun, by simp, by simp⟩, fun _ => ?_⟩, ?_⟩
  · simpa using hborn
  · rw [h.thread_eq hinit]
    rfl
  · rcases hnext with rfl | rfl <;> exact Nat.add_lt_add_right (by decide) _

/-- The main thread looks for the loop. -/
theorem Meets.waits (h : Meets i .test run thread) (hloop : thread.loop = none) :
    Meets i .waiting run { thread with mutex := none } := by
  have hthread := h.thread_eq (by decide)
  have hrun : run.published = false := by
    rw [hthread, shared] at hloop
    revert hloop
    cases run.published <;> simp
  have hholds : run.holds = false := h.exclusive rfl
  have hborn : run ≠ .absent := fun habsent => by simpa using h.unborn.mpr habsent
  refine ⟨⟨by simpa using hborn, fun _ => hholds, fun _ => ?_, by simp⟩, fun _ => ?_⟩
  · constructor <;> rintro rfl <;> cases hrun
  · rw [hthread]
    simp [shared, hrun, hholds, ThreadStart.holds]

theorem Meets.finds (h : Meets i .test run thread) (hloop : thread.loop ≠ none) :
    Meets i .unlock run thread := by
  have hthread := h.thread_eq (by decide)
  have hholds : run.holds = false := h.exclusive rfl
  have hpublished : run.published = true := by
    rw [hthread, shared] at hloop
    revert hloop
    cases run.published <;> simp
  have hrun : run = .running := by
    cases run <;> first | rfl | exact absurd hholds (by decide) | exact absurd hpublished (by decide)
  subst hrun
  exact ⟨⟨by decide, by decide, by decide, fun _ => rfl⟩, fun _ => hthread⟩

/-- What a step of the main thread does in its round. -/
theorem Meets.main (h : Meets i next (s.children i) (s.threads i)) {fails : Bool}
    (hstep : s.eventLoopThreadStartNext i fails next = some s') :
    (next = .unlock ∧ s.children i = .running ∧
      s' = { s.setThread i ⟨some (eventLoopThreadStart i), none⟩ with main := s.nextRound i }) ∨
    ∃ next' run' thread', s' = s.inRound i next' run' thread' ∧ Meets i next' run' thread' ∧
      roundRank next' run' < roundRank next (s.children i) := by
  cases next with
  | init =>
    cases hstep
    have hrun : s.children i = .absent := h.unborn.mp (.inl rfl)
    refine .inr ⟨.create, s.children i, eventLoopThreadInit, (inRound_children ..).symm, ?_, ?_⟩
    · rw [hrun]
      exact ⟨⟨by decide, by decide, by decide, by decide⟩, fun _ => rfl⟩
    · exact Nat.add_lt_add_right (by decide) _
  | create =>
    cases hstep
    have hrun : s.children i = .absent := h.unborn.mp (.inr rfl)
    have hthread : s.threads i = eventLoopThreadInit := by
      rw [h.thread_eq (by decide), hrun]
      rfl
    refine .inr ⟨.lock, _, s.threads i, (inRound_threads ..).symm, ?_, ?_⟩
    · rw [hthread]
      cases fails <;> exact ⟨⟨by decide, by decide, by decide, by decide⟩, fun _ => rfl⟩
    · rw [hrun]
      cases fails <;> decide
  | lock =>
    simp only [eventLoopThreadStartNext] at hstep
    split_ifs at hstep with hfree
    cases hstep
    exact .inr ⟨.test, s.children i, _, (inRound_children ..).symm, h.locks (.inl rfl) hfree⟩
  | relock =>
    simp only [eventLoopThreadStartNext] at hstep
    split_ifs at hstep with hfree
    cases hstep
    exact .inr ⟨.test, s.children i, _, (inRound_children ..).symm, h.locks (.inr rfl) hfree⟩
  | test =>
    simp only [eventLoopThreadStartNext] at hstep
    split_ifs at hstep with hloop
    · cases hstep
      exact .inr ⟨.waiting, s.children i, _, (inRound_children ..).symm, h.waits hloop,
        Nat.add_lt_add_right (by decide) _⟩
    · cases hstep
      refine .inr ⟨.unlock, s.children i, s.threads i, ?_, h.finds hloop,
        Nat.add_lt_add_right (by decide) _⟩
      rw [inRound_children, setThread, Function.update_eq_self]
  | waiting => cases hstep
  | unlock =>
    cases hstep
    have hrun : s.children i = .running := h.finished rfl
    refine .inl ⟨rfl, hrun, ?_⟩
    rw [h.thread_eq (by decide), hrun]
    rfl

/-- A thread that exists moves on while the main thread does not hold the mutex. -/
theorem Compatible.moves {run' : ThreadRun} (h : Compatible next run) (hborn : run ≠ .absent)
    (hborn' : run' ≠ .absent) (hnext : next.holds = false)
    (hsignal : next = .waiting → run' ≠ .unlock ∧ run' ≠ .running) : Compatible next run' := by
  refine ⟨?_, ?_, hsignal, ?_⟩
  · rw [h.unborn]
    exact iff_of_false hborn hborn'
  · rw [hnext]
    simp
  · rintro rfl
    cases hnext

/-- What a step of the thread of the round does. -/
theorem Meets.child (h : Meets i next (s.children i) (s.threads i)) (hmain : s.main = .starting i next)
    (hstep : s.eventLoopThreadRunNext i (s.children i) = some s') :
    ∃ next' run' thread', s' = s.inRound i next' run' thread' ∧ Meets i next' run' thread' ∧
      roundRank next' run' < roundRank next (s.children i) := by
  have hborn : s.children i ≠ .absent := by
    intro habsent
    rw [habsent] at hstep
    cases hstep
  have hinit : next ≠ .init := fun hnext => hborn (h.unborn.mp (.inl hnext))
  have hthread := h.thread_eq hinit
  have hreleased : (s.children i).holds = true → next.holds = false := by
    intro hrun
    by_contra hnext
    rw [h.exclusive (by simpa using hnext)] at hrun
    cases hrun
  cases hrun : s.children i with
  | absent => exact absurd hrun hborn
  | refused => rw [hrun] at hstep; cases hstep
  | running => rw [hrun] at hstep; cases hstep
  | lock =>
    rw [hrun] at hstep hthread h
    simp only [eventLoopThreadRunNext] at hstep
    split_ifs at hstep with hfree
    cases hstep
    obtain ⟨hnext, -⟩ := h.free hinit hfree
    refine ⟨next, .initLoop, shared i next .initLoop, ?_,
      ⟨h.moves (by decide) (by decide) hnext (by simp), fun _ => rfl⟩,
      Nat.add_lt_add_left (by decide) _⟩
    rw [hthread]
    simp [inRound, setThread, setChild, hmain, shared, hnext, ThreadRun.holds, ThreadRun.published]
  | initLoop =>
    rw [hrun] at hstep hthread h hreleased
    cases hstep
    have hnext := hreleased rfl
    refine ⟨next, .signal, shared i next .signal, ?_,
      ⟨h.moves (by decide) (by decide) hnext (by simp), fun _ => rfl⟩,
      Nat.add_lt_add_left (by decide) _⟩
    rw [hthread]
    simp [inRound, setThread, setChild, hmain, shared, hnext, ThreadRun.holds, ThreadRun.published]
  | signal =>
    rw [hrun] at hstep hthread h hreleased
    cases hstep
    have hnext := hreleased rfl
    have hsame : shared i next .unlock = s.threads i := by rw [hthread]; rfl
    by_cases hwaiting : next = .waiting
    · subst hwaiting
      refine ⟨.relock, .unlock, s.threads i, ?_,
        ⟨⟨by decide, by decide, by decide, by decide⟩, fun _ => hthread⟩, by decide⟩
      rw [inRound_threads, signalled, if_pos hmain]
    · refine ⟨next, .unlock, s.threads i, ?_,
        ⟨h.moves (by decide) (by decide) hnext fun h => absurd h hwaiting, fun _ => hsame.symm⟩,
        Nat.add_lt_add_left (by decide) _⟩
      rw [inRound_threads, signalled, if_neg (by simpa [hmain] using hwaiting), hmain]
  | unlock =>
    rw [hrun] at hstep hthread h hreleased
    cases hstep
    have hnext := hreleased rfl
    refine ⟨next, .running, shared i next .running, ?_,
      ⟨h.moves (by decide) (by decide) hnext fun h' => absurd rfl (h.unsignalled h').1, fun _ => rfl⟩,
      Nat.add_lt_add_left (by decide) _⟩
    rw [hthread]
    simp [inRound, setThread, setChild, hmain, shared, hnext, ThreadRun.holds, ThreadRun.published]

/-- A step is one of the round of the main thread. -/
theorem Inv.step_cases (h : s.Inv) (hstep : s.step action = some s') :
    ∃ i next, s.main = .starting i next ∧
      ((next = .unlock ∧ s.children i = .running ∧ action ≠ .wake ∧
          s' = { s.setThread i ⟨some (eventLoopThreadStart i), none⟩ with main := s.nextRound i }) ∨
        ∃ next' run' thread', s' = s.inRound i next' run' thread' ∧ Meets i next' run' thread' ∧
          (action ≠ .wake → roundRank next' run' < roundRank next (s.children i)) ∧
          (action = .wake → roundRank next' run' ≤ roundRank next (s.children i) + 2)) := by
  cases action with
  | main fails =>
    cases hmain : s.main with
    | returned => simp [step, hmain] at hstep
    | starting i next =>
      simp only [step, hmain] at hstep
      refine ⟨i, next, rfl, ?_⟩
      rcases (h.meets i next hmain).main hstep with ⟨hnext, hrun, hs'⟩ | ⟨_, _, _, hs', hmeets, hrank⟩
      · exact .inl ⟨hnext, hrun, by simp, hs'⟩
      · exact .inr ⟨_, _, _, hs', hmeets, fun _ => hrank, by simp⟩
  | child i =>
    simp only [step] at hstep
    have hround : ¬ i < s.round := by
      intro hlt
      rw [(h.started i hlt).1] at hstep
      cases hstep
    have habsent : ¬ (s.round < i ∨ s.main = .returned ∧ s.round ≤ i) := by
      intro hout
      rw [h.absent i hout] at hstep
      cases hstep
    cases hmain : s.main with
    | returned => exact absurd (.inr ⟨hmain, not_lt.mp hround⟩) habsent
    | starting j next =>
      have hj : s.round = j := by rw [round, hmain]
      obtain rfl : i = j := by omega
      obtain ⟨_, _, _, hs', hmeets, hrank⟩ := (h.meets i next hmain).child hmain hstep
      exact ⟨i, next, rfl, .inr ⟨_, _, _, hs', hmeets, fun _ => hrank, by simp⟩⟩
  | wake =>
    simp only [step] at hstep
    split at hstep
    next i hmain =>
      cases hstep
      have hmeets := h.meets i _ hmain
      have hborn : s.children i ≠ .absent := fun habsent => by simpa using hmeets.unborn.mpr habsent
      refine ⟨i, .waiting, hmain, .inr ⟨.relock, s.children i, s.threads i, ?_,
        ⟨⟨?_, by simp [ThreadStart.holds], by simp, by simp⟩, fun _ => hmeets.thread_eq (by decide)⟩,
        by simp, fun _ => ?_⟩⟩
      · rw [inRound_threads, setChild, Function.update_eq_self]
      · simpa using hborn
      · rw [roundRank, roundRank]
        exact Nat.le_of_eq (Nat.add_right_comm 2 2 _)
    next => cases hstep

theorem meets_init (i : ℕ) (thread : EventLoopThread) : Meets i .init .absent thread :=
  ⟨⟨by decide, by decide, by decide, by decide⟩, by simp⟩

theorem inv_init : (init n threads).Inv := by
  by_cases hn : n ≤ 0
  · have hmain : (init n threads).main = .returned := if_pos hn
    have hround : (init n threads).round = 0 := by
      rw [round, hmain]
      exact Int.toNat_of_nonpos hn
    refine ⟨?_, ?_, ?_, fun _ _ => rfl⟩
    · intro i next h
      simp [hmain] at h
    · intro i next h
      simp [hmain] at h
    · intro i hi
      omega
  · have hmain : (init n threads).main = .starting 0 .init := if_neg hn
    have hround : (init n threads).round = 0 := by rw [round, hmain]
    refine ⟨?_, ?_, ?_, fun _ _ => rfl⟩
    · intro i next h
      cases hmain.symm.trans h
      exact_mod_cast not_le.mp hn
    · intro i next h
      cases hmain.symm.trans h
      exact meets_init 0 _
    · intro i hi
      omega

/-- A step within the round. -/
theorem Inv.inRound {next' : ThreadStart} {run' : ThreadRun} {thread' : EventLoopThread} (h : s.Inv)
    (hmain : s.main = .starting i next) (hmeets : Meets i next' run' thread') :
    (s.inRound i next' run' thread').Inv := by
  have hround : s.round = i := by rw [round, hmain]
  have hround' : (s.inRound i next' run' thread').round = i := rfl
  refine ⟨?_, ?_, ?_, ?_⟩
  · intro j next'' heq
    cases heq
    exact h.inRange i next hmain
  · intro j next'' heq
    cases heq
    simpa [PoolStart.inRound] using hmeets
  · intro j hj
    rw [hround'] at hj
    simp only [PoolStart.inRound, Function.update_of_ne hj.ne]
    exact h.started j (hround ▸ hj)
  · rintro j (hj | ⟨heq, -⟩)
    · rw [hround'] at hj
      simp only [PoolStart.inRound, Function.update_of_ne hj.ne']
      exact h.absent j (.inl (hround ▸ hj))
    · cases heq

/-- The round is over. -/
theorem Inv.nextRound (h : s.Inv) (hmain : s.main = .starting i next)
    (hrun : s.children i = .running) :
    ({ s.setThread i ⟨some (eventLoopThreadStart i), none⟩ with main := s.nextRound i }).Inv := by
  have hround : s.round = i := by rw [round, hmain]
  have hlt := h.inRange i next hmain
  have habsent : ∀ j, i < j → s.children j = .absent := fun j hj => h.absent j (.inl (hround ▸ hj))
  have hstarted : ∀ j < i + 1, s.children j = .running ∧
      (Function.update s.threads i ⟨some (eventLoopThreadStart i), none⟩ j).loop =
        some (eventLoopThreadStart j) := by
    intro j hj
    rcases Nat.lt_succ_iff_lt_or_eq.mp hj with hlt | rfl
    · rw [Function.update_of_ne hlt.ne]
      exact h.started j (hround ▸ hlt)
    · rw [Function.update_self]
      exact ⟨hrun, rfl⟩
  by_cases hnext : (i + 1 : ℤ) < s.threadNumber
  · rw [PoolStart.nextRound, if_pos hnext]
    refine ⟨?_, ?_, hstarted, ?_⟩
    · intro j next' heq
      cases heq
      exact_mod_cast hnext
    · intro j next' heq
      cases heq
      have hrun' : s.children (i + 1) = .absent := habsent (i + 1) (Nat.lt_succ_self i)
      show Meets (i + 1) .init (s.children (i + 1)) _
      rw [hrun']
      exact meets_init (i + 1) _
    · rintro j (hj | ⟨heq, -⟩)
      · exact habsent j (Nat.lt_of_succ_lt hj)
      · cases heq
  · rw [PoolStart.nextRound, if_neg hnext]
    have hall : s.threadNumber.toNat = i + 1 := by omega
    refine ⟨?_, ?_, ?_, ?_⟩
    · intro j next' heq
      cases heq
    · intro j next' heq
      cases heq
    · intro j hj
      exact hstarted j (hall ▸ hj)
    · intro j hj
      refine habsent j ?_
      have hj' : s.threadNumber.toNat ≤ j := hj.elim Nat.le_of_lt fun hj => hj.2
      omega

theorem Inv.step (h : s.Inv) (hstep : s.step action = some s') : s'.Inv := by
  obtain ⟨i, next, hmain, ⟨rfl, hrun, -, rfl⟩ | ⟨_, _, _, rfl, hmeets, -⟩⟩ := h.step_cases hstep
  · exact h.nextRound hmain hrun
  · exact h.inRound hmain hmeets

theorem step_threadNumber (h : s.Inv) (hstep : s.step action = some s') :
    s'.threadNumber = s.threadNumber := by
  obtain ⟨i, next, -, ⟨-, -, -, rfl⟩ | ⟨_, _, _, rfl, -⟩⟩ := h.step_cases hstep <;> rfl

theorem reaches_inv (h : Reaches step (init n threads) s) : s.Inv ∧ s.threadNumber = n := by
  apply h.invariant (fun s => s.Inv ∧ s.threadNumber = n) ⟨inv_init, rfl⟩
  rintro s action s' ⟨hinv, hn⟩ hstep
  exact ⟨hinv.step hstep, (step_threadNumber hinv hstep).trans hn⟩

/-! ### What the start leaves -/

/-- In every reachable state the threads that the main thread is through with run the loops
that it reads in their structures, no two threads hold a mutex, and when `thread_pool_start`
returns, the pool has the loops that `thread_pool_peek_work_loop` chooses from. -/
theorem thread_pool_start_publishes (h : Reaches step (init n threads) s) :
    (∀ i < s.round, s.children i = .running ∧ (s.threads i).loop = some (eventLoopThreadStart i)) ∧
      (∀ i next, s.main = .starting i next → ¬ (next.holds = true ∧ (s.children i).holds = true)) ∧
      (s.main = .returned → ∃ pool, threadPoolStart (threadPoolNew 0 n) = .ok pool ∧
        (List.range n.toNat).map (fun i => (s.threads i).loop) = pool.threads.map some) := by
  obtain ⟨hinv, hn⟩ := reaches_inv h
  refine ⟨hinv.started, ?_, ?_⟩
  · rintro i next hmain ⟨hnext, hrun⟩
    rw [(hinv.meets i next hmain).exclusive hnext] at hrun
    cases hrun
  · intro hmain
    have hround : s.round = n.toNat := by rw [round, hmain, hn]
    have hloops : (List.range n.toNat).map (fun i => (s.threads i).loop) =
        (List.range n.toNat).map fun i => some (eventLoopThreadStart i) := by
      apply List.map_congr_left
      intro i hi
      exact (hinv.started i (hround ▸ List.mem_range.mp hi)).2
    rw [hloops]
    by_cases hpos : n ≤ 0
    · refine ⟨{ threadPoolNew 0 n with started := true }, if_pos hpos, ?_⟩
      rw [Int.toNat_of_nonpos hpos]
      rfl
    · refine ⟨_, if_neg hpos, ?_⟩
      rw [List.map_map]
      rfl

/-- The main thread waits for the first of two threads, and comes late for the second. -/
def twoThreads : List StartAction :=
  [.main false, .main false, .main false, .main false, .wake, .main false, .main false,
    .child 0, .child 0, .child 0, .child 0, .main false, .main false, .main false,
    .main false, .main false, .child 1, .child 1, .child 1, .child 1,
    .main false, .main false, .main false]

theorem thread_pool_start_publishes_two :
    ∃ s, twoThreads.foldlM step (init 2 fun _ => ⟨some 9, some .child⟩) = some s ∧
      ∃ pool, threadPoolStart (threadPoolNew 0 2) = .ok pool ∧
        (List.range 2).map (fun i => (s.threads i).loop) = pool.threads.map some := by
  obtain ⟨s, hrun, hmain⟩ : ∃ s, twoThreads.foldlM step
      (init 2 fun _ => ⟨some 9, some .child⟩) = some s ∧ s.main = .returned := ⟨_, rfl, rfl⟩
  exact ⟨s, hrun, (thread_pool_start_publishes (Reaches.of_foldlM hrun)).2.2 hmain⟩

/-! ### The end of the start -/

/-- The statements that are left if no wait ends by itself. -/
def rank (s : PoolStart) : ℕ :=
  (match s.main with
    | .starting i next => 12 * (s.threadNumber.toNat - 1 - i) + ThreadStart.rank next
    | .returned => 0) +
  ∑ i ∈ Finset.range s.threadNumber.toNat, ThreadRun.rank (s.children i)

theorem rank_init : (init n threads).rank = 12 * n.toNat := by
  have hchildren : ∑ i ∈ Finset.range n.toNat, ThreadRun.rank ((init n threads).children i) = 0 :=
    Finset.sum_eq_zero fun _ _ => rfl
  rw [rank, show (init n threads).threadNumber = n from rfl, hchildren]
  by_cases hn : n ≤ 0
  · rw [show (init n threads).main = .returned from if_pos hn, Int.toNat_of_nonpos hn]
  · rw [show (init n threads).main = .starting 0 .init from if_neg hn]
    simp only [ThreadStart.rank]
    omega

theorem Inv.lt_round (h : s.Inv) (hmain : s.main = .starting i next) : i < s.threadNumber.toNat := by
  have := h.inRange i next hmain
  omega

/-- A step in the round changes what is left of the round. -/
theorem rank_inRound {next' : ThreadStart} {run' : ThreadRun} {thread' : EventLoopThread} (h : s.Inv)
    (hmain : s.main = .starting i next) :
    (s.inRound i next' run' thread').rank + roundRank next (s.children i) =
      s.rank + roundRank next' run' := by
  have hmem : i ∈ Finset.range s.threadNumber.toNat := Finset.mem_range.mpr (h.lt_round hmain)
  have hsum := sum_update ThreadRun.rank s.children hmem run'
  simp only [rank, PoolStart.inRound, hmain, roundRank]
  omega

theorem rank_nextRound {thread' : EventLoopThread} (h : s.Inv) (hmain : s.main = .starting i .unlock) :
    ({ s.setThread i thread' with main := s.nextRound i } : PoolStart).rank < s.rank := by
  have hlt := h.lt_round hmain
  by_cases hnext : (i + 1 : ℤ) < s.threadNumber
  · simp only [rank, PoolStart.nextRound, if_pos hnext, hmain, setThread, ThreadStart.rank]
    omega
  · simp only [rank, PoolStart.nextRound, if_neg hnext, hmain, setThread, ThreadStart.rank]
    omega

theorem rank_step (h : s.Inv) (hstep : s.step action = some s') :
    (action ≠ .wake → s'.rank < s.rank) ∧ (action = .wake → s'.rank ≤ s.rank + 2) := by
  obtain ⟨i, next, hmain, ⟨rfl, -, hwake, rfl⟩ | ⟨next', run', thread', rfl, -, hworks, hidle⟩⟩ :=
    h.step_cases hstep
  · exact ⟨fun _ => rank_nextRound h hmain, fun heq => absurd heq hwake⟩
  · have hrank : (s.inRound i next' run' thread').rank + roundRank next (s.children i) =
        s.rank + roundRank next' run' := rank_inRound h hmain
    constructor
    · intro hne
      have := hworks hne
      omega
    · intro heq
      have := hidle heq
      omega

/-- A thread that holds the mutex can always move on. -/
theorem child_moves (hholds : (s.children i).holds = true) : s.step (.child i) ≠ none := by
  cases hrun : s.children i <;> simp_all [step, eventLoopThreadRunNext, ThreadRun.holds]

/-- What keeps the main thread from moving on. -/
theorem Meets.main_moves (h : Meets i next (s.children i) (s.threads i))
    (hmain : s.main = .starting i next) (hstuck : s.step (.main false) = none) :
    next = .waiting ∨ (s.children i).holds = true := by
  simp only [step, hmain] at hstuck
  by_cases hnext : next = .lock ∨ next = .relock
  · have hinit : next ≠ .init := by rcases hnext with rfl | rfl <;> decide
    have hnot : next.holds = false := by rcases hnext with rfl | rfl <;> rfl
    have hheld : (s.threads i).mutex ≠ none := by
      intro hfree
      rcases hnext with rfl | rfl <;> simp [eventLoopThreadStartNext, hfree] at hstuck
    rw [h.thread_eq hinit, shared] at hheld
    exact .inr (by simpa [hnot] using hheld)
  · cases next with
    | test =>
      simp only [eventLoopThreadStartNext] at hstuck
      split_ifs at hstuck
    | waiting => exact .inl rfl
    | _ => simp_all [eventLoopThreadStartNext]

/-- What keeps the thread of the round from moving on while the main thread waits for it. -/
theorem Meets.child_moves (h : Meets i .waiting (s.children i) (s.threads i))
    (hstuck : s.step (.child i) = none) : s.children i = .refused := by
  have hthread := h.thread_eq (by decide)
  have hborn : s.children i ≠ .absent := fun habsent => by simpa using h.unborn.mpr habsent
  have hsignal := h.unsignalled rfl
  cases hrun : s.children i with
  | refused => rfl
  | lock =>
    have hfree : (s.threads i).mutex = none := by
      rw [hthread, hrun]
      rfl
    simp [step, hrun, eventLoopThreadRunNext, hfree] at hstuck
  | absent => exact absurd hrun hborn
  | unlock => exact absurd hrun hsignal.1
  | running => exact absurd hrun hsignal.2
  | initLoop => exact absurd hstuck (PoolStart.child_moves (by rw [hrun]; rfl))
  | signal => exact absurd hstuck (PoolStart.child_moves (by rw [hrun]; rfl))

/-- The start is over, or waits for a thread that was never created. -/
theorem Inv.stuck_iff (h : s.Inv) : (∀ action, action ≠ .wake → s.step action = none) ↔
    s.main = .returned ∨ ∃ i, s.main = .starting i .waiting ∧ s.children i = .refused := by
  constructor
  · intro hstuck
    cases hmain : s.main with
    | returned => exact .inl rfl
    | starting i next =>
      have hmeets := h.meets i next hmain
      have hchild := hstuck (.child i) (by simp)
      rcases hmeets.main_moves hmain (hstuck (.main false) (by simp)) with rfl | hholds
      · exact .inr ⟨i, rfl, hmeets.child_moves hchild⟩
      · exact absurd hchild (child_moves hholds)
  · intro hover action hwake
    cases action with
    | main fails =>
      rcases hover with hmain | ⟨i, hmain, -⟩ <;>
        simp [PoolStart.step, hmain, eventLoopThreadStartNext]
    | child j =>
      have hrun : s.children j = .running ∨ s.children j = .refused ∨ s.children j = .absent := by
        by_cases hj : j < s.round
        · exact .inl (h.started j hj).1
        rcases hover with hmain | ⟨i, hmain, hrefused⟩
        · exact .inr (.inr (h.absent j (.inr ⟨hmain, not_lt.mp hj⟩)))
        · have hround : s.round = i := by rw [round, hmain]
          rcases (not_lt.mp hj).eq_or_lt with heq | hlt
          · rw [← heq, hround]
            exact .inr (.inl hrefused)
          · exact .inr (.inr (h.absent j (.inl hlt)))
      rcases hrun with hrun | hrun | hrun <;> simp [PoolStart.step, hrun, eventLoopThreadRunNext]
    | wake => exact absurd rfl hwake

end PoolStart

end OsProgramming.Reactor
