import OsProgramming.Reactor.PendingQueue

/-! Channel operations are applied exactly once and in order. What a step can do is
said once; the invariant follows the thread that holds the mutex: in a pass it has
the rest of the queue before it, and otherwise the whole queue is still to come. -/

namespace OsProgramming.Reactor

open Library

namespace System

variable {T κ ρ : Type*} [DecidableEq T] {handler : ρ → PendingOp κ → ρ} {owner t : T}
  {s s' : System T κ ρ}

@[simp] theorem goto_threads_self (s : System T κ ρ) (t : T) (next : Thread κ) :
    (s.goto t next).threads t = next := by
  simp [goto]

@[simp] theorem goto_mutex (s : System T κ ρ) (t : T) (next : Thread κ) :
    (s.goto t next).mutex = s.mutex := rfl

theorem goto_threads_of_ne (s : System T κ ρ) {t t' : T} (next : Thread κ) (h : t' ≠ t) :
    (s.goto t next).threads t' = s.threads t' := by
  simp [goto, h]

/-- What one step does. -/
inductive Moves (handler : ρ → PendingOp κ → ρ) (owner : T) (s : System T κ ρ) :
    System T κ ρ → Prop
  | run (hphase : s.phase = .starting) (howner : s.threads owner = .outside) :
    Moves handler owner s { s with phase := .waiting }
  | dispatch (wakeup : Bool) (hphase : s.phase = .waiting) :
    Moves handler owner s { s with phase := .callbacks wakeup }
  | readWakeup (hphase : s.phase = .callbacks true) (howner : s.threads owner = .outside) :
    Moves handler owner s { s with unread := s.unread - 1, phase := .callbacks false }
  | finish (hphase : s.phase = .callbacks false) (howner : s.threads owner = .outside) :
    Moves handler owner s
      ({ s with phase := .finishing }.goto owner (.handlePendingChannel .lock))
  | call (t : T) (op : PendingOp κ) (ht : s.threads t = .outside) (hcall : MayCall owner t s) :
    Moves handler owner s (s.goto t (.doChannelEvent (.lock op)))
  | lock (t : T) (op : PendingOp κ) (ht : s.threads t = .doChannelEvent (.lock op))
    (hmutex : s.mutex = none) :
    Moves handler owner s ({ s with mutex := some t, acquired := s.acquired ++ [op] }.goto t
      (.doChannelEvent (.enqueue op)))
  | assertFails (t : T) (op : PendingOp κ) (ht : s.threads t = .doChannelEvent (.enqueue op))
    (hhandling : s.isHandlingPendingChannel = true) :
    Moves handler owner s { s with fault := some .assertFailed }
  | enqueueFails (t : T) (op : PendingOp κ) (fault : Fault)
    (ht : s.threads t = .doChannelEvent (.enqueue op)) (hq : s.pending.enqueue op = .error fault) :
    Moves handler owner s { s with fault := some fault }
  | enqueue (t : T) (op : PendingOp κ) (pending : LinkedQueue (PendingOp κ))
    (ht : s.threads t = .doChannelEvent (.enqueue op)) (hq : s.pending.enqueue op = .ok pending) :
    Moves handler owner s ({ s with pending }.goto t (.doChannelEvent .unlock))
  | unlock (t : T) (ht : s.threads t = .doChannelEvent .unlock) :
    Moves handler owner s ({ s with mutex := none }.goto t
      (if t = owner then .handlePendingChannel .lock else .doChannelEvent .wakeup))
  | wakeup (t : T) (ht : s.threads t = .doChannelEvent .wakeup) :
    Moves handler owner s ({ s with unread := s.unread + 1 }.goto t .outside)
  | passLock (t : T) (ht : s.threads t = .handlePendingChannel .lock) (hmutex : s.mutex = none) :
    Moves handler owner s ({ s with mutex := some t, isHandlingPendingChannel := true }.goto t
      (.handlePendingChannel (.visit s.pending.head)))
  | derefFails (t : T) (node : ℕ) (fault : Fault)
    (ht : s.threads t = .handlePendingChannel (.visit (some node)))
    (hcell : LinkedQueue.deref s.pending.heap node = .error fault) :
    Moves handler owner s { s with fault := some fault }
  | visit (t : T) (node : ℕ) (cell : Cell (PendingOp κ))
    (ht : s.threads t = .handlePendingChannel (.visit (some node)))
    (hcell : LinkedQueue.deref s.pending.heap node = .ok cell) :
    Moves handler owner s ({ s with
      registry := handler s.registry cell.value
      handed := s.handed ++ [cell.value] }.goto t (.handlePendingChannel (.visit cell.next)))
  | reset (t : T) (ht : s.threads t = .handlePendingChannel (.visit none)) :
    Moves handler owner s
      ({ s with pending := s.pending.clear, isHandlingPendingChannel := false }.goto t
        (.handlePendingChannel .unlock))
  | passUnlock (t : T) (ht : s.threads t = .handlePendingChannel .unlock) :
    Moves handler owner s ({ s with
      mutex := none
      phase := if s.phase = Phase.finishing then .waiting else s.phase }.goto t .outside)

theorem moves_doChannelEvent {next : Call κ} (ht : s.threads t = .doChannelEvent next)
    (h : eventLoopDoChannelEvent owner t s next = some s') : Moves handler owner s s' := by
  cases next with
  | lock op =>
    simp only [eventLoopDoChannelEvent] at h
    split_ifs at h with hmutex
    cases h
    exact .lock t op ht hmutex
  | enqueue op =>
    simp only [eventLoopDoChannelEvent, eventLoopPendingChannelEnqueueNoLock] at h
    split_ifs at h with hhandling
    · cases h
      exact .assertFails t op ht hhandling
    · split at h
      · cases h
        exact .enqueueFails t op _ ht ‹_›
      · cases h
        exact .enqueue t op _ ht ‹_›
  | unlock =>
    cases h
    exact .unlock t ht
  | wakeup =>
    cases h
    exact .wakeup t ht

theorem moves_handlePendingChannel {next : Pass} (ht : s.threads t = .handlePendingChannel next)
    (h : eventLoopHandlePendingChannel handler t s next = some s') : Moves handler owner s s' := by
  cases next with
  | lock =>
    simp only [eventLoopHandlePendingChannel] at h
    split_ifs at h with hmutex
    cases h
    exact .passLock t ht hmutex
  | visit node =>
    cases node with
    | none =>
      cases h
      exact .reset t ht
    | some node =>
      simp only [eventLoopHandlePendingChannel] at h
      split at h
      · cases h
        exact .derefFails t node _ ht ‹_›
      · cases h
        exact .visit t node _ ht ‹_›
  | unlock =>
    cases h
    exact .passUnlock t ht

theorem step_moves {action : Action T κ} (h : step handler owner s action = some s') :
    s.fault = none ∧ Moves handler owner s s' := by
  simp only [step] at h
  split_ifs at h with hfault
  refine ⟨hfault, ?_⟩
  cases action with
  | run =>
    simp only [move] at h
    split at h
    · cases h
      exact .run ‹_› ‹_›
    · cases h
  | dispatch wakeup =>
    simp only [move] at h
    split at h
    · split_ifs at h
      cases h
      exact .dispatch wakeup ‹_›
    · cases h
  | readWakeup =>
    simp only [move] at h
    split at h
    · split_ifs at h
      cases h
      exact .readWakeup ‹_› ‹_›
    · cases h
  | finish =>
    simp only [move] at h
    split at h
    · cases h
      exact .finish ‹_› ‹_›
    · cases h
  | call t op =>
    simp only [move] at h
    split at h
    · split_ifs at h with hcall
      cases h
      exact .call t op ‹_› hcall
    · cases h
  | advance t =>
    simp only [move] at h
    split at h
    · cases h
    · exact moves_doChannelEvent ‹_› h
    · exact moves_handlePendingChannel ‹_› h

end System

/-! ### The invariant -/

namespace Thread

variable {κ : Type*}

/-- The thread is between its lock and its unlock of the mutex. -/
def Locks : Thread κ → Prop
  | .doChannelEvent (.enqueue _) => True
  | .doChannelEvent .unlock => True
  | .handlePendingChannel (.visit _) => True
  | .handlePendingChannel .unlock => True
  | _ => False

/-- The operation that has got the mutex and is not queued yet. -/
def inFlight : Thread κ → List (PendingOp κ)
  | .doChannelEvent (.enqueue op) => [op]
  | _ => []

/-- The part of the queue that is still to be handled, when the thread is the one
that holds the mutex. -/
def Remaining (heap : List (Cell (PendingOp κ))) (nodes rest : List (ℕ × PendingOp κ)) :
    Thread κ → Prop
  | .handlePendingChannel (.visit node) => LinkedQueue.Segment heap node rest none
  | _ => rest = nodes

end Thread

namespace System

variable {T κ ρ : Type*} {handler : ρ → PendingOp κ → ρ} {r₀ : ρ} {owner t : T}
  {s s' : System T κ ρ} {nodes : List (ℕ × PendingOp κ)}

/-- The thread that holds the mutex; nobody is like a thread outside. -/
def holder (s : System T κ ρ) : Thread κ :=
  match s.mutex with
  | some t => s.threads t
  | none => .outside

structure Inv (handler : ρ → PendingOp κ → ρ) (r₀ : ρ) (s : System T κ ρ)
    (nodes : List (ℕ × PendingOp κ)) : Prop where
  fault : s.fault = none
  represents : s.pending.Represents nodes
  locks : ∀ t, (s.threads t).Locks ↔ s.mutex = some t
  handling : s.isHandlingPendingChannel = true →
    ∃ node, s.holder = .handlePendingChannel (.visit node)
  order : ∃ rest, s.holder.Remaining s.pending.heap nodes rest ∧
    s.acquired = s.handed ++ rest.map Prod.snd ++ s.holder.inFlight
  registry : s.registry = s.handed.foldl handler r₀

theorem Inv.holder_eq (h : Inv handler r₀ s nodes) (ht : (s.threads t).Locks) :
    s.mutex = some t ∧ s.holder = s.threads t := by
  have hmutex := (h.locks t).mp ht
  exact ⟨hmutex, by simp only [holder, hmutex]⟩

theorem holder_of_none (hmutex : s.mutex = none) : s.holder = .outside := by
  simp only [holder, hmutex]

theorem inv_init : Inv handler r₀ (init r₀ : System T κ ρ) [] :=
  ⟨rfl, LinkedQueue.represents_empty, fun t => by simp [init, Thread.Locks],
    fun h => by simp [init] at h, ⟨[], rfl, rfl⟩, rfl⟩

variable [DecidableEq T]

/-- One thread moves on, and only it may get or release the mutex. -/
theorem locks_goto {mutex : Option T} {threads : T → Thread κ} {next : Thread κ}
    (h : ∀ t, (threads t).Locks ↔ s.mutex = some t)
    (hother : ∀ t', t' ≠ t → (s.mutex = some t' ↔ mutex = some t'))
    (hself : next.Locks ↔ mutex = some t) (t' : T) :
    (Function.update threads t next t').Locks ↔ mutex = some t' := by
  by_cases ht : t' = t
  · subst ht
    simpa using hself
  · rw [Function.update_of_ne ht, h t', hother t' ht]

/-- A thread that neither has nor gets the mutex changes nothing that the invariant
speaks of. -/
theorem Inv.goto_free {next : Thread κ} {phase : Phase} {unread : ℕ}
    (h : Inv handler r₀ s nodes) (hold : ¬ (s.threads t).Locks) (hnew : ¬ next.Locks) :
    Inv handler r₀ ({ s with phase, unread }.goto t next) nodes := by
  have hmutex : s.mutex ≠ some t := fun hm => hold ((h.locks t).mpr hm)
  have hholder : ({ s with phase, unread }.goto t next).holder = s.holder := by
    cases hm : s.mutex with
    | none => simp only [holder, goto, hm]
    | some t' =>
      have hne : t' ≠ t := fun heq => hmutex (by rw [hm, heq])
      simp only [holder, goto, hm, Function.update_of_ne hne]
  refine ⟨h.fault, h.represents, ?_, ?_, ?_, h.registry⟩
  · exact locks_goto h.locks (fun _ _ => Iff.rfl)
      ⟨fun hn => absurd hn hnew, fun hm => absurd hm hmutex⟩
  · rw [hholder]; exact h.handling
  · rw [hholder]; exact h.order

/-- The statements of `event_loop_do_channel_event` under the mutex. -/
theorem Inv.lock {op : PendingOp κ} (h : Inv handler r₀ s nodes) (hmutex : s.mutex = none) :
    Inv handler r₀ ({ s with mutex := some t, acquired := s.acquired ++ [op] }.goto t
      (.doChannelEvent (.enqueue op))) nodes := by
  have hholder : ({ s with mutex := some t, acquired := s.acquired ++ [op] }.goto t
      (.doChannelEvent (.enqueue op))).holder = .doChannelEvent (.enqueue op) := by
    simp [holder, goto]
  obtain ⟨rest, hrest, horder⟩ := h.order
  rw [holder_of_none hmutex] at hrest horder
  refine ⟨h.fault, h.represents, ?_, ?_, ⟨rest, ?_, ?_⟩, h.registry⟩
  · refine locks_goto h.locks ?_ (by simp [Thread.Locks])
    intro t' ht'
    rw [hmutex]
    exact ⟨nofun, fun hm => absurd (Option.some.inj hm).symm ht'⟩
  · intro hhandling
    obtain ⟨node, hnode⟩ := h.handling hhandling
    rw [holder_of_none hmutex] at hnode
    cases hnode
  · rw [hholder]; exact hrest
  · rw [hholder]
    show s.acquired ++ [op] = _
    rw [horder]
    simp [Thread.inFlight, goto]

theorem Inv.enqueue {op : PendingOp κ} {pending : LinkedQueue (PendingOp κ)}
    (h : Inv handler r₀ s nodes) (ht : s.threads t = .doChannelEvent (.enqueue op))
    (hq : s.pending.enqueue op = .ok pending) :
    Inv handler r₀ ({ s with pending }.goto t (.doChannelEvent .unlock))
      (nodes ++ [(s.pending.heap.length, op)]) := by
  obtain ⟨hmutex, hold⟩ := h.holder_eq (by rw [ht]; trivial)
  have hholder : ({ s with pending }.goto t (.doChannelEvent .unlock)).holder =
      .doChannelEvent .unlock := by
    simp [holder, goto, hmutex]
  obtain ⟨pending', hq', hrep⟩ := LinkedQueue.enqueue_represents h.represents op
  obtain rfl : pending' = pending := Except.ok.inj (hq'.symm.trans hq)
  obtain ⟨rest, hrest, horder⟩ := h.order
  rw [hold, ht] at hrest horder
  obtain rfl : rest = nodes := hrest
  refine ⟨h.fault, hrep, ?_, ?_, ⟨_, by rw [hholder]; rfl, ?_⟩, h.registry⟩
  · exact locks_goto h.locks (fun _ _ => Iff.rfl) (by simp [Thread.Locks, hmutex])
  · intro hhandling
    obtain ⟨node, hnode⟩ := h.handling hhandling
    rw [hold, ht] at hnode
    cases hnode
  · rw [hholder]
    show s.acquired = _
    rw [horder]
    simp [Thread.inFlight, goto]

/-- Nothing is under way any more when the mutex is released. -/
theorem Inv.release {next : Thread κ} {phase : Phase} (h : Inv handler r₀ s nodes)
    (ht : s.threads t = .doChannelEvent .unlock ∨ s.threads t = .handlePendingChannel .unlock)
    (hnext : ¬ next.Locks) :
    Inv handler r₀ ({ s with mutex := none, phase }.goto t next) nodes := by
  obtain ⟨hmutex, hold⟩ := h.holder_eq (t := t) (by rcases ht with ht | ht <;> rw [ht] <;> trivial)
  obtain ⟨rest, hrest, horder⟩ := h.order
  refine ⟨h.fault, h.represents, ?_, ?_, ⟨rest, ?_, ?_⟩, h.registry⟩
  · refine locks_goto h.locks ?_ (by simp [hnext])
    intro t' ht'
    rw [hmutex]
    exact ⟨fun hm => absurd (Option.some.inj hm).symm ht', nofun⟩
  · intro hhandling
    obtain ⟨node, hnode⟩ := h.handling hhandling
    rw [hold] at hnode
    rcases ht with ht | ht <;> (rw [ht] at hnode; cases hnode)
  · rw [hold] at hrest
    rcases ht with ht | ht <;> (rw [ht] at hrest; exact hrest)
  · show s.acquired = s.handed ++ rest.map Prod.snd ++ []
    rw [hold] at horder
    rcases ht with ht | ht <;> (rw [ht] at horder; exact horder)

/-- The statements of `event_loop_handle_pending_channel` under the mutex. -/
theorem Inv.passLock (h : Inv handler r₀ s nodes) (hmutex : s.mutex = none) :
    Inv handler r₀ ({ s with mutex := some t, isHandlingPendingChannel := true }.goto t
      (.handlePendingChannel (.visit s.pending.head))) nodes := by
  have hholder : ({ s with mutex := some t, isHandlingPendingChannel := true }.goto t
      (.handlePendingChannel (.visit s.pending.head))).holder =
        .handlePendingChannel (.visit s.pending.head) := by
    simp [holder, goto]
  obtain ⟨rest, hrest, horder⟩ := h.order
  rw [holder_of_none hmutex] at hrest horder
  obtain rfl : rest = nodes := hrest
  refine ⟨h.fault, h.represents, ?_, fun _ => ⟨_, hholder⟩, ⟨rest, ?_, ?_⟩, h.registry⟩
  · refine locks_goto h.locks ?_ (by simp [Thread.Locks])
    intro t' ht'
    rw [hmutex]
    exact ⟨nofun, fun hm => absurd (Option.some.inj hm).symm ht'⟩
  · rw [hholder]; exact h.represents.segment
  · rw [hholder]; exact horder

theorem Inv.visit {node : ℕ} {cell : Cell (PendingOp κ)} (h : Inv handler r₀ s nodes)
    (ht : s.threads t = .handlePendingChannel (.visit (some node)))
    (hcell : LinkedQueue.deref s.pending.heap node = .ok cell) :
    Inv handler r₀ ({ s with
      registry := handler s.registry cell.value
      handed := s.handed ++ [cell.value] }.goto t (.handlePendingChannel (.visit cell.next)))
      nodes := by
  obtain ⟨hmutex, hold⟩ := h.holder_eq (t := t) (by rw [ht]; trivial)
  have hholder : ({ s with
      registry := handler s.registry cell.value
      handed := s.handed ++ [cell.value] }.goto t
        (.handlePendingChannel (.visit cell.next))).holder =
          .handlePendingChannel (.visit cell.next) := by
    simp [holder, goto, hmutex]
  obtain ⟨rest, hrest, horder⟩ := h.order
  rw [hold, ht] at hrest horder
  obtain ⟨x, next, rest', rfl, hderef, hrest'⟩ := LinkedQueue.Segment.of_some hrest
  obtain rfl : cell = ⟨x, next⟩ := Except.ok.inj (hcell.symm.trans hderef)
  refine ⟨h.fault, h.represents, ?_, fun _ => ⟨_, hholder⟩, ⟨rest', ?_, ?_⟩, ?_⟩
  · exact locks_goto h.locks (fun _ _ => Iff.rfl) (by simp [Thread.Locks, hmutex])
  · rw [hholder]; exact hrest'
  · rw [hholder]
    show s.acquired = _
    rw [horder]
    simp [Thread.inFlight, goto]
  · show handler s.registry x = (s.handed ++ [x]).foldl handler r₀
    rw [List.foldl_append, ← h.registry]
    rfl

theorem Inv.reset (h : Inv handler r₀ s nodes)
    (ht : s.threads t = .handlePendingChannel (.visit none)) :
    Inv handler r₀ ({ s with
      pending := s.pending.clear, isHandlingPendingChannel := false }.goto t
        (.handlePendingChannel .unlock)) [] := by
  obtain ⟨hmutex, hold⟩ := h.holder_eq (t := t) (by rw [ht]; trivial)
  have hholder : ({ s with
      pending := s.pending.clear, isHandlingPendingChannel := false }.goto t
        (.handlePendingChannel .unlock)).holder = .handlePendingChannel .unlock := by
    simp [holder, goto, hmutex]
  obtain ⟨rest, hrest, horder⟩ := h.order
  rw [hold, ht] at hrest horder
  obtain rfl : rest = [] := LinkedQueue.Segment.of_none hrest
  refine ⟨h.fault, LinkedQueue.represents_clear _, ?_, fun hh => by simp [goto] at hh,
    ⟨[], by rw [hholder]; rfl, ?_⟩, h.registry⟩
  · exact locks_goto h.locks (fun _ _ => Iff.rfl) (by simp [Thread.Locks, hmutex])
  · rw [hholder]; exact horder

theorem Inv.moves (h : Inv handler r₀ s nodes) (hmove : Moves handler owner s s') :
    ∃ nodes', Inv handler r₀ s' nodes' := by
  cases hmove with
  | run => exact ⟨nodes, h.fault, h.represents, h.locks, h.handling, h.order, h.registry⟩
  | dispatch => exact ⟨nodes, h.fault, h.represents, h.locks, h.handling, h.order, h.registry⟩
  | readWakeup => exact ⟨nodes, h.fault, h.represents, h.locks, h.handling, h.order, h.registry⟩
  | finish _ howner => exact ⟨nodes, h.goto_free (by simp [howner, Thread.Locks]) id⟩
  | call t op ht => exact ⟨nodes, h.goto_free (by simp [ht, Thread.Locks]) id⟩
  | lock t op _ hmutex => exact ⟨nodes, h.lock hmutex⟩
  | assertFails t op ht hhandling =>
    -- only a thread in a pass has the flag set, and it has the mutex
    obtain ⟨node, hnode⟩ := h.handling hhandling
    rw [(h.holder_eq (t := t) (by rw [ht]; trivial)).2, ht] at hnode
    cases hnode
  | enqueueFails t op fault _ hq =>
    obtain ⟨pending, hq', -⟩ := LinkedQueue.enqueue_represents h.represents op
    rw [hq'] at hq
    cases hq
  | enqueue t op pending ht hq => exact ⟨_, h.enqueue ht hq⟩
  | unlock t ht => exact ⟨nodes, h.release (.inl ht) (by split_ifs <;> exact id)⟩
  | wakeup t ht => exact ⟨nodes, h.goto_free (by simp [ht, Thread.Locks]) id⟩
  | passLock t _ hmutex => exact ⟨nodes, h.passLock hmutex⟩
  | derefFails t node fault ht hcell =>
    obtain ⟨rest, hrest, -⟩ := h.order
    rw [(h.holder_eq (t := t) (by rw [ht]; trivial)).2, ht] at hrest
    obtain ⟨x, next, rest', -, hderef, -⟩ := LinkedQueue.Segment.of_some hrest
    rw [hderef] at hcell
    cases hcell
  | visit t node cell ht hcell => exact ⟨nodes, h.visit ht hcell⟩
  | reset t ht => exact ⟨[], h.reset ht⟩
  | passUnlock t ht => exact ⟨nodes, h.release (.inr ht) id⟩

theorem reaches_inv (h : Reaches (step handler owner) (init r₀) s) :
    ∃ nodes, Inv handler r₀ s nodes := by
  refine h.invariant (fun s => ∃ nodes, Inv handler r₀ s nodes) ⟨[], inv_init⟩ ?_
  intro s action s' ⟨nodes, hinv⟩ hstep
  exact hinv.moves (step_moves hstep).2

/-- In every reachable state: no assertion and no access has failed; the queue is one
well-formed list, with both pointers `NULL` when it is empty; the operations handed
to the handlers, followed by those still queued and by the one that a thread is about
to queue, are the enqueues in the order in which they got the mutex; and the registry
is what the handlers make of the operations handed to them, once each. -/
theorem channel_operations_in_order (h : Reaches (step handler owner) (init r₀) s) :
    s.fault = none ∧ ∃ nodes rest, s.pending.Represents nodes ∧
      (s.pending.head = none ↔ nodes = []) ∧ (s.pending.tail = none ↔ nodes = []) ∧
      s.holder.Remaining s.pending.heap nodes rest ∧
      s.acquired = s.handed ++ rest.map Prod.snd ++ s.holder.inFlight ∧
      (s.mutex = none → s.acquired = s.handed ++ nodes.map Prod.snd) ∧
      s.registry = s.handed.foldl handler r₀ := by
  obtain ⟨nodes, hinv⟩ := reaches_inv h
  obtain ⟨rest, hrest, horder⟩ := hinv.order
  refine ⟨hinv.fault, nodes, rest, hinv.represents, hinv.represents.eq_nil_iff.1,
    hinv.represents.eq_nil_iff.2, hrest, horder, ?_, hinv.registry⟩
  intro hmutex
  rw [holder_of_none hmutex] at hrest horder
  obtain rfl : rest = nodes := hrest
  rw [horder]
  exact List.append_nil _

/-- A thread that is not the owner queues an operation and wakes the owner up, which
handles it. -/
theorem channel_operations_in_order_wakeup :
    ∃ s : System Bool ℕ (List ℕ),
      [.call false ⟨.add, 5⟩, .advance false, .advance false, .advance false, .advance false, .run,
        .dispatch true, .readWakeup, .finish, .advance true, .advance true, .advance true,
        .advance true].foldlM (step (fun r op => r ++ [op.channel]) true) (init []) = some s ∧
      s.registry = [5] ∧ s.fault = none ∧ ∃ nodes, s.pending.Represents nodes ∧
        s.acquired = s.handed ++ nodes.map Prod.snd := by
  obtain ⟨s, hrun, hregistry, hmutex⟩ : ∃ s : System Bool ℕ (List ℕ),
      [.call false ⟨.add, 5⟩, .advance false, .advance false, .advance false, .advance false, .run,
        .dispatch true, .readWakeup, .finish, .advance true, .advance true, .advance true,
        .advance true].foldlM (step (fun r op => r ++ [op.channel]) true) (init []) = some s ∧
      s.registry = [5] ∧ s.mutex = none := ⟨_, rfl, rfl, rfl⟩
  obtain ⟨hfault, nodes, -, hrep, -, -, -, -, hfree, -⟩ :=
    channel_operations_in_order (Reaches.of_foldlM hrun)
  exact ⟨s, hrun, hregistry, hfault, nodes, hrep, hfree hmutex⟩

end System

end OsProgramming.Reactor
