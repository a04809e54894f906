import OsProgramming.Library.LinkedQueue
import OsProgramming.Library.Runs
import OsProgramming.Reactor.Channel
import Mathlib.Logic.Function.Basic

/-! The pending queue of a loop and the threads that use it. Any number of threads
run `event_loop_do_channel_event`; the owner of the loop also runs its iterations.
Between two statements of one thread all others may move; the points at which a
thread can be are the statements that it makes next. -/

namespace OsProgramming.Reactor

open Library

/-- The value of a `struct channel_node`. -/
structure PendingOp (κ : Type*) where
  type : ChannelOp
  channel : κ
  deriving DecidableEq

/-- The next statement of `event_loop_do_channel_event`. -/
inductive Call (κ : Type*) where
  | lock (op : PendingOp κ)
  | enqueue (op : PendingOp κ)
  | unlock
  | wakeup

/-- The next statement of `event_loop_handle_pending_channel`: `visit` is its loop
with the value of `node`. -/
inductive Pass where
  | lock
  | visit (node : Option ℕ)
  | unlock

/-- Where a thread is. Outside of the two functions, the owner is in its iteration. -/
inductive Thread (κ : Type*) where
  | outside
  | doChannelEvent (next : Call κ)
  | handlePendingChannel (next : Pass)

/-- Where the owner is in `event_loop_run`: not yet there, blocked in `dispatch`, in
the callbacks of a dispatch pass, which may still have to handle a wake-up, or in
the call of `event_loop_handle_pending_channel` that ends the iteration. -/
inductive Phase where
  | starting
  | waiting
  | callbacks (wakeup : Bool)
  | finishing
  deriving DecidableEq

/-- `registry` is what the handlers of the operations work on. Beside the fields of
the source, `acquired` lists the enqueues in the order in which they got the mutex,
and `handed` the operations that the handlers have been given. -/
structure System (T κ ρ : Type*) where
  mutex : Option T
  isHandlingPendingChannel : Bool
  pending : LinkedQueue (PendingOp κ)
  /-- unread bytes in the socketpair -/
  unread : ℕ
  phase : Phase
  threads : T → Thread κ
  registry : ρ
  acquired : List (PendingOp κ)
  handed : List (PendingOp κ)
  fault : Option Fault

inductive Action (T κ : Type*) where
  /-- the owner enters `event_loop_run` -/
  | run
  /-- `dispatch` returns, and the wake-up channel is among the reported ones or not -/
  | dispatch (wakeup : Bool)
  /-- `handle_loop_thread_wakeup` -/
  | readWakeup
  /-- the callbacks of the pass are done -/
  | finish
  /-- a thread calls `event_loop_do_channel_event` -/
  | call (t : T) (op : PendingOp κ)
  /-- a thread makes its next statement -/
  | advance (t : T)

namespace System

variable {T κ ρ : Type*} [DecidableEq T]

def goto (s : System T κ ρ) (t : T) (next : Thread κ) : System T κ ρ :=
  { s with threads := Function.update s.threads t next }

def init (registry : ρ) : System T κ ρ where
  mutex := none
  isHandlingPendingChannel := false
  pending := .empty
  unread := 0
  phase := .starting
  threads _ := .outside
  registry := registry
  acquired := []
  handed := []
  fault := none

def eventLoopPendingChannelEnqueueNoLock (pending : LinkedQueue (PendingOp κ)) (channel : κ)
    (type : ChannelOp) : Result (LinkedQueue (PendingOp κ)) :=
  pending.enqueue ⟨type, channel⟩

def eventLoopDoChannelEvent (owner t : T) (s : System T κ ρ) : Call κ → Option (System T κ ρ)
  | .lock op =>
    if s.mutex = none then
      some ({ s with mutex := some t, acquired := s.acquired ++ [op] }.goto t
        (.doChannelEvent (.enqueue op)))
    else none
  | .enqueue op =>
    if s.isHandlingPendingChannel then some { s with fault := some .assertFailed }
    else
      match eventLoopPendingChannelEnqueueNoLock s.pending op.channel op.type with
      | .error fault => some { s with fault := some fault }
      | .ok pending => some ({ s with pending }.goto t (.doChannelEvent .unlock))
  | .unlock =>
    -- the owner handles the queue itself, any other thread wakes it up
    some ({ s with mutex := none }.goto t
      (if t = owner then .handlePendingChannel .lock else .doChannelEvent .wakeup))
  | .wakeup => some ({ s with unread := s.unread + 1 }.goto t .outside)

/-- `handler` stands for the three functions that the type of the node selects. -/
def eventLoopHandlePendingChannel (handler : ρ → PendingOp κ → ρ) (t : T) (s : System T κ ρ) :
    Pass → Option (System T κ ρ)
  | .lock =>
    if s.mutex = none then
      some ({ s with mutex := some t, isHandlingPendingChannel := true }.goto t
        (.handlePendingChannel (.visit s.pending.head)))
    else none
  | .visit (some node) =>
    match LinkedQueue.deref s.pending.heap node with
    | .error fault => some { s with fault := some fault }
    | .ok cell =>
      some ({ s with
        registry := handler s.registry cell.value
        handed := s.handed ++ [cell.value] }.goto t (.handlePendingChannel (.visit cell.next)))
  | .visit none =>
    some ({ s with pending := s.pending.clear, isHandlingPendingChannel := false }.goto t
      (.handlePendingChannel .unlock))
  | .unlock =>
    some ({ s with
      mutex := none
      phase := if s.phase = Phase.finishing then .waiting else s.phase }.goto t .outside)

/-- The owner may make calls before it enters `event_loop_run` and in callbacks. -/
def MayCall (owner t : T) (s : System T κ ρ) : Prop :=
  t = owner → s.phase = .starting ∨ ∃ wakeup, s.phase = .callbacks wakeup

instance (owner t : T) (s : System T κ ρ) : Decidable (MayCall owner t s) :=
  decidable_of_iff (t = owner → s.phase = .starting ∨ s.phase = .callbacks true ∨
    s.phase = .callbacks false) (by simp [MayCall, or_comm])

def move (handler : ρ → PendingOp κ → ρ) (owner : T) (s : System T κ ρ) :
    Action T κ → Option (System T κ ρ)
  | .run =>
    match s.phase, s.threads owner with
    | .starting, .outside => some { s with phase := .waiting }
    | _, _ => none
  | .dispatch wakeup =>
    match s.phase with
    | .waiting =>
      if wakeup = true → 0 < s.unread then some { s with phase := .callbacks wakeup } else none
    | _ => none
  | .readWakeup =>
    match s.phase, s.threads owner with
    | .callbacks true, .outside =>
      -- the read would block on an empty socketpair
      if 0 < s.unread then some { s with unread := s.unread - 1, phase := .callbacks false }
      else none
    | _, _ => none
  | .finish =>
    match s.phase, s.threads owner with
    | .callbacks false, .outside =>
      some ({ s with phase := .finishing }.goto owner (.handlePendingChannel .lock))
    | _, _ => none
  | .call t op =>
    match s.threads t with
    | .outside =>
      if MayCall owner t s then some (s.goto t (.doChannelEvent (.lock op))) else none
    | _ => none
  | .advance t =>
    match s.threads t with
    | .outside => none
    | .doChannelEvent next => eventLoopDoChannelEvent owner t s next
    | .handlePendingChannel next => eventLoopHandlePendingChannel handler t s next

/-- A failed thread ends the program. -/
def step (handler : ρ → PendingOp κ → ρ) (owner : T) (s : System T κ ρ) (action : Action T κ) :
    Option (System T κ ρ) :=
  if s.fault = none then move handler owner s action else none

end System

end OsProgramming.Reactor
