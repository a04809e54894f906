import OsProgramming.Reactor.CallbackRegistry
import OsProgramming.Reactor.EpollDispatcher
import OsProgramming.Reactor.PollDispatcher

/-! The dispatch passes of the two backends, and the runs of a loop. What a pass finds
is chosen by the kernel: `poll` fills in the `revents` of all slots, and `epoll_wait`
returns a batch. -/

namespace OsProgramming.Reactor

open Library

def pollErr : BitVec 16 := 0x0008
def pollHup : BitVec 16 := 0x0010

/-- The scripts of the two callbacks that a reported descriptor may lead to. -/
structure PassScript where
  read : CallScript
  write : CallScript

namespace LoopState

/-- One of the two parts of a pass for a descriptor. -/
def activeIf {δ : Type} (S : Setting δ) (s : LoopState δ) (reported : Prop) [Decidable reported]
    (fd : ℤ) (events : Events) (script : CallScript) : Result (LoopState δ) :=
  if reported then s.eventLoopActive S fd events script else .ok s

/-! ### `poll_dispatch` -/

def pollSetting (self : LoopId) (cast : ChannelData → Result LoopId) : Setting (List PollFd) where
  self := self
  cast := cast
  dispatcher _ := pollEventDispatcher
  forget data _ := data

/-- `poll` reports nothing for a negative descriptor, and has no flag in the sign bit
of the `short`. -/
def pollReturns (revents : ℕ → BitVec 15) (data : List PollFd) : List PollFd :=
  data.zipIdx.map fun (slot, i) =>
    { slot with revents := if slot.fd < 0 then 0 else (revents i).setWidth 16 }

/-- The result of `poll`. -/
def pollReady (data : List PollFd) : ℕ := data.countP fun slot => slot.revents ≠ 0

variable (S : Setting (List PollFd))

/-- The slot is a copy from before the callbacks. -/
def pollActive (s : LoopState (List PollFd)) (pollFd : PollFd) (script : PassScript) :
    Result (LoopState (List PollFd)) := do
  let s ← s.activeIf S (pollFd.revents &&& pollRdNorm ≠ 0) pollFd.fd eventRead script.read
  s.activeIf S (pollFd.revents &&& pollWrNorm ≠ 0) pollFd.fd eventWrite script.write

/-- The loop over the slots from `i` on, of which `n` are left. -/
def pollScan (scripts : ℕ → PassScript) :
    (n i : ℕ) → (readyNumber : ℤ) → LoopState (List PollFd) → Result (LoopState (List PollFd))
  | 0, _, _, s => .ok s
  | n + 1, i, readyNumber, s => do
    let pollFd ← load s.loop.dispatcherData i
    if pollFd.fd < 0 then pollScan scripts n (i + 1) readyNumber s
    else if 0 < pollFd.revents.toInt then do
      let s ← s.pollActive S pollFd (scripts i)
      if readyNumber - 1 ≤ 0 then .ok s else pollScan scripts n (i + 1) (readyNumber - 1) s
    else pollScan scripts n (i + 1) readyNumber s

/-- The state in which `poll` has filled in the `revents`. -/
def polled (revents : ℕ → BitVec 15) (s : LoopState (List PollFd)) : LoopState (List PollFd) :=
  { s with loop := { s.loop with dispatcherData := pollReturns revents s.loop.dispatcherData } }

def pollDispatch (revents : ℕ → BitVec 15) (scripts : ℕ → PassScript)
    (s : LoopState (List PollFd)) : Result (LoopState (List PollFd)) :=
  let s := s.polled revents
  if pollReady s.loop.dispatcherData = 0 then .ok s
  else pollScan S scripts initPollSize 0 (pollReady s.loop.dispatcherData) s

/-! ### `epoll_dispatch` -/

def epollSetting (self : LoopId) (cast : ChannelData → Result LoopId) : Setting InterestSet where
  self := self
  cast := cast
  dispatcher := epollEventDispatcher
  forget interest fd := Function.update interest fd none

variable (E : Setting InterestSet)

/-- The error branch closes the descriptor, and continues. -/
def epollEntry (s : LoopState InterestSet) (entry : EpollEvent × PassScript) :
    Result (LoopState InterestSet) :=
  let (event, script) := entry
  if event.Failed then .ok (s.closeDescriptor E event.fd)
  else do
    let s ← s.activeIf E (event.events &&& epollIn ≠ 0) event.fd eventRead script.read
    s.activeIf E (event.events &&& epollOut ≠ 0) event.fd eventWrite script.write

def epollDispatch (batch : List (EpollEvent × PassScript)) (s : LoopState InterestSet) :
    Result (LoopState InterestSet) :=
  batch.foldlM (epollEntry E) s

/-! ### Runs -/

/-- Between passes the loop handles its queue; what a pass is given is of type `ρ`. -/
inductive LoopEvent (ρ : Type) where
  | act (a : Act)
  | dispatch (reports : ρ)

variable {δ ρ : Type}

def step (S : Setting δ) (dispatch : ρ → LoopState δ → Result (LoopState δ)) (s : LoopState δ) :
    LoopEvent ρ → Result (LoopState δ)
  | .act a => s.act S a
  | .dispatch reports => dispatch reports s

/-! ### What a dispatched event keeps -/

section

variable {S : Setting δ} {s s' : LoopState δ} {Q : LoopState δ → Prop}
  {allowed : ConnectionId → Prop}

/-- What moves keep, and the removals of the connections that may be reported, a
dispatched event keeps. -/
theorem activeIf_keeps (hsane : ∀ s, Q s → Sane S s) (hmove : ∀ s s', Q s → Move S s s' → Q s')
    (hremoves : ∀ s s' id, allowed id → Q s → Removes S id s s' → Q s') {reported : Prop}
    [Decidable reported] {fd : ℤ} {events : Events}
    (hevents : events = eventRead ∨ events = eventWrite) {script : CallScript} (hs : Q s)
    (hallowed : ∀ id, s.loop.channelMap.entry fd = some (.connection id) → allowed id)
    (h : s.activeIf S reported fd events script = .ok s') : Q s' := by
  unfold activeIf at h
  split_ifs at h
  swap
  · cases h
    exact hs
  rcases hevents with rfl | rfl
  · rcases active_read (hsane s hs) h with ⟨id, hentry, -, hcloses⟩ | ⟨-, hmoves⟩
    · obtain ⟨s₁, s₂, hbefore, hremove, hafter⟩ := hcloses
      have hs₁ := hbefore.keeps hmove hs
      exact hafter.keeps hmove (hremoves s₁ s₂ id (hallowed id hentry) hs₁ hremove)
    · exact hmoves.keeps hmove hs
  · exact (active_write (hsane s hs) h).keeps hmove hs

theorem Sane.activeIf (hs : Sane S s) {reported : Prop} [Decidable reported] {fd : ℤ}
    {events : Events} (hevents : events = eventRead ∨ events = eventWrite) {script : CallScript}
    (h : s.activeIf S reported fd events script = .ok s') : Sane S s' :=
  activeIf_keeps (fun _ => id) (fun _ _ hs => hs.move) (fun _ _ _ (_ : True) hs => hs.removes)
    hevents hs (fun _ _ => trivial) h

end

end LoopState

end OsProgramming.Reactor
