import OsProgramming.Reactor.EventLoop
import Mathlib.Logic.Function.Basic

/-! The epoll dispatcher. The interest set is kept by the kernel, and a call of
`epoll_ctl` that fails ends the program. -/

namespace OsProgramming.Reactor

open Library

def maxEvents : ℕ := 128

def epollIn : BitVec 32 := 0x001
def epollOut : BitVec 32 := 0x004
def epollErr : BitVec 32 := 0x008
def epollHup : BitVec 32 := 0x010

structure EpollEvent where
  events : BitVec 32
  fd : ℤ
  deriving DecidableEq

/-- The interest set behind `epoll_fd`: the events of the descriptors that are in it. -/
abbrev InterestSet := ℤ → Option (BitVec 32)

inductive EpollCtl where
  | add
  | del
  | mod
  deriving DecidableEq

/-- The kernel's side. The result -1 is `none`: the descriptor is not open, or is in the
set already, or is not in it. -/
def epollCtl (isOpen : ℤ → Bool) (interest : InterestSet) (op : EpollCtl) (fd : ℤ)
    (event : EpollEvent) : Option InterestSet :=
  if isOpen fd then
    match op, interest fd with
    | .add, none => some (Function.update interest fd (some event.events))
    | .del, some _ => some (Function.update interest fd none)
    | .mod, some _ => some (Function.update interest fd (some event.events))
    | _, _ => none
  else none

/-- The events to be watched, in the first lines of the three operations. -/
def epollInterest (channel : Channel) : BitVec 32 :=
  let events : BitVec 32 := 0
  let events := if channelEventIsReadable (some channel) then events ||| epollIn else events
  if channelEventIsWriteable (some channel) then events ||| epollOut else events

/-- The three operations differ in what they ask of `epoll_ctl`. -/
def epollOperation (op : EpollCtl) (isOpen : ℤ → Bool) (data : InterestSet) (channel : Channel) :
    Result (InterestSet × ℤ) :=
  match epollCtl isOpen data op channel.fd ⟨epollInterest channel, channel.fd⟩ with
  | none => .error .exitFailure
  | some data => .ok (data, 1)

def epollAdd (isOpen : ℤ → Bool) : InterestSet → Channel → Result (InterestSet × ℤ) :=
  epollOperation .add isOpen

def epollDelete (isOpen : ℤ → Bool) : InterestSet → Channel → Result (InterestSet × ℤ) :=
  epollOperation .del isOpen

def epollUpdate (isOpen : ℤ → Bool) : InterestSet → Channel → Result (InterestSet × ℤ) :=
  epollOperation .mod isOpen

def epollEventDispatcher (isOpen : ℤ → Bool) : EventDispatcher InterestSet :=
  ⟨epollAdd isOpen, epollDelete isOpen, epollUpdate isOpen⟩

/-- The condition of the error branch of `epoll_dispatch`. -/
def EpollEvent.Failed (event : EpollEvent) : Prop :=
  event.events &&& epollErr ≠ 0 ∨ event.events &&& epollHup ≠ 0

instance (event : EpollEvent) : Decidable event.Failed := inferInstanceAs (Decidable (_ ∨ _))

/-! ### What an operation that returns has done -/

section

variable {isOpen : ℤ → Bool} {data data' : InterestSet} {channel : Channel} {result : ℤ}

theorem epollAdd_ok (hopen : isOpen channel.fd = true) (hnone : data channel.fd = none) :
    epollAdd isOpen data channel =
      .ok (Function.update data channel.fd (some (epollInterest channel)), 1) := by
  simp only [epollAdd, epollOperation, epollCtl, hopen, hnone, ↓reduceIte]

/-- `epoll_ctl` serves an open descriptor, if only `epoll_add` is for one that is not
in the set. -/
theorem epollOperation_ok {op : EpollCtl} (hopen : isOpen channel.fd = true)
    (hdata : data channel.fd = none ↔ op = .add) :
    ∃ data', epollOperation op isOpen data channel = .ok (data', 1) := by
  unfold epollOperation epollCtl
  cases op <;> cases hfd : data channel.fd <;> simp_all

/-- Only `epoll_add` is for a descriptor that is not in the set, and only this
descriptor changes. -/
theorem epollOperation_inv {op : EpollCtl}
    (h : epollOperation op isOpen data channel = .ok (data', result)) :
    (data channel.fd = none ↔ op = .add) ∧ ∀ fd, data' fd =
      if fd = channel.fd then (if op = .del then none else some (epollInterest channel))
      else data fd := by
  simp only [← Function.update_apply]
  unfold epollOperation epollCtl at h
  cases hopen : isOpen channel.fd with
  | false => simp [hopen] at h
  | true =>
    cases op <;> cases hdata : data channel.fd <;> simp [hopen, hdata] at h ⊢ <;> simp [h.1]

end

end OsProgramming.Reactor
