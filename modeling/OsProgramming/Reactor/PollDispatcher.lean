import OsProgramming.Library.FirstMatch
import OsProgramming.Reactor.EventLoop

/-! The poll dispatcher. Its data is an array of `struct pollfd`, a free slot of which
has a negative descriptor; each operation changes the first slot that it finds, or
none, and returns 1. -/

namespace OsProgramming.Reactor

open Library

def initPollSize : ℕ := 1024

structure PollFd where
  fd : ℤ
  events : BitVec 16
  revents : BitVec 16
  deriving DecidableEq

def pollRdNorm : BitVec 16 := 0x0040
def pollWrNorm : BitVec 16 := 0x0100

def pollInit (fill : ℕ → PollFd) : List PollFd :=
  (malloc initPollSize (some fill)).map fun slot => { slot with fd := -1 }

/-- The events to be watched, in the first lines of `poll_add` and `poll_update`. -/
def pollInterest (channel : Channel) : BitVec 16 :=
  let events : BitVec 16 := 0
  let events := if channelEventIsReadable (some channel) then events ||| pollRdNorm else events
  if channelEventIsWriteable (some channel) then events ||| pollWrNorm else events

def pollAdd (data : List PollFd) (channel : Channel) : Result (List PollFd × ℤ) :=
  .ok (modifyFirst (fun slot => slot.fd < 0)
    (fun slot => { slot with fd := channel.fd, events := pollInterest channel }) data, 1)

def pollDelete (data : List PollFd) (channel : Channel) : Result (List PollFd × ℤ) :=
  .ok (modifyFirst (fun slot => slot.fd = channel.fd) (fun slot => { slot with fd := -1 }) data, 1)

def pollUpdate (data : List PollFd) (channel : Channel) : Result (List PollFd × ℤ) :=
  .ok (modifyFirst (fun slot => slot.fd = channel.fd)
    (fun slot => { slot with events := pollInterest channel }) data, 1)

def pollEventDispatcher : EventDispatcher (List PollFd) := ⟨pollAdd, pollDelete, pollUpdate⟩

/-! ### Slots -/

/-- The interest masks of the slots of a descriptor. -/
def slotsOf (data : List PollFd) (fd : ℤ) : List (BitVec 16) :=
  (data.filter fun slot => slot.fd = fd).map PollFd.events

/-- The number of slots that are not free. -/
def occupied (data : List PollFd) : ℕ := data.countP fun slot => 0 ≤ slot.fd

@[simp] theorem slotsOf_append (xs ys : List PollFd) (fd : ℤ) :
    slotsOf (xs ++ ys) fd = slotsOf xs fd ++ slotsOf ys fd := by
  simp [slotsOf]

@[simp] theorem slotsOf_cons (slot : PollFd) (data : List PollFd) (fd : ℤ) :
    slotsOf (slot :: data) fd =
      if slot.fd = fd then slot.events :: slotsOf data fd else slotsOf data fd := by
  unfold slotsOf
  split_ifs with h <;> simp [h]

@[simp] theorem occupied_append (xs ys : List PollFd) :
    occupied (xs ++ ys) = occupied xs + occupied ys := List.countP_append

@[simp] theorem occupied_cons (slot : PollFd) (data : List PollFd) :
    occupied (slot :: data) = occupied data + if 0 ≤ slot.fd then 1 else 0 := by
  simp [occupied, List.countP_cons]

theorem slotsOf_ne_nil {data : List PollFd} {fd : ℤ} :
    slotsOf data fd ≠ [] ↔ ∃ slot ∈ data, slot.fd = fd := by
  simp [slotsOf, List.filter_eq_nil_iff]

/-- An update changes the first slot of the descriptor, if there is one. -/
theorem slotsOf_pollUpdate (data : List PollFd) (channel : Channel) :
    ∃ data', pollUpdate data channel = .ok (data', 1) ∧
      slotsOf data' channel.fd = (slotsOf data channel.fd).modifyHead fun _ => pollInterest channel := by
  refine ⟨_, rfl, ?_⟩
  induction data with
  | nil => rfl
  | cons slot data ih =>
    by_cases hfd : slot.fd = channel.fd
    · simp [modifyFirst, hfd]
    · simpa [modifyFirst, hfd] using ih

/-- A free slot is there as long as not all are occupied. -/
theorem exists_free {data : List PollFd} (h : occupied data < data.length) :
    ∃ slot ∈ data, slot.fd < 0 := by
  by_contra hfull
  push Not at hfull
  have hall : occupied data = data.length :=
    List.countP_eq_length.mpr fun slot hslot => by simpa using hfull slot hslot
  omega

theorem pollInit_free (fill : ℕ → PollFd) : ∀ slot ∈ pollInit fill, slot.fd = -1 := by
  intro slot hslot
  obtain ⟨x, -, rfl⟩ := List.mem_map.mp hslot
  rfl

theorem pollInit_spec (fill : ℕ → PollFd) :
    (pollInit fill).length = initPollSize ∧ occupied (pollInit fill) = 0 ∧
      ∀ fd, 0 ≤ fd → slotsOf (pollInit fill) fd = [] := by
  have hfree := pollInit_free fill
  refine ⟨by simp [pollInit], ?_, ?_⟩
  · refine List.countP_eq_zero.mpr fun slot hslot => ?_
    rw [hfree slot hslot]
    decide
  · intro fd h0
    by_contra hne
    obtain ⟨slot, hslot, hfd⟩ := slotsOf_ne_nil.mp hne
    rw [hfree slot hslot] at hfd
    omega

/-- A free slot is taken; no other slot of a descriptor changes. -/
theorem pollAdd_spec {data : List PollFd} (channel : Channel) (h0 : 0 ≤ channel.fd)
    (hroom : occupied data < data.length) (hnew : slotsOf data channel.fd = []) :
    ∃ data', pollAdd data channel = .ok (data', 1) ∧ data'.length = data.length ∧
      occupied data' = occupied data + 1 ∧ ∀ fd, 0 ≤ fd → slotsOf data' fd =
        if fd = channel.fd then [pollInterest channel] else slotsOf data fd := by
  refine ⟨_, rfl, length_modifyFirst _ _ data, ?_⟩
  obtain ⟨free, hmem, hfree⟩ := exists_free hroom
  obtain ⟨before, slot, behind, rfl, hp, hmod⟩ := modifyFirst_of_exists
    (p := fun slot : PollFd => decide (slot.fd < 0))
    (fun slot : PollFd => { slot with fd := channel.fd, events := pollInterest channel })
    ⟨free, hmem, decide_eq_true hfree⟩
  have hneg : slot.fd < 0 := of_decide_eq_true hp
  rw [hmod]
  constructor
  · simp only [occupied_append, occupied_cons, if_pos h0, if_neg (not_le.mpr hneg)]
    omega
  · intro fd hfd
    have hne : slot.fd ≠ fd := by omega
    by_cases heq : fd = channel.fd
    · subst heq
      simp only [slotsOf_append, slotsOf_cons, if_neg hne, List.append_eq_nil_iff] at hnew
      simp [hnew.1, hnew.2]
    · simp [hne, heq, Ne.symm heq]

/-- The only slot of the descriptor becomes free. -/
theorem pollDelete_spec {data : List PollFd} (channel : Channel) (mask : BitVec 16)
    (h0 : 0 ≤ channel.fd) (hone : slotsOf data channel.fd = [mask]) :
    ∃ data', pollDelete data channel = .ok (data', 1) ∧ data'.length = data.length ∧
      occupied data' + 1 = occupied data ∧ ∀ fd, 0 ≤ fd → slotsOf data' fd =
        if fd = channel.fd then [] else slotsOf data fd := by
  refine ⟨_, rfl, length_modifyFirst _ _ data, ?_⟩
  obtain ⟨found, hmem, hfd⟩ := slotsOf_ne_nil.mp (by rw [hone]; simp)
  obtain ⟨before, slot, behind, rfl, hp, hmod⟩ := modifyFirst_of_exists
    (p := fun slot : PollFd => decide (slot.fd = channel.fd))
    (fun slot : PollFd => { slot with fd := -1 }) ⟨found, hmem, decide_eq_true hfd⟩
  have hself : slot.fd = channel.fd := of_decide_eq_true hp
  rw [hmod]
  constructor
  · simp only [occupied_append, occupied_cons, hself, if_pos h0]
    simp
    omega
  · intro fd hfd
    have hne : (-1 : ℤ) ≠ fd := by omega
    by_cases heq : fd = channel.fd
    · subst heq
      simp only [slotsOf_append, slotsOf_cons, hself, ↓reduceIte, List.append_eq_singleton_iff,
        List.cons.injEq, reduceCtorEq, and_false, or_false] at hone
      simp [hone, hne]
    · simp [hself, hne, heq, Ne.symm heq]

/-- The only slot of the descriptor gets the new interest. -/
theorem pollUpdate_spec {data : List PollFd} (channel : Channel) (mask : BitVec 16)
    (hone : slotsOf data channel.fd = [mask]) :
    ∃ data', pollUpdate data channel = .ok (data', 1) ∧ data'.length = data.length ∧
      occupied data' = occupied data ∧ ∀ fd, slotsOf data' fd =
        if fd = channel.fd then [pollInterest channel] else slotsOf data fd := by
  refine ⟨_, rfl, length_modifyFirst _ _ data, ?_⟩
  obtain ⟨found, hmem, hfd⟩ := slotsOf_ne_nil.mp (by rw [hone]; simp)
  obtain ⟨before, slot, behind, rfl, hp, hmod⟩ := modifyFirst_of_exists
    (p := fun slot : PollFd => decide (slot.fd = channel.fd))
    (fun slot : PollFd => { slot with events := pollInterest channel })
    ⟨found, hmem, decide_eq_true hfd⟩
  have hself : slot.fd = channel.fd := of_decide_eq_true hp
  rw [hmod]
  refine ⟨by simp only [occupied_append, occupied_cons], ?_⟩
  intro fd
  by_cases heq : fd = channel.fd
  · subst heq
    simp only [slotsOf_append, slotsOf_cons, hself, ↓reduceIte, List.append_eq_singleton_iff,
      List.cons.injEq, reduceCtorEq, and_false, or_false] at hone
    simp [hone, hself]
  · simp [hself, heq, Ne.symm heq]

end OsProgramming.Reactor
